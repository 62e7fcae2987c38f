import SearchQuery.Proofs.NumberText
import SearchQuery.Proofs.TomlStrings
import SearchQuery.Toml.Parser

/-! # TOML pairs read back

A document that is written as a line for each of its members, under keys that need no quotes, is read
as these members in their order. The values are texts, counts and truth values. -/
namespace SearchQuery.Toml

open Json (IsDigits digitChars boolChars)

/-- A text that is read as a value when a line break comes behind it. -/
structure SpellsValue (cs : List Char) (v : Json) : Prop where
  head : ∀ c ∈ cs.head?, isSpace c = false
  scan : ∀ fuel depth rest,
    scanValue? (fuel + 1) depth (cs ++ '\n' :: rest) = some (v.document, '\n' :: rest)

/-- A key that needs no quotes. -/
def IsBareKey (key : String) : Prop := key ≠ "" ∧ key.toList.all isBareChar = true

instance (key : String) : Decidable (IsBareKey key) := inferInstanceAs (Decidable (_ ∧ _))

/-- The lines of some members. -/
inductive SpellsLines : List Char → List (String × Json) → Prop
  | nil : SpellsLines [] []
  | pair {key value v lines ms} (hkey : IsBareKey key) (hvalue : SpellsValue value v)
      (h : SpellsLines lines ms) : SpellsLines (pairLine key value ++ lines) ((key, v) :: ms)

/-- A table of members that are values. -/
def valueMembers (ms : List (String × Json)) : Members := ms.map fun m => (m.1, .value m.2.document)

/-- A character of a word or a key is no space. -/
theorem isSpace_eq_false {p : Char → Bool} {c : Char} (hc : p c = true) (hspace : p ' ' = false)
    (htab : p '\t' = false) : isSpace c = false := by
  simp only [isSpace, Bool.or_eq_false_iff, decide_eq_false_iff_not]
  constructor
  · rintro rfl
    exact Bool.false_ne_true (hspace.symm.trans hc)
  · rintro rfl
    exact Bool.false_ne_true (htab.symm.trans hc)

/-! ### Values -/

theorem exists_head_enclose (q : Char) (triple lines : Bool) (body : List Char) :
    ∃ rest, enclose q triple lines body = q :: rest := by
  cases triple <;> exact ⟨_, rfl⟩

theorem exists_head_stringChars (cs : List Char) :
    ∃ q rest, stringChars cs = q :: rest ∧ (q = '"' ∨ q = quote) := by
  have hbasic (triple : Bool) (body : List Char) :
      ∃ q rest, enclose '"' triple (cs.contains '\n') body = q :: rest ∧ (q = '"' ∨ q = quote) :=
    have ⟨rest, hrest⟩ := exists_head_enclose '"' triple (cs.contains '\n') body
    ⟨'"', rest, hrest, .inl rfl⟩
  have hliteral (triple : Bool) :
      ∃ q rest, enclose quoteChar triple (cs.contains '\n') cs = q :: rest ∧
        (q = '"' ∨ q = quote) :=
    have ⟨rest, hrest⟩ := exists_head_enclose quoteChar triple (cs.contains '\n') cs
    ⟨quoteChar, rest, hrest, .inr rfl⟩
  unfold stringChars
  simp only
  split_ifs
  · exact hbasic false _
  · exact hliteral false
  · exact hbasic true _
  · exact hliteral true
  · exact hbasic _ _

theorem spellsValue_string (s : String) : SpellsValue (stringChars s.toList) (.str s) := by
  obtain ⟨q, cs, hchars, hq⟩ := exists_head_stringChars s.toList
  constructor
  · rw [hchars]
    rintro _ ⟨⟩
    rcases hq with rfl | rfl <;> rfl
  · intro fuel depth rest
    have hend : ('\n' :: rest).head? ≠ some '"' ∧ ('\n' :: rest).head? ≠ some quote := by
      simp [quote]
    have hscan := scanString?_stringChars s.toList hend.1 hend.2
    rw [hchars, List.cons_append] at hscan ⊢
    rw [scanValue?.eq_def]
    simp [hq, hscan, Json.document]

theorem scanWord_append {word : List Char} (hword : ∀ c ∈ word, isWordChar c = true)
    (rest : List Char) : scanWord (word ++ '\n' :: rest) = (word, '\n' :: rest) := by
  have hend : ∀ c ∈ ('\n' :: rest).head?, isWordChar c = false := by
    rintro _ ⟨⟩
    rfl
  obtain ⟨htake, hdrop⟩ := Text.takeWhile_append_of_head? hword hend
  simp only [scanWord, htake, hdrop]
  rfl

theorem spellsValue_word {word : List Char} {v : Json} (hne : word ≠ [])
    (hword : ∀ c ∈ word, isWordChar c = true) (hvalue : scalar? word = some v.document) :
    SpellsValue word v := by
  obtain ⟨c, cs, rfl⟩ := List.exists_cons_of_ne_nil hne
  have hc : isWordChar c = true := hword c List.mem_cons_self
  constructor
  · rintro _ ⟨⟩
    exact isSpace_eq_false hc rfl rfl
  · intro fuel depth rest
    have hquote : ¬ (c = '"' ∨ c = quote) := by
      rintro (rfl | rfl) <;> cases hc
    have hopen : ¬ (c = '[' ∨ c = '{') := by
      rintro (rfl | rfl) <;> cases hc
    have hscan := scanWord_append hword rest
    rw [List.cons_append] at hscan ⊢
    rw [scanValue?.eq_def]
    simp [hquote, hopen, hscan, hvalue]

theorem spellsValue_bool (b : Bool) : SpellsValue (boolChars b) (.bool b) := by
  cases b <;> exact spellsValue_word (List.cons_ne_nil _ _) (List.all_eq_true.1 rfl) rfl

theorem ungroup?_of_isDigits {ds : List Char} (hne : ds ≠ []) (hds : IsDigits ds) :
    ungroup? Char.isDigit ds = some ds := by
  induction ds with
  | nil => exact absurd rfl hne
  | cons c ds ih =>
    obtain ⟨hc, hds⟩ := List.forall_mem_cons.1 hds
    cases ds with
    | nil => simp [ungroup?, hc]
    | cons d ds =>
      rw [ungroup?, if_pos hc, ih (List.cons_ne_nil _ _) hds]
      · rfl
      · nofun
      · rintro _ ⟨⟩
        cases hds '_' List.mem_cons_self

theorem decimalDigits?_digitChars (n : Nat) :
    decimalDigits? (digitChars n) = some (digitChars n) := by
  have hlead : (digitChars n).length = 1 ∨ (digitChars n).head? ≠ some '0' := by
    by_cases hn : n = 0
    · subst hn
      exact .inl rfl
    · exact .inr (Json.head?_digitChars hn)
  rw [decimalDigits?, ungroup?_of_isDigits (Json.digitChars_ne_nil n) (Json.isDigits_digitChars n)]
  simpa [Option.filter_some, or_iff_not_imp_left] using hlead

theorem integer?_digitChars {n : Nat} (hn : n < Json.signedLimit) :
    integer? (digitChars n) = some (n : Int) := by
  have hdigits := Json.isDigits_digitChars n
  have hsign : splitSign (digitChars n) = (false, digitChars n) := by
    unfold splitSign
    split
    · rename_i heq
      cases hdigits '-' (heq ▸ List.mem_cons_self)
    · rename_i heq
      cases hdigits '+' (heq ▸ List.mem_cons_self)
    · rfl
  have hbase {c : Char} {cs : List Char} (h : digitChars n = '0' :: c :: cs) : c.isDigit = true :=
    hdigits c (h ▸ List.mem_cons_of_mem _ List.mem_cons_self)
  have hrange : -(Json.signedLimit : Int) ≤ n ∧ (n : Int) < Json.signedLimit := by omega
  unfold integer?
  split
  all_goals try (rename_i heq; cases hbase heq)
  simp [hsign, decimalDigits?_digitChars, Json.ofDigits_digitChars, hrange, Option.filter_some]

theorem spellsValue_count {n : Nat} (hn : n < Json.signedLimit) :
    SpellsValue (digitChars n) (.num (.int n)) := by
  have hdigits := Json.isDigits_digitChars n
  refine spellsValue_word (Json.digitChars_ne_nil n) (fun c hc => ?_) ?_
  · simp [isWordChar, Char.isAlphanum, hdigits c hc]
  · have htrue : digitChars n ≠ ['t', 'r', 'u', 'e'] := fun h => by
      have := hdigits 't' (h ▸ List.mem_cons_self)
      cases this
    have hfalse : digitChars n ≠ ['f', 'a', 'l', 's', 'e'] := fun h => by
      have := hdigits 'f' (h ▸ List.mem_cons_self)
      cases this
    rw [scalar?, if_neg htrue, if_neg hfalse, integer?_digitChars hn]
    rfl

/-! ### Keys -/

theorem skipSpace_eq_self {cs : List Char} (h : ∀ c ∈ cs.head?, isSpace c = false) :
    skipSpace cs = cs := by
  cases cs with
  | nil => rfl
  | cons c cs => exact List.dropWhile_cons_of_neg (by simp [h c rfl])

theorem skipSpace_space (cs : List Char) : skipSpace (' ' :: cs) = skipSpace cs := rfl

/-- The text of a bare key starts with a character that tells it from everything else. -/
theorem IsBareKey.exists_head {key : String} (h : IsBareKey key) :
    ∃ c cs, key.toList = c :: cs ∧ isBareChar c = true :=
  have ⟨c, cs, hcs⟩ := List.exists_cons_of_ne_nil (mt String.toList_eq_nil_iff.1 h.1)
  ⟨c, cs, hcs, List.all_eq_true.1 h.2 c (hcs ▸ List.mem_cons_self)⟩

theorem scanKeyPart?_bare {key : String} (h : IsBareKey key) (rest : List Char) :
    scanKeyPart? (key.toList ++ ' ' :: rest) = some (key, ' ' :: rest) := by
  have hbare := List.all_eq_true.1 h.2
  have hend : ∀ c ∈ (' ' :: rest).head?, isBareChar c = false := by
    rintro _ ⟨⟩
    rfl
  obtain ⟨htake, hdrop⟩ := Text.takeWhile_append_of_head? hbare hend
  obtain ⟨c, cs, hcs, hc⟩ := h.exists_head
  unfold scanKeyPart?
  split
  · rename_i heq
    rw [hcs] at heq
    cases (List.cons.inj heq).1
    cases hc
  · rename_i heq
    rw [hcs] at heq
    cases (List.cons.inj heq).1
    cases hc
  · simp [htake, hdrop, h.1]

theorem scanKey?_bare {key : String} (h : IsBareKey key) (parts : Nat) (rest : List Char) :
    scanKey? (parts + 1) (key.toList ++ ' ' :: '=' :: rest) = some ([key], '=' :: rest) := by
  obtain ⟨c, cs, hcs, hc⟩ := h.exists_head
  have hskip : skipSpace (key.toList ++ ' ' :: '=' :: rest) = key.toList ++ ' ' :: '=' :: rest :=
    skipSpace_eq_self fun d hd => by
      rw [hcs] at hd
      cases hd
      exact isSpace_eq_false hc rfl rfl
  have hequals : skipSpace (' ' :: '=' :: rest) = '=' :: rest := by
    rw [skipSpace_space]
    exact skipSpace_eq_self (by simp [isSpace])
  rw [scanKey?, hskip, scanKeyPart?_bare h]
  simp [hequals]

/-! ### Lines -/

/-- A new key is added at the end. -/
theorem addPair_valueMembers {key : String} {ms : List (String × Json)} (v : Json)
    (hnew : key ∉ ms.map Prod.fst) : addPair [key] v.document .header (valueMembers ms) =
      some (.header, valueMembers (ms ++ [(key, v)])) := by
  have hlookup : (valueMembers ms).lookup key = none := by
    refine List.lookup_eq_none_iff.2 fun p hp => ?_
    obtain ⟨m, hm, rfl⟩ := List.mem_map.1 hp
    have hne : key ≠ m.1 := fun h => hnew (h ▸ List.mem_map_of_mem hm)
    simpa using hne
  have happend : valueMembers (ms ++ [(key, v)]) =
      valueMembers ms ++ [(key, .value v.document)] := List.map_append
  simp [addPair, update, hlookup, happend]

theorem memberDocuments_valueMembers (ms : List (String × Json)) :
    memberDocuments (valueMembers ms) = Json.memberDocuments ms := by
  induction ms with
  | nil => rfl
  | cons m ms ih => exact congrArg (_ :: ·) ih

/-- A line with a pair adds it to the document. -/
theorem scanLines?_pairLine {key : String} {value : List Char} {v : Json}
    (hkey : IsBareKey key) (hvalue : SpellsValue value v) {ms : List (String × Json)}
    (hnew : key ∉ ms.map Prod.fst) (fuel : Nat) (rest : List Char) :
    scanLines? (fuel + 2) (valueMembers ms) [] (pairLine key value ++ rest) =
      scanLines? (fuel + 1) (valueMembers (ms ++ [(key, v)])) [] rest := by
  have hline : pairLine key value ++ rest =
      key.toList ++ ' ' :: '=' :: ' ' :: (value ++ '\n' :: rest) := by
    simp [pairLine]
  obtain ⟨c, cs, hcs, hc⟩ := hkey.exists_head
  have hskip : skipSpace (pairLine key value ++ rest) = pairLine key value ++ rest :=
    skipSpace_eq_self fun d hd => by
      rw [hline, hcs] at hd
      cases hd
      exact isSpace_eq_false hc rfl rfl
  have hfirst {d : Char} {ds : List Char} (hd : isBareChar d = false)
      (h : pairLine key value ++ rest = d :: ds) : False := by
    rw [hline, hcs] at h
    rw [← (List.cons.inj h).1, hc] at hd
    cases hd
  have hvalueSkip : skipSpace (' ' :: (value ++ '\n' :: rest)) = value ++ '\n' :: rest := by
    rw [skipSpace_space]
    refine skipSpace_eq_self fun d hd => ?_
    cases value with
    | nil =>
      cases hd
      rfl
    | cons v vs => exact hvalue.head d hd
  have hend : endLine? ('\n' :: rest) = some rest := by
    simp [endLine?, skipSpace, isSpace]
  rw [scanLines?, hskip]
  -- The line starts with a character of its key, so it is no blank line, comment or header.
  split
  all_goals try (rename_i h; exact (hfirst (by decide) h).elim)
  · rename_i h
    simp [hline, hcs] at h
  · rw [hline, depth, scanKey?_bare hkey]
    simp [hvalueSkip, hvalue.scan, update, addPair_valueMembers v hnew, hend]

/-- Lines with pairs add them one after the other. -/
theorem SpellsLines.scan {cs : List Char} {ms : List (String × Json)} (h : SpellsLines cs ms)
    {before : List (String × Json)} (hkeys : ((before ++ ms).map Prod.fst).Nodup) (fuel : Nat) :
    scanLines? (ms.length + fuel + 1) (valueMembers before) [] cs =
      some (valueMembers (before ++ ms)) := by
  induction h generalizing before with
  | nil => simp [scanLines?, skipSpace]
  | @pair key value v lines ms hkey hvalue _ ih =>
    have hnew : key ∉ before.map Prod.fst := by
      rw [List.map_append, List.nodup_append] at hkeys
      exact fun hmem => hkeys.2.2 _ hmem _ List.mem_cons_self rfl
    have hfuel : ((key, v) :: ms).length + fuel + 1 = ms.length + fuel + 2 := by
      simp only [List.length_cons]
      omega
    rw [hfuel, scanLines?_pairLine hkey hvalue hnew, ih (by simpa using hkeys)]
    simp

theorem SpellsLines.length_le {cs : List Char} {ms : List (String × Json)}
    (h : SpellsLines cs ms) : ms.length ≤ cs.length := by
  induction h with
  | nil => exact Nat.le_refl _
  | pair _ _ _ ih =>
    simp only [pairLine, List.length_append, List.length_cons]
    omega

theorem SpellsLines.dropMark_eq {cs : List Char} {ms : List (String × Json)}
    (h : SpellsLines cs ms) : dropMark cs = cs := by
  cases h with
  | nil => rfl
  | pair hkey _ _ =>
    obtain ⟨c, _, hcs, hc⟩ := hkey.exists_head
    rw [pairLine, hcs]
    unfold dropMark
    split
    · rename_i heq
      cases (List.cons.inj heq).1
      exact absurd hc (by decide)
    · rfl

/-- A text of lines with pairs is the document that has these as members. -/
theorem SpellsLines.parse?_eq {text : String} {ms : List (String × Json)}
    (h : SpellsLines text.toList ms) (hkeys : (ms.map Prod.fst).Nodup) :
    parse? text = some (Json.obj ms).document := by
  have hlength := h.length_le
  obtain ⟨fuel, hfuel⟩ : ∃ fuel, 2 * text.toList.length + 2 = ms.length + fuel + 1 :=
    ⟨2 * text.toList.length + 1 - ms.length, by omega⟩
  have hscan : scanLines? (ms.length + fuel + 1) (valueMembers []) [] text.toList =
      some (valueMembers ([] ++ ms)) := h.scan (by simpa using hkeys) fuel
  rw [parse?, h.dropMark_eq]
  show (scanLines? (2 * text.toList.length + 2) (valueMembers []) [] text.toList).map _ = _
  rw [hfuel, hscan, Option.map_some, List.nil_append, memberDocuments_valueMembers, Json.document]

end SearchQuery.Toml
