import SearchQuery.Proofs.Trim
import SearchQuery.Toml.Text
import SearchQuery.Toml.Writer
import Mathlib.Data.List.Basic
import Mathlib.Tactic.SplitIfs

/-! # TOML strings read back

Whichever of the kinds of strings a text is written in, it is read as the text, and nothing of what
follows the closing quotes is taken. -/
namespace SearchQuery.Toml

/-! ### Characters of basic strings -/

/-- How a character can be written in a basic string, line breaks apart. -/
inductive Spells (c : Char) : List Char → Prop
  | plain (hplain : isPlain c = true) (hquote : c ≠ '"') (hslash : c ≠ '\\') : Spells c [c]
  | letter {e} (he : escaped? e = some c) : Spells c ['\\', e]
  | code {w x y z} (hcode : ofHex? [w, x, y, z] = some c) : Spells c ['\\', 'u', w, x, y, z]

theorem hexDigit?_upperHex : ∀ n < 16, Json.Token.hexDigit? (upperHex n) = some n := by decide

theorem ofHex?_byte {c : Char} (h : c.toNat < 256) :
    ofHex? ['0', '0', upperHex (c.toNat / 16), upperHex (c.toNat % 16)] = some c := by
  have hzero : Json.Token.hexDigit? '0' = some 0 := rfl
  have hvalue : c.toNat / 16 * 16 + c.toNat % 16 = c.toNat := by omega
  have hvalid : c.toNat.isValidChar := c.valid
  simp [ofHex?, ofCodePoint?, hzero, hexDigit?_upperHex _ (show c.toNat / 16 < 16 by omega),
    hexDigit?_upperHex _ (show c.toNat % 16 < 16 by omega), hvalue, hvalid]

theorem spells_escapeChar {triple : Bool} {c : Char} (hquote : c ≠ '"')
    (hbreak : triple = true → c ≠ '\n') : Spells c (escapeChar triple c) := by
  unfold escapeChar
  split_ifs with hline htriple hback htab hform hreturn hslash hcontrol
  · exact absurd hline (hbreak htriple)
  all_goals try (subst c; exact .letter rfl)
  · have hbyte : c.toNat < 256 := by
      simp only [Bool.or_eq_true, decide_eq_true_eq] at hcontrol
      rcases hcontrol with hlow | rfl
      · have : c.toNat < 32 := hlow
        omega
      · decide
    exact .code (ofHex?_byte hbyte)
  · refine .plain ?_ hquote hslash
    simp only [Bool.or_eq_true, decide_eq_true_eq, not_or, Char.not_lt] at hcontrol
    simp [isPlain, hcontrol]

/-- Neither a quote nor a line break stands in front of what is written for a character. -/
theorem Spells.exists_head {c : Char} {cs : List Char} (h : Spells c cs) :
    ∃ d ds, cs = d :: ds ∧ d ≠ '"' ∧ isPlain d = true := by
  cases h with
  | plain hplain hquote => exact ⟨c, [], rfl, hquote, hplain⟩
  | letter | code => exact ⟨'\\', _, rfl, by decide, by decide⟩

theorem Spells.scanBasic?_append {c : Char} {cs : List Char} (h : Spells c cs)
    (acc rest : List Char) : scanBasic? acc (cs ++ rest) = scanBasic? (c :: acc) rest := by
  cases h with
  | plain hplain hquote hslash =>
    rw [List.singleton_append, scanBasic?.eq_def]
    split <;> simp_all
  | @letter e he =>
    unfold escaped? at he
    split at he <;> cases he <;> rfl
  | code hcode => simp [scanBasic?, hcode]

theorem scanBasicLines?_cons {c : Char} {cs : List Char} (acc : List Char)
    (hplain : isPlain c = true) (hslash : c ≠ '\\')
    (hquotes : ∀ rest, c :: cs ≠ '"' :: '"' :: '"' :: rest) :
    scanBasicLines? acc none (c :: cs) = scanBasicLines? (c :: acc) none cs := by
  have hbreak : c ≠ '\n' := by
    rintro rfl
    cases hplain
  have hreturn : c ≠ '\r' := by
    rintro rfl
    cases hplain
  rw [scanBasicLines?.eq_def]
  simp only
  split <;> simp_all

theorem Spells.scanBasicLines?_append {c : Char} {cs : List Char} (h : Spells c cs)
    (acc rest : List Char) :
    scanBasicLines? acc none (cs ++ rest) = scanBasicLines? (c :: acc) none rest := by
  cases h with
  | plain hplain hquote hslash =>
    exact scanBasicLines?_cons acc hplain hslash (by simp [hquote])
  | @letter e he =>
    unfold escaped? at he
    split at he <;> cases he <;> simp [scanBasicLines?, isSpace, escaped?]
  | code hcode => simp [scanBasicLines?, hcode]

/-! ### Basic strings -/

theorem scanBasic?_escapeChars (acc cs rest : List Char) (run : Nat) :
    scanBasic? acc (escapeChars false run cs ++ '"' :: rest) = some (acc.reverse ++ cs, rest) := by
  induction cs generalizing acc run with
  | nil => simp [escapeChars, scanBasic?]
  | cons c cs ih =>
    by_cases hc : c = '"'
    · subst hc
      have hquote : Spells '"' ['\\', '"'] := .letter rfl
      have hwritten : escapeChars false run ('"' :: cs) =
          ['\\', '"'] ++ escapeChars false 0 cs := by simp [escapeChars]
      rw [hwritten, List.append_assoc, hquote.scanBasic?_append, ih]
      simp
    · have hspells : Spells c (escapeChar false c) := spells_escapeChar hc nofun
      have hwritten : escapeChars false run (c :: cs) =
          escapeChar false c ++ escapeChars false 0 cs := by simp [escapeChars, hc]
      rw [hwritten, List.append_assoc, hspells.scanBasic?_append, ih]
      simp

/-! ### Strings between triple quotes -/

/-- How the characters of a body between triple quotes are written for a scanner, when a number of
quotes stand in front of it. These have not been passed yet: whether they belong to the string or
close it depends on what follows them. -/
inductive Body (scan : List Char → List Char → Option (List Char × List Char)) (q : Char) :
    Nat → List Char → List Char → Prop
  | nil {run} (hrun : run ≤ 2) : Body scan q run [] []
  | quote {run cs written} (h : Body scan q (run + 1) cs written) :
      Body scan q run (q :: cs) (q :: written)
  | char {run c cs d ds written} (hrun : run ≤ 2) (hd : d ≠ q)
      (hscan : ∀ acc rest, scan acc (d :: ds ++ rest) = scan (c :: acc) rest)
      (h : Body scan q 0 cs written) : Body scan q run (c :: cs) (d :: ds ++ written)

theorem closeTriple?_replicate {q : Char} {k : Nat} (hk : k ≤ 2) (acc : List Char)
    {rest : List Char} (hrest : rest.head? ≠ some q) :
    closeTriple? q acc (List.replicate k q ++ rest) =
      some (acc.reverse ++ List.replicate k q, rest) := by
  have htake : (List.replicate k q ++ rest).takeWhile (· = q) = List.replicate k q := by
    refine (Text.takeWhile_append_of_head? (by simp) fun c hc => decide_eq_false ?_).1
    rintro rfl
    exact hrest hc
  simp [closeTriple?, htake, hk]

theorem replicate_append_triple (k : Nat) (q : Char) (rest : List Char) :
    List.replicate k q ++ q :: q :: q :: rest = q :: q :: q :: (List.replicate k q ++ rest) := by
  induction k with
  | zero => rfl
  | succ k ih => rw [List.replicate_succ, List.cons_append, ih, List.cons_append]

section Triple

variable {scan : List Char → List Char → Option (List Char × List Char)} {q : Char}

/-- Up to two quotes in a row belong to the string. -/
theorem scan_replicate
    (hquote : ∀ acc cs, (∀ rest, cs ≠ q :: q :: rest) → scan acc (q :: cs) = scan (q :: acc) cs)
    {k : Nat} (hk : k ≤ 2) (acc : List Char) {rest : List Char} (hrest : rest.head? ≠ some q) :
    scan acc (List.replicate k q ++ rest) = scan (List.replicate k q ++ acc) rest := by
  have hone (acc : List Char) : scan acc (q :: rest) = scan (q :: acc) rest :=
    hquote acc rest (by rintro _ rfl; simp at hrest)
  have htwo : scan acc (q :: q :: rest) = scan (q :: acc) (q :: rest) :=
    hquote acc (q :: rest) (by rintro _ ⟨⟩; simp at hrest)
  match k, hk with
  | 0, _ => rfl
  | 1, _ => exact hone acc
  | 2, _ => exact htwo.trans (hone _)

/-- A body is read up to the quotes that close it. -/
theorem Body.scan_eq {run : Nat} {cs written : List Char} (h : Body scan q run cs written)
    (hclose : ∀ acc cs, scan acc (q :: q :: q :: cs) = closeTriple? q acc cs)
    (hquote : ∀ acc cs, (∀ rest, cs ≠ q :: q :: rest) → scan acc (q :: cs) = scan (q :: acc) cs)
    (acc : List Char) {rest : List Char} (hrest : rest.head? ≠ some q) :
    scan acc (List.replicate run q ++ (written ++ q :: q :: q :: rest)) =
      some (acc.reverse ++ (List.replicate run q ++ cs), rest) := by
  induction h generalizing acc with
  | nil hrun =>
    rw [List.nil_append, replicate_append_triple, hclose, closeTriple?_replicate hrun acc hrest,
      List.append_nil]
  | @quote run cs written _ ih =>
    have hmore := ih acc
    rw [List.replicate_succ', List.append_assoc, List.append_assoc] at hmore
    exact hmore
  | @char run c cs d ds written hrun hd hscan _ ih =>
    have hnext := ih (c :: (List.replicate run q ++ acc))
    rw [List.replicate_zero, List.nil_append] at hnext
    rw [List.append_assoc, scan_replicate hquote hrun _ (by simpa using hd), hscan, hnext]
    simp

end Triple

theorem body_escapeChars {run : Nat} (hrun : run ≤ 2) (cs : List Char) :
    Body (fun acc cs => scanBasicLines? acc none cs) '"' run cs (escapeChars true run cs) := by
  induction cs generalizing run with
  | nil => exact .nil hrun
  | cons c cs ih =>
    by_cases hc : c = '"'
    · subst hc
      by_cases hmore : run < 2
      · have hwritten : escapeChars true run ('"' :: cs) = '"' :: escapeChars true (run + 1) cs := by
          simp [escapeChars, hmore]
        rw [hwritten]
        exact .quote (ih hmore)
      · have hwritten : escapeChars true run ('"' :: cs) =
            ['\\', '"'] ++ escapeChars true 0 cs := by simp [escapeChars, hmore]
        have hquote : Spells '"' ['\\', '"'] := .letter rfl
        rw [hwritten]
        exact .char hrun (by decide) hquote.scanBasicLines?_append (ih (Nat.zero_le 2))
    · have hwritten : escapeChars true run (c :: cs) =
          escapeChar true c ++ escapeChars true 0 cs := by simp [escapeChars, hc]
      rw [hwritten]
      by_cases hline : c = '\n'
      · subst hline
        exact .char hrun (by decide) (by simp [scanBasicLines?]) (ih (Nat.zero_le 2))
      · have hspells : Spells c (escapeChar true c) := spells_escapeChar hc fun _ => hline
        obtain ⟨d, ds, hds, hd, -⟩ := hspells.exists_head
        rw [hds] at hspells ⊢
        exact .char hrun hd hspells.scanBasicLines?_append (ih (Nat.zero_le 2))

theorem scanBasicLines?_escapeChars (cs : List Char) {rest : List Char}
    (hrest : rest.head? ≠ some '"') :
    scanBasicLines? [] none (escapeChars true 0 cs ++ '"' :: '"' :: '"' :: rest) =
      some (cs, rest) := by
  have hquote (acc cs : List Char) (hcs : ∀ rest, cs ≠ '"' :: '"' :: rest) :
      scanBasicLines? acc none ('"' :: cs) = scanBasicLines? ('"' :: acc) none cs :=
    scanBasicLines?_cons acc rfl (by decide) (by simpa using hcs)
  exact (body_escapeChars (Nat.zero_le 2) cs).scan_eq (fun acc cs => by rw [scanBasicLines?])
    hquote [] hrest

/-! ### Literal strings -/

theorem isPlain_of_isControl {c : Char} (hc : isControl c = false) (hline : c ≠ '\n') :
    isPlain c = true := by
  simp only [isControl, hline, ne_eq, not_false_eq_true, decide_true, Bool.and_true,
    Bool.and_eq_false_iff, Bool.or_eq_false_iff, decide_eq_false_iff_not, Char.not_lt,
    decide_not, Bool.not_eq_false', decide_eq_true_eq] at hc
  simpa [isPlain, or_comm] using hc

theorem scanLiteral?_append (acc : List Char) {cs : List Char}
    (hcs : ∀ c ∈ cs, isPlain c = true ∧ c ≠ quote) (rest : List Char) :
    scanLiteral? acc (cs ++ quote :: rest) = some (acc.reverse ++ cs, rest) := by
  induction cs generalizing acc with
  | nil => simp [scanLiteral?]
  | cons c cs ih =>
    obtain ⟨⟨hplain, hquote⟩, hcs⟩ := List.forall_mem_cons.1 hcs
    rw [List.cons_append, scanLiteral?, if_neg hquote, if_pos hplain, ih _ hcs]
    simp

theorem longestRun_le_iff {q : Char} {cs : List Char} {n : Nat} :
    longestRun q cs ≤ n ↔ ∀ run ∈ cs.splitOnP (· ≠ q), run.length ≤ n := by
  have hfoldl (ls : List Nat) (m : Nat) : ls.foldl max m ≤ n ↔ m ≤ n ∧ ∀ l ∈ ls, l ≤ n := by
    induction ls generalizing m with
    | nil => simp
    | cons l ls ih => rw [List.foldl_cons, ih, Nat.max_le, List.forall_mem_cons, and_assoc]
  simp [longestRun, hfoldl]

theorem longestRun_replicate_le_iff {q : Char} {k n : Nat} :
    longestRun q (List.replicate k q) ≤ n ↔ k ≤ n := by
  rw [longestRun_le_iff, List.splitOnP_eq_singleton (by simp)]
  simp

theorem longestRun_replicate_append_le_iff {q c : Char} (hc : c ≠ q) {cs : List Char} {k n : Nat} :
    longestRun q (List.replicate k q ++ c :: cs) ≤ n ↔ k ≤ n ∧ longestRun q cs ≤ n := by
  rw [longestRun_le_iff, List.splitOnP_append_cons_of_forall_mem (by simp) c (by simpa using hc),
    List.forall_mem_cons, ← longestRun_le_iff, List.length_replicate]

theorem not_mem_of_longestRun {q : Char} {cs : List Char} (h : longestRun q cs ≤ 0) : q ∉ cs := by
  induction cs with
  | nil => simp
  | cons c cs ih =>
    by_cases hc : c = q
    · subst hc
      obtain ⟨run, runs, hruns⟩ := List.exists_cons_of_ne_nil (List.splitOnP_ne_nil (· ≠ c) cs)
      rw [longestRun_le_iff, List.splitOnP_cons_eq_if_modifyHead, hruns] at h
      simp at h
    · have hrest := (longestRun_replicate_append_le_iff hc (k := 0)).1 h
      simp [Ne.symm hc, ih hrest.2]

theorem scanLiteralLines?_cons {c : Char} {cs : List Char} (acc : List Char)
    (hc : isControl c = false) (hquotes : ∀ rest, c :: cs ≠ quote :: quote :: quote :: rest) :
    scanLiteralLines? acc (c :: cs) = scanLiteralLines? (c :: acc) cs := by
  have hreturn : c ≠ '\r' := by
    rintro rfl
    cases hc
  by_cases hline : c = '\n'
  · rw [hline, scanLiteralLines?]
  · have hplain := isPlain_of_isControl hc hline
    rw [scanLiteralLines?.eq_def]
    split <;> simp_all [quote]

theorem body_literal {run : Nat} {cs : List Char} (hclean : ∀ c ∈ cs, isControl c = false)
    (hrun : longestRun quote (List.replicate run quote ++ cs) ≤ 2) :
    Body scanLiteralLines? quote run cs cs := by
  induction cs generalizing run with
  | nil =>
    rw [List.append_nil, longestRun_replicate_le_iff] at hrun
    exact .nil hrun
  | cons c cs ih =>
    obtain ⟨hc, hcs⟩ := List.forall_mem_cons.1 hclean
    by_cases hquote : c = quote
    · subst hquote
      refine .quote (ih hcs ?_)
      rwa [List.replicate_succ', List.append_assoc]
    · obtain ⟨hrun, hrest⟩ := (longestRun_replicate_append_le_iff hquote).1 hrun
      have hscan (acc rest : List Char) :
          scanLiteralLines? acc ([c] ++ rest) = scanLiteralLines? (c :: acc) rest :=
        scanLiteralLines?_cons acc hc (by simp [hquote])
      exact .char hrun hquote hscan (ih hcs hrest)

theorem scanLiteralLines?_append {cs : List Char} (hclean : ∀ c ∈ cs, isControl c = false)
    (hrun : longestRun quote cs ≤ 2) {rest : List Char} (hrest : rest.head? ≠ some quote) :
    scanLiteralLines? [] (cs ++ quote :: quote :: quote :: rest) = some (cs, rest) := by
  have hquote (acc cs : List Char) (hcs : ∀ rest, cs ≠ quote :: quote :: rest) :
      scanLiteralLines? acc (quote :: cs) = scanLiteralLines? (quote :: acc) cs :=
    scanLiteralLines?_cons acc rfl (by simpa using hcs)
  have hclose (acc cs : List Char) : scanLiteralLines? acc (quote :: quote :: quote :: cs) =
      closeTriple? quote acc cs := by
    rw [quote, scanLiteralLines?, quote]
  have hbody : Body scanLiteralLines? quote 0 cs cs := body_literal hclean hrun
  exact hbody.scan_eq hclose hquote [] hrest

/-! ### Written strings -/

/-- A line break is written behind the opening quotes just when there are line breaks in the body,
so the one that is dropped there is not one of the body. -/
theorem dropBreak_body {lines : Bool} {body : List Char}
    (h : lines = false → ∀ c ∈ body.head?, isPlain c = true) :
    dropBreak ((if lines then ['\n'] else []) ++ body) = body := by
  cases lines with
  | true => rfl
  | false =>
    have hhead := h rfl
    rw [if_neg Bool.false_ne_true, List.nil_append]
    unfold dropBreak
    split
    · cases hhead '\n' rfl
    · cases hhead '\r' rfl
    · rfl

theorem scanString?_quote {cs : List Char} (h : ∀ rest, cs ≠ '"' :: '"' :: rest) :
    scanString? ('"' :: cs) = scanBasic? [] cs := by
  rw [scanString?.eq_def]
  split <;> simp_all

theorem scanString?_literalQuote {cs : List Char} (h : ∀ rest, cs ≠ quote :: quote :: rest) :
    scanString? (quote :: cs) = scanLiteral? [] cs := by
  rw [scanString?.eq_def]
  split <;> simp_all [quote]

variable {cs rest : List Char}

theorem scanString?_basic (cs : List Char) (lines : Bool) (hrest : rest.head? ≠ some '"') :
    scanString? (enclose '"' false lines (escapeChars false 0 cs) ++ rest) = some (cs, rest) := by
  have htext : enclose '"' false lines (escapeChars false 0 cs) ++ rest =
      '"' :: (escapeChars false 0 cs ++ '"' :: rest) := by simp [enclose]
  rw [htext, scanString?_quote, scanBasic?_escapeChars, List.reverse_nil, List.nil_append]
  -- neither an empty string nor the body of another one makes it three quotes
  intro more hmore
  cases cs with
  | nil => simp_all [escapeChars]
  | cons c cs =>
    by_cases hc : c = '"'
    · simp [escapeChars, hc] at hmore
    · have hspells : Spells c (escapeChar false c) := spells_escapeChar hc nofun
      obtain ⟨d, ds, hds, hd, -⟩ := hspells.exists_head
      simp [escapeChars, hc, hds, hd] at hmore

theorem scanString?_literal (hplain : ∀ c ∈ cs, isPlain c = true ∧ c ≠ quote) (lines : Bool)
    (hrest : rest.head? ≠ some quote) :
    scanString? (enclose quoteChar false lines cs ++ rest) = some (cs, rest) := by
  have htext : enclose quoteChar false lines cs ++ rest = quote :: (cs ++ quote :: rest) := by
    simp [enclose, quote, quoteChar]
  rw [htext, scanString?_literalQuote, scanLiteral?_append [] hplain, List.reverse_nil,
    List.nil_append]
  intro more hmore
  cases cs with
  | nil => simp_all
  | cons c cs => exact (hplain c List.mem_cons_self).2 (List.cons.inj hmore).1

theorem scanString?_basicLines (hrest : rest.head? ≠ some '"') :
    scanString? (enclose '"' true (cs.contains '\n') (escapeChars true 0 cs) ++ rest) =
      some (cs, rest) := by
  have htext : enclose '"' true (cs.contains '\n') (escapeChars true 0 cs) ++ rest =
      '"' :: '"' :: '"' :: ((if cs.contains '\n' then ['\n'] else []) ++
        (escapeChars true 0 cs ++ '"' :: '"' :: '"' :: rest)) := by
    simp [enclose, List.replicate]
  rw [htext, scanString?, dropBreak_body, scanBasicLines?_escapeChars cs hrest]
  intro hlines d hd
  cases cs with
  | nil =>
    obtain rfl := Option.some.inj hd
    rfl
  | cons c cs =>
    by_cases hc : c = '"'
    · simp only [escapeChars, hc] at hd
      obtain rfl := Option.some.inj hd
      rfl
    · have hline : c ≠ '\n' := by
        rintro rfl
        simp at hlines
      have hspells : Spells c (escapeChar true c) := spells_escapeChar hc fun _ => hline
      obtain ⟨e, es, hes, -, hplain⟩ := hspells.exists_head
      simp only [escapeChars, hc, hes, ne_eq, not_false_eq_true, if_true, List.cons_append,
        List.head?_cons] at hd
      obtain rfl := Option.some.inj hd
      exact hplain

theorem scanString?_literalLines (hclean : ∀ c ∈ cs, isControl c = false)
    (hrun : longestRun quote cs ≤ 2) (hrest : rest.head? ≠ some quote) :
    scanString? (enclose quoteChar true (cs.contains '\n') cs ++ rest) = some (cs, rest) := by
  have htext : enclose quoteChar true (cs.contains '\n') cs ++ rest =
      quote :: quote :: quote :: ((if cs.contains '\n' then ['\n'] else []) ++
        (cs ++ quote :: quote :: quote :: rest)) := by
    simp [enclose, List.replicate, quote, quoteChar]
  rw [htext, quote, scanString?, ← quote, dropBreak_body,
    scanLiteralLines?_append hclean hrun hrest]
  intro hlines d hd
  cases cs with
  | nil =>
    obtain rfl := Option.some.inj hd
    rfl
  | cons c cs =>
    obtain rfl := Option.some.inj hd
    refine isPlain_of_isControl (hclean _ List.mem_cons_self) ?_
    rintro rfl
    simp at hlines

/-- Every text is read back as it was written, whatever stands behind its closing quotes but a
quote. -/
theorem scanString?_stringChars (cs : List Char) (hbasic : rest.head? ≠ some '"')
    (hliteral : rest.head? ≠ some quote) : scanString? (stringChars cs ++ rest) = some (cs, rest) := by
  have hclean (h : (!cs.any isControl) = true) : ∀ c ∈ cs, isControl c = false := by
    simpa using h
  unfold stringChars
  simp only
  split_ifs with hstraight hfree hquotes hruns
  · exact scanString?_basic cs _ hbasic
  · simp only [Bool.and_eq_true, decide_eq_true_eq] at hfree
    obtain ⟨⟨hcontrol, hlines⟩, hrun⟩ := hfree
    refine scanString?_literal (fun c hc => ⟨isPlain_of_isControl (hclean hcontrol c hc) ?_, ?_⟩) _
      hliteral
    · rintro rfl
      simp [hc] at hlines
    · rintro rfl
      exact not_mem_of_longestRun (Nat.le_of_eq hrun) hc
  · exact scanString?_basicLines hbasic
  · simp only [Bool.and_eq_true, decide_eq_true_eq] at hruns
    exact scanString?_literalLines (hclean hruns.1) hruns.2 hliteral
  · cases hlines : cs.contains '\n' with
    | true => exact hlines ▸ scanString?_basicLines hbasic
    | false => exact scanString?_basic cs _ hbasic

end SearchQuery.Toml
