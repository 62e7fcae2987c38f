import SearchQuery.Proofs.RecordParts
import SearchQuery.Proofs.Survival
import SearchQuery.Proofs.Trim
import Mathlib.Data.List.Induction

/-! # Exact counts

A slop or a size is the very number that is written for it, as a number or as a text, or none. No
number is rounded, and none that is too large comes out as another one. -/
namespace SearchQuery

open Json (IsDigits digitChars)

/-- The spellings of a count: its digits, with zeros and perhaps a plus in front, among blank
characters. -/
inductive Text.SpellsCount (n : Nat) : List Char → Prop
  | spelling {front plus back : List Char} (hfront : ∀ c ∈ front, isBlankChar c = true)
      (hplus : plus = [] ∨ plus = ['+']) (zeros : Nat)
      (hback : ∀ c ∈ back, isBlankChar c = true) :
      SpellsCount n (front ++ (plus ++ (List.replicate zeros '0' ++ digitChars n)) ++ back)

/-- The values that stand for a count. -/
inductive Json.Counts (n : Nat) : Json → Prop
  | number : Counts n (.num (.int n))
  | text {s} (h : Text.SpellsCount n s.toList) : Counts n (.str s)

namespace Text

/-! ### Digits -/

theorem toNat_of_isDigit {c : Char} (hc : c.isDigit = true) : 48 ≤ c.toNat ∧ c.toNat ≤ 57 := by
  simp only [Char.isDigit, Bool.and_eq_true, decide_eq_true_eq, ge_iff_le,
    UInt32.le_iff_toNat_le] at hc
  exact hc

theorem digitValue_lt {c : Char} (hc : c.isDigit = true) : digitValue c < 10 := by
  have hbounds := toNat_of_isDigit hc
  unfold digitValue
  omega

theorem digitChars_digitValue {c : Char} (hc : c.isDigit = true) :
    digitChars (digitValue c) = [c] := by
  have hlt := digitValue_lt hc
  have hbounds := toNat_of_isDigit hc
  have hchar : (digitValue c).digitChar = c := by
    rw [← Char.toNat_inj, Nat.toNat_digitChar_of_lt_ten hlt, digitValue]
    omega
  rw [digitChars, Nat.toDigits_of_lt_base hlt, hchar]

theorem digitChars_append {n : Nat} (hn : 0 < n) {c : Char} (hc : c.isDigit = true) :
    digitChars n ++ [c] = digitChars (n * 10 + digitValue c) := by
  rw [← digitChars_digitValue hc, Nat.mul_comm]
  exact Nat.toDigits_append_toDigits (by decide) hn (digitValue_lt hc)

/-- Digits are those of the number that they denote, behind zeros. -/
theorem exists_zeros {ds : List Char} (hne : ds ≠ []) (hds : IsDigits ds) :
    ∃ zeros, ds = List.replicate zeros '0' ++ digitChars (ofDigits ds) := by
  induction ds using List.reverseRecOn with
  | nil => exact absurd rfl hne
  | append_singleton ds c ih =>
    have hc : c.isDigit = true := hds c (by simp)
    have hvalue : ofDigits (ds ++ [c]) = ofDigits ds * 10 + digitValue c := by simp [ofDigits]
    rw [hvalue]
    by_cases hnil : ds = []
    · subst hnil
      exact ⟨0, by simp [ofDigits, digitChars_digitValue hc]⟩
    · obtain ⟨zeros, hzeros⟩ := ih hnil fun d hd => hds d (by simp [hd])
      rcases Nat.eq_zero_or_pos (ofDigits ds) with hzero | hpos
      · refine ⟨zeros + 1, ?_⟩
        rw [hzero] at hzeros ⊢
        rw [hzeros, Nat.zero_mul, Nat.zero_add, digitChars_digitValue hc, List.replicate_succ']
        rfl
      · refine ⟨zeros, ?_⟩
        rw [← digitChars_append hpos hc, ← List.append_assoc, ← hzeros]

theorem ofDigits_zeros (zeros n : Nat) :
    ofDigits (List.replicate zeros '0' ++ digitChars n) = n := by
  rw [Json.ofDigits_eq_ofDigitChars, Nat.ofDigitChars_append, Nat.ofDigitChars_replicate_zero,
    Nat.mul_zero]
  exact Nat.ofDigitChars_ten_toDigits

/-! ### Texts -/

theorem exists_plus (cs : List Char) :
    ∃ plus, (plus = [] ∨ plus = ['+']) ∧ cs = plus ++ dropPlus cs := by
  unfold dropPlus
  split
  · exact ⟨['+'], .inr rfl, rfl⟩
  · exact ⟨[], .inl rfl, rfl⟩

theorem dropPlus_append {plus ds : List Char} (hplus : plus = [] ∨ plus = ['+'])
    (hds : IsDigits ds) : dropPlus (plus ++ ds) = ds := by
  rcases hplus with rfl | rfl
  · rw [List.nil_append]
    unfold dropPlus
    split
    · cases hds '+' List.mem_cons_self
    · rfl
  · rfl

theorem isDigits_zeros (zeros n : Nat) : IsDigits (List.replicate zeros '0' ++ digitChars n) :=
  (Json.isDigits_zeros zeros).append (Json.isDigits_digitChars n)

theorem count?_eq_some_iff {s : String} {n : Nat} : count? s = some n ↔
    ∃ plus zeros, (plus = [] ∨ plus = ['+']) ∧
      s.toList = plus ++ (List.replicate zeros '0' ++ digitChars n) := by
  have hcount : count? s = some n ↔ dropPlus s.toList ≠ [] ∧ IsDigits (dropPlus s.toList) ∧
      ofDigits (dropPlus s.toList) = n := by
    have hguard : ((dropPlus s.toList).isEmpty || !(dropPlus s.toList).all Char.isDigit) = false ↔
        dropPlus s.toList ≠ [] ∧ IsDigits (dropPlus s.toList) := by
      simp [IsDigits]
    rw [← and_assoc, ← hguard, count?]
    cases ((dropPlus s.toList).isEmpty || !(dropPlus s.toList).all Char.isDigit) <;> simp
  rw [hcount]
  constructor
  · rintro ⟨hne, hdigits, rfl⟩
    obtain ⟨plus, hplus, hcs⟩ := exists_plus s.toList
    obtain ⟨zeros, hzeros⟩ := exists_zeros hne hdigits
    exact ⟨plus, zeros, hplus, hzeros ▸ hcs⟩
  · rintro ⟨plus, zeros, hplus, hcs⟩
    rw [hcs, dropPlus_append hplus (isDigits_zeros zeros n)]
    exact ⟨by simp [Json.digitChars_ne_nil], isDigits_zeros zeros n, ofDigits_zeros zeros n⟩

theorem isBlankChar_of_isDigit {c : Char} (hc : c.isDigit = true) : isBlankChar c = false := by
  have hbounds := toNat_of_isDigit hc
  simp only [isBlankChar, Bool.or_eq_false_iff, Bool.and_eq_false_imp, decide_eq_true_eq,
    decide_eq_false_iff_not, beq_eq_false_iff_ne]
  omega

/-- A text is read as the count that it spells. -/
theorem count?_trim_eq_some_iff {s : String} {n : Nat} :
    count? (trim s) = some n ↔ SpellsCount n s.toList := by
  rw [count?_eq_some_iff, trim, String.toList_ofList]
  constructor
  · rintro ⟨plus, zeros, hplus, hcore⟩
    obtain ⟨front, back, hcs, hfront, hback⟩ := exists_blanks s.toList
    rw [hcs, hcore]
    exact .spelling hfront hplus zeros hback
  · intro h
    generalize s.toList = cs at h
    cases h with
    | @spelling front plus back hfront hplus zeros hback =>
      refine ⟨plus, zeros, hplus, trimChars_append hfront ?_ ?_ hback⟩
      · simp [Json.digitChars_ne_nil]
      · intro c hc
        rcases List.mem_append.1 hc with hc | hc
        · rcases hplus with rfl | rfl
          · cases hc
          · obtain rfl := List.mem_singleton.1 hc
            rfl
        · exact isBlankChar_of_isDigit (isDigits_zeros zeros n c hc)

end Text

/-! ### Values -/

namespace Json

theorem Number.count?_eq_some_iff {m : Number} {n : Nat} :
    m.count?.map UInt64.toNat = some n ↔ m = .int n ∧ n < UInt64.size := by
  match m with
  | .float x | .int (.negSucc k) => simp [Number.count?]
  | .int (.ofNat k) =>
    rw [Number.count?]
    split
    · rename_i hk
      have hvalue : (UInt64.ofNat k).toNat = k := UInt64.toNat_ofNat_of_lt hk
      simp [hvalue]
      omega
    · simp
      omega

/-- A value is read as the count that it stands for, unless this is above the limit. -/
theorem count?_eq_some_iff {v : Json} {limit n : Nat} (hlimit : limit < UInt64.size) :
    v.count? (limit + 1) = some n ↔ v.Counts n ∧ n ≤ limit := by
  have hfilter (a? : Option Nat) :
      a?.filter (· < limit + 1) = some n ↔ a? = some n ∧ n ≤ limit := by
    rw [Option.filter_eq_some_iff, decide_eq_true_iff, Nat.lt_succ_iff]
  cases v with
  | num m =>
    refine (hfilter _).trans (and_congr_left fun hn => Number.count?_eq_some_iff.trans ?_)
    constructor
    · rintro ⟨rfl, -⟩
      exact .number
    · rintro ⟨⟩
      exact ⟨rfl, by omega⟩
  | str s =>
    refine (hfilter _).trans (and_congr_left fun _ => Text.count?_trim_eq_some_iff.trans ?_)
    constructor
    · exact .text
    · rintro (_ | h)
      exact h
  | null | bool b | arr xs | obj ms =>
    exact (hfilter none).trans (and_congr_left fun _ => ⟨nofun, nofun⟩)

theorem Counts.unique {v : Json} {n k : Nat} (hn : v.Counts n) (hk : v.Counts k) : n = k := by
  cases hn with
  | number =>
    cases hk
    rfl
  | text hn =>
    cases hk with
    | text hk =>
      rw [← Text.count?_trim_eq_some_iff] at hn hk
      exact Option.some.inj (hn.symm.trans hk)

theorem lt_of_count? {v : Json} {bound n : Nat} (h : v.count? bound = some n) : n < bound := by
  simpa using (Option.filter_eq_some_iff.1 h).2

/-- A slop is the count that its value stands for, up to the largest of 32 bits. -/
theorem slop?_eq_some_iff (v : Json) (n : Nat) :
    v.slop?.map UInt32.toNat = some n ↔ v.Counts n ∧ n ≤ 4294967295 := by
  have hcount : v.slop?.map UInt32.toNat = v.count? UInt32.size := by
    rw [slop?, Option.map_map]
    cases hcount : v.count? UInt32.size with
    | none => rfl
    | some n => exact congrArg some (UInt32.toNat_ofNat_of_lt (lt_of_count? hcount))
  rw [hcount]
  exact count?_eq_some_iff (by decide)

/-- A size is the count that its value stands for, up to the largest of 64 bits. -/
theorem size?_eq_some_iff (v : Json) (n : Nat) :
    v.size?.map UInt64.toNat = some n ↔ v.Counts n ∧ n ≤ 18446744073709551615 := by
  have hcount : v.size?.map UInt64.toNat = v.count? UInt64.size := by
    rw [size?, Option.map_map]
    cases hcount : v.count? UInt64.size with
    | none => rfl
    | some n => exact congrArg some (UInt64.toNat_ofNat_of_lt (lt_of_count? hcount))
  rw [hcount]
  exact count?_eq_some_iff (by decide)

/-- All values that stand for one count are read alike. -/
theorem Counts.read_alike {v w : Json} {n : Nat} (hv : v.Counts n) (hw : w.Counts n) :
    v.slop? = w.slop? ∧ v.size? = w.size? := by
  have hsame (k : Nat) : v.Counts k ↔ w.Counts k :=
    ⟨fun hk => hv.unique hk ▸ hw, fun hk => hw.unique hk ▸ hv⟩
  have hslop : v.slop?.map UInt32.toNat = w.slop?.map UInt32.toNat :=
    Option.ext fun k => by simp only [slop?_eq_some_iff, hsame]
  have hsize : v.size?.map UInt64.toNat = w.size?.map UInt64.toNat :=
    Option.ext fun k => by simp only [size?_eq_some_iff, hsame]
  exact ⟨Option.map_injective (fun _ _ => UInt32.toNat.inj) hslop,
    Option.map_injective (fun _ _ => UInt64.toNat.inj) hsize⟩

example : slop? (.str "\t +007 ") = some 7 := by decide

example : slop? (.str "4294967296") = none := by decide

/-! ### Numbers as written -/

namespace Numeral

/-- A numeral without sign, fraction and exponent, whose digits denote a number. -/
structure IsCount (m : Numeral) (n : Nat) : Prop where
  sign : m.negative = false
  whole : Token.ofDigits m.whole = n
  fraction : m.fraction = []
  exponent : m.exponent = none

theorem absorb_excess {ds : List Nat} {s : Nat} (hs : s < UInt64.size)
    (h : UInt64.size ≤ ds.foldl (fun n d => n * 10 + d) s) : (absorb s ds).2 ≠ [] := by
  induction ds generalizing s with
  | nil => exact absurd h (Nat.not_le.2 hs)
  | cons d ds ih =>
    rw [absorb]
    split
    · exact ih ‹_› h
    · exact List.cons_ne_nil d ds

theorem integer_eq_int_iff {negative : Bool} {k n : Nat} :
    integer negative k = .int n ↔ negative = false ∧ k = n := by
  cases negative with
  | false =>
    constructor
    · intro h
      exact ⟨rfl, Int.ofNat.inj (Number.int.inj h)⟩
    · rintro ⟨-, rfl⟩
      rfl
  | true =>
    simp only [integer, if_true, reduceCtorEq, false_and, iff_false]
    intro h
    split at h
    · cases h
    · have hneg := Number.int.inj h
      omega

/-- A numeral is read as a natural number just when it is the digits of this number, which must fit
64 bits. -/
theorem value?_eq_some_iff (m : Numeral) (n : Nat) :
    m.value? = some (.int n) ↔ m.IsCount n ∧ n ≤ 18446744073709551615 := by
  have hsize : UInt64.size = 18446744073709551615 + 1 := rfl
  constructor
  · intro h
    rcases habsorb : absorb 0 m.whole with ⟨whole, excess⟩
    simp only [value?, habsorb] at h
    split at h
    · rename_i hplain
      simp only [Bool.and_eq_true, List.isEmpty_iff, Option.isNone_iff_eq_none] at hplain
      obtain ⟨⟨rfl, hfraction⟩, hexponent⟩ := hplain
      have hfits : Token.ofDigits m.whole < UInt64.size := by
        by_contra hlarge
        exact absorb_excess (by decide) (Nat.le_of_not_lt hlarge) (by rw [habsorb])
      rw [absorb_eq m.whole 0 hfits] at habsorb
      obtain ⟨hsign, hwhole⟩ := integer_eq_int_iff.1 (Option.some.inj h)
      have hdigits : Token.ofDigits m.whole = n := (Prod.mk.inj habsorb).1.trans hwhole
      exact ⟨⟨hsign, hdigits, hfraction, hexponent⟩, by omega⟩
    · obtain ⟨x, -, hx⟩ := Option.map_eq_some_iff.1 h
      cases hx
  · rintro ⟨⟨hsign, rfl, hfraction, hexponent⟩, hn⟩
    have hfits : Token.ofDigits m.whole < UInt64.size := by omega
    have habsorb := absorb_eq m.whole 0 hfits
    simp only [value?, habsorb, hfraction, hexponent, hsign]
    rfl

end Numeral
end Json

/-! ### Members -/

open Document (Dialect HasValue Reader Record)

/-- The number that a member gives, or zero for a member that is missing or gives none up to the
limit. -/
def Json.Gives (limit : Nat) (v? : Option Json) (n : Nat) : Prop :=
  (∃ v ∈ v?, v.Counts n ∧ n ≤ limit) ∨ n = 0 ∧ ∀ v ∈ v?, ∀ k, v.Counts k → limit < k

/-- A member of a record that a document gives has the value, if it is there at all. -/
def Document.HasMember (names : List String) (d : Dialect) (doc : Document) (name : String)
    (v? : Option Json) : Prop :=
  ∃ r, Document.record? names d doc = some r ∧
    Option.Rel (HasValue r.dialect.depth) (r.members.lookup name) v?

/-- A member of a record is a list with these items, to be read in a dialect; there are none in a
member that is null or missing. -/
def Document.HasItems (names : List String) (d : Dialect) (doc : Document) (name : String)
    (inner : Dialect) (items : List Document) : Prop :=
  ∃ r, Document.record? names d doc = some r ∧
    (r.dialect.enter? = some inner ∧ r.members.lookup name = some (.arr items) ∨
      items = [] ∧ ∀ member ∈ r.members.lookup name, member = .null)

theorem Json.gives_getD {α : Type} {limit : Nat} {read : Json → Option α} {toNat : α → Nat}
    (hread : ∀ v n, (read v).map toNat = some n ↔ v.Counts n ∧ n ≤ limit) {zero : α}
    (hzero : toNat zero = 0) (v? : Option Json) :
    Gives limit v? (toNat ((v?.bind read).getD zero)) := by
  cases v? with
  | none => exact .inr ⟨hzero, nofun⟩
  | some v =>
    rw [Option.bind_some]
    cases hv : read v with
    | some a => exact .inl ⟨v, rfl, (hread v _).1 (by rw [hv, Option.map_some, Option.getD_some])⟩
    | none =>
      refine .inr ⟨hzero, ?_⟩
      rintro _ ⟨⟩ k hk
      by_contra hle
      have hsome := (hread v k).2 ⟨hk, Nat.le_of_not_lt hle⟩
      rw [hv] at hsome
      cases hsome

theorem Document.Record.exists_of_getD_json {α : Type} {r : Record} {name : String}
    {f : Json → Option α} {a? : Option α}
    (h : r.getD name none (Reader.json.map f) = some a?) :
    ∃ v?, Option.Rel (HasValue r.dialect.depth) (r.members.lookup name) v? ∧ a? = v?.bind f := by
  rw [getD] at h
  generalize r.members.lookup name = doc? at h
  cases doc? with
  | none => exact ⟨none, .none, (Option.some.inj h).symm⟩
  | some doc =>
    obtain ⟨v, hv, rfl⟩ := Option.map_eq_some_iff.1 h
    exact ⟨some v, .some hv, rfl⟩

theorem Condition.slop_of_read {d : Dialect} {doc : Document} {c : Condition}
    (h : read d doc = some c) :
    ∃ v?, doc.HasMember members d "slop" v? ∧ c.slop = v?.bind Json.slop? := by
  simp only [read, Option.bind_eq_bind, Option.bind_eq_some_iff] at h
  obtain ⟨r, hr, _, -, _, -, _, -, _, -, _, -, _, -, slop, hslop, hc⟩ := h
  obtain ⟨v?, hv, rfl⟩ := r.exists_of_getD_json hslop
  cases hc
  exact ⟨v?, ⟨r, hr, hv⟩, rfl⟩

theorem FilterForm.size_of_read {d : Dialect} {doc : Document} {f : FilterForm}
    (h : read d doc = some f) :
    ∃ v?, doc.HasMember members d "size" v? ∧ f.size = v?.bind Json.size? := by
  simp only [read, Option.bind_eq_bind, Option.bind_eq_some_iff] at h
  obtain ⟨r, hr, _, -, _, -, size, hsize, hf⟩ := h
  obtain ⟨v?, hv, rfl⟩ := r.exists_of_getD_json hsize
  cases hf
  exact ⟨v?, ⟨r, hr, hv⟩, rfl⟩

/-- The conditions of a form are read from the items of its list, one from each of them. -/
theorem FilterForm.conditions_of_read {d : Dialect} {doc : Document} {f : FilterForm}
    (h : read d doc = some f) : ∃ inner items, doc.HasItems members d "conditions" inner items ∧
      List.Forall₂ (fun item c => Condition.read inner item = some c) items f.conditions := by
  simp only [read, Option.bind_eq_bind, Option.bind_eq_some_iff] at h
  obtain ⟨r, hr, cs, hcs, _, -, _, -, hf⟩ := h
  cases hf
  unfold Document.HasItems
  rw [Record.getD] at hcs
  generalize hmember : r.members.lookup "conditions" = member? at hcs ⊢
  cases member? with
  | none =>
    cases hcs
    exact ⟨d, [], ⟨r, hr, .inr ⟨rfl, by simp [hmember]⟩⟩, .nil⟩
  | some member =>
    cases member with
    | null =>
      cases hcs
      exact ⟨d, [], ⟨r, hr, .inr ⟨rfl, by simp [hmember]⟩⟩, .nil⟩
    | arr items =>
      obtain ⟨cs?, hcs?, rfl⟩ := Option.map_eq_some_iff.1 hcs
      obtain ⟨cs, hlist, rfl⟩ := Option.map_eq_some_iff.1 hcs?
      obtain ⟨inner, hinner, hread⟩ := Option.bind_eq_some_iff.1 hlist
      exact ⟨inner, items, ⟨r, hr, .inl ⟨hinner, hmember⟩⟩, forall₂_of_mapM hread⟩
    | bool b | num n | str s | obj ms => cases hcs

/-! ### Requests -/

/-- The operators that take a slop. -/
def Operator.takesSlop (o : Operator) : Prop := o = .phrase ∨ o = .notPhrase

namespace Condition

variable {c : Condition} {catalog : Option Catalog} {l : Leaf}

theorem leaf?_phrase (h : c.leaf? catalog = some l) (hop : c.operator.takesSlop) :
    ∃ field text, l.query = .phrase field text (c.slop.getD 0) := by
  obtain ⟨-, query, target, hq, rfl⟩ := leaf?_eq_some h
  unfold leafQuery at hq
  rcases hop with hop | hop <;> rw [hop] at hq <;> cases hq <;> exact ⟨_, _, rfl⟩

theorem slop_of_exactQuery {field name : String} {info : Option Field} {value text : Json}
    {slop : UInt32} (h : exactQuery field info value = .phrase name text slop) : slop = 0 := by
  unfold exactQuery at h
  split at h <;> cases h
  rfl

/-- Only these operators make phrases with another slop than 0. -/
theorem leaf?_slop (h : c.leaf? catalog = some l) (hop : ¬ c.operator.takesSlop) {field : String}
    {text : Json} {slop : UInt32} (hphrase : l.query = .phrase field text slop) : slop = 0 := by
  obtain ⟨-, query, target, hq, rfl⟩ := leaf?_eq_some h
  dsimp only at hphrase
  subst hphrase
  unfold leafQuery at hq
  cases hoperator : c.operator <;> simp only [hoperator] at hq
  case phrase => exact absurd (.inl hoperator) hop
  case notPhrase => exact absurd (.inr hoperator) hop
  case equals | exact | notExact =>
    exact slop_of_exactQuery (Prod.mk.inj (Option.some.inj hq)).1
  case «in» => split at hq <;> cases hq
  all_goals cases hq

/-- The leaf of a condition has the slop that the condition is given, where its operator takes
one, and no other. -/
structure KeepsSlop (c : Condition) (v? : Option Json) (q : Query) : Prop where
  given : c.operator.takesSlop →
    ∃ field text slop, q = .phrase field text slop ∧ Json.Gives 4294967295 v? slop.toNat
  other : ¬ c.operator.takesSlop → ∀ field text slop, q = .phrase field text slop → slop = 0

theorem keepsSlop {v? : Option Json} (hslop : c.slop = v?.bind Json.slop?)
    (h : c.leaf? catalog = some l) : c.KeepsSlop v? l.query where
  given hop := by
    obtain ⟨field, text, hquery⟩ := leaf?_phrase h hop
    have hgives : Json.Gives 4294967295 v? ((v?.bind Json.slop?).getD 0).toNat :=
      Json.gives_getD Json.slop?_eq_some_iff rfl v?
    exact ⟨field, text, _, hquery, hslop ▸ hgives⟩
  other hop _ _ _ := leaf?_slop h hop

end Condition

namespace FilterForm

/-- The phrases of a request are those of conditions. -/
theorem phrase_mem_compile_iff {f : FilterForm} {catalog : Option Catalog} {field : String}
    {text : Json} {slop : UInt32} :
    .phrase field text slop ∈ (f.compile catalog).query.occurrences.map Occurrence.query ↔
      ∃ c ∈ f.conditions, ∃ l, c.leaf? catalog = some l ∧ l.query = .phrase field text slop := by
  have hrange : Query.phrase field text slop ∉ f.range?.toList := fun hmem => by
    obtain ⟨t, -, hquery⟩ := Option.bind_eq_some_iff.1 (Option.mem_toList.1 hmem)
    obtain ⟨name, -, hquery⟩ := Option.map_eq_some_iff.1 hquery
    cases hquery
  rw [(f.queries_compile_perm catalog).mem_iff, List.mem_append, or_iff_left hrange, List.mem_map]
  constructor
  · rintro ⟨l, hl, hquery⟩
    obtain ⟨c, hc, hleaf⟩ := mem_leaves.1 hl
    exact ⟨c, hc, l, hleaf, hquery⟩
  · rintro ⟨c, hc, l, hleaf, hquery⟩
    exact ⟨l, mem_leaves.2 ⟨c, hc, hleaf⟩, hquery⟩

/-- The slops and the size of a document, in the requests of the form that is read from it. -/
structure KeepsCounts (d : Dialect) (doc : Document) (f : FilterForm) : Prop where
  size : ∃ v?, doc.HasMember members d "size" v? ∧
    ∀ catalog, Json.Gives 18446744073709551615 v? (f.compile catalog).size.toNat
  slops : ∃ inner items, doc.HasItems members d "conditions" inner items ∧
    List.Forall₂ (fun item c => ∃ v?, item.HasMember Condition.members inner "slop" v? ∧
      ∀ catalog l, c.leaf? catalog = some l → c.KeepsSlop v? l.query) items f.conditions
  phrases : ∀ catalog field text slop,
    .phrase field text slop ∈ (f.compile catalog).query.occurrences.map Occurrence.query ↔
      ∃ c ∈ f.conditions, ∃ l, c.leaf? catalog = some l ∧ l.query = .phrase field text slop

theorem keepsCounts_of_read {d : Dialect} {doc : Document} {f : FilterForm}
    (h : read d doc = some f) : f.KeepsCounts d doc where
  size := by
    obtain ⟨v?, hmember, hsize⟩ := size_of_read h
    refine ⟨v?, hmember, fun catalog => ?_⟩
    have hgives : Json.Gives 18446744073709551615 v? ((v?.bind Json.size?).getD 0).toNat :=
      Json.gives_getD Json.size?_eq_some_iff rfl v?
    rwa [← hsize] at hgives
  slops := by
    obtain ⟨inner, items, hitems, hread⟩ := conditions_of_read h
    refine ⟨inner, items, hitems, hread.imp fun item c hc => ?_⟩
    obtain ⟨v?, hmember, hslop⟩ := Condition.slop_of_read hc
    exact ⟨v?, hmember, fun catalog l => Condition.keepsSlop hslop⟩
  phrases _ _ _ _ := phrase_mem_compile_iff

/-- A slop or a size is read just when it is a natural number or a text that spells one, as exactly
that number if it fits 32 or 64 bits. A number is natural when it is written without sign, fraction
and exponent. A request has the slops and the size that are read, and 0 for the others. -/
theorem counts_exact :
    (∀ v n, (Json.slop? v).map UInt32.toNat = some n ↔ v.Counts n ∧ n ≤ 4294967295) ∧
    (∀ v n, (Json.size? v).map UInt64.toNat = some n ↔ v.Counts n ∧ n ≤ 18446744073709551615) ∧
    (∀ (v w : Json) n, v.Counts n → w.Counts n → v.slop? = w.slop? ∧ v.size? = w.size?) ∧
    (∀ (m : Json.Numeral) (n : Nat),
      m.value? = some (.int n) ↔ m.IsCount n ∧ n ≤ 18446744073709551615) ∧
    ∀ d doc f, read d doc = some f → f.KeepsCounts d doc :=
  ⟨Json.slop?_eq_some_iff, Json.size?_eq_some_iff, fun _ _ _ => Json.Counts.read_alike,
    Json.Numeral.value?_eq_some_iff, fun _ _ _ => keepsCounts_of_read⟩

/-- A form with the largest size and a phrase whose slop is a text. -/
def countedForm : Document := .obj
  [(some "conditions", .arr [.obj
    [(some "field", .str (some "title")), (some "operator", .str (some "phrase")),
      (some "value", .str (some "red cup")), (some "slop", .str (some " +007 "))]]),
    (some "size", .num (some (.int 18446744073709551615)))]

theorem countedForm_counts : ∃ f, read Json.dialect countedForm = some f ∧
    f.KeepsCounts Json.dialect countedForm ∧
    (f.compile none).size.toNat = 18446744073709551615 ∧
    .phrase "title" (.str "red cup") 7 ∈
      (f.compile none).query.occurrences.map Occurrence.query := by
  obtain ⟨-, -, -, -, hforms⟩ := counts_exact
  exact ⟨_, rfl, hforms _ _ _ rfl, rfl, List.mem_cons_self⟩

end FilterForm

end SearchQuery
