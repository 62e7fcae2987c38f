import SearchQuery.Json.Printer
import SearchQuery.Json.Token
import SearchQuery.Text.Count

/-! # Numbers as tokens

The written form of every number, one with a fraction or an exponent included, is a single token
for the scanner, whatever text comes behind it that does not go on the number. An integer of 64
bits reads back as itself; whether another number does depends on the arithmetic of binary64. -/
namespace SearchQuery

namespace Decimal

/-- The number that a significand stands for is above all that rounds to zero. -/
theorem low_ofBits_pos {bits : Nat} (h : bits ≠ 0) : 0 < (Interval.ofBits bits).low := by
  have hscale (p : Prop) [Decidable p] (n : Nat) : 0 < Nat.pow (if p then 5 else 2) n :=
    Nat.pow_pos (by split <;> decide)
  have hnormal : 0 < leastNormal := by decide
  have hfraction : bits / leastNormal = 0 → bits % leastNormal = bits := by
    intro hfield
    have hdiv := Nat.div_add_mod bits leastNormal
    rwa [hfield, Nat.mul_zero, Nat.zero_add] at hdiv
  have hmantissa : 1 ≤ if bits / leastNormal = 0 then bits % leastNormal
      else bits % leastNormal + leastNormal := by
    split
    · rw [hfraction ‹_›]
      omega
    · omega
  simp only [Interval.ofBits]
  generalize (if bits / leastNormal = 0 then bits % leastNormal
    else bits % leastNormal + leastNormal) = mantissa at hmantissa ⊢
  have hbelow : (if bits % leastNormal = 0 ∧ 1 < bits / leastNormal then 1 else 2) ≤ 2 := by
    split <;> decide
  exact Nat.mul_pos (by omega) (hscale _ _)

theorem low_le_middle_ofBits (bits : Nat) :
    (Interval.ofBits bits).low ≤ (Interval.ofBits bits).middle := by
  simp only [Interval.ofBits]
  exact Nat.mul_le_mul_right _ (Nat.sub_le _ _)

theorem Interval.low_le_of_contains {i : Interval} {n : Nat} (h : i.contains n = true) :
    i.low ≤ n := by
  unfold Interval.contains at h
  split at h <;> simp only [Bool.and_eq_true, decide_eq_true_eq] at h <;> omega

/-- A multiple of the unit in an interval of positive numbers is not zero. -/
theorem Interval.nearest?_ne_zero {i : Interval} {unit c : Nat} (hlow : 0 < i.low)
    (h : i.nearest? unit = some c) : c ≠ 0 := by
  have hcontained : ∀ d, i.contains (d * unit) = true → d ≠ 0 := by
    rintro d hd rfl
    have := Interval.low_le_of_contains hd
    omega
  unfold Interval.nearest? at h
  simp only at h
  split at h
  · cases h
  · rename_i hin _
    cases h
    exact hcontained _ hin
  · cases h
    exact Nat.succ_ne_zero _
  · rename_i hin _
    split at h
    · cases h
      exact hcontained _ hin
    · cases h
      exact Nat.succ_ne_zero _
    · cases h
      split
      · exact hcontained _ hin
      · exact Nat.succ_ne_zero _

theorem Interval.coarsest_digits_ne_zero {i : Interval} (hlow : 0 < i.low)
    (hmiddle : i.low ≤ i.middle) (place : Nat) : (i.coarsest place).digits ≠ 0 := by
  induction place with
  | zero =>
    simp only [Interval.coarsest]
    omega
  | succ place ih =>
    rw [Interval.coarsest]
    split
    · rename_i c hc
      exact Interval.nearest?_ne_zero hlow hc
    · exact ih

theorem normal_digits_ne_zero {d : Decimal} (h : d.digits ≠ 0) : d.normal.digits ≠ 0 := by
  fun_induction normal d with
  | case1 d h0 => exact absurd h0 h
  | case2 d h0 hzero ih => exact ih (by simp only; omega)
  | case3 d h0 hzero => exact h

/-- The shortest decimal of a number that is not zero has a first digit that is not zero. -/
theorem shortest_digits_ne_zero {bits : Nat} (h : bits ≠ 0) : (shortest bits).digits ≠ 0 :=
  normal_digits_ne_zero
    (Interval.coarsest_digits_ne_zero (low_ofBits_pos h) (low_le_middle_ofBits _) _)

end Decimal

namespace Json

open Token

/-! ### Digits -/

def IsDigits (cs : List Char) : Prop := ∀ c ∈ cs, c.isDigit = true

theorem isDigits_digitChars (n : Nat) : IsDigits (digitChars n) := fun _ hc =>
  Nat.isDigit_of_mem_toDigits (by decide) (by decide) hc

theorem digitChars_ne_nil (n : Nat) : digitChars n ≠ [] := Nat.toDigits_ne_nil

theorem head?_digitChars {n : Nat} (h : n ≠ 0) : (digitChars n).head? ≠ some '0' := by
  unfold digitChars
  induction n using Nat.base_induction 10 (by decide) with
  | single n hn => simpa [Nat.toDigits_of_lt_base hn] using h
  | digit n d hd hn ih =>
    obtain ⟨c, cs, hcs⟩ := List.exists_cons_of_ne_nil (Nat.toDigits_ne_nil (n := n) (b := 10))
    have hlead := ih (Nat.ne_of_gt hn)
    rw [← Nat.toDigits_append_toDigits (by decide) hn hd]
    simpa [hcs] using hlead

theorem foldl_digitValue (cs : List Char) (n : Nat) :
    (cs.map Text.digitValue).foldl (fun n d => n * 10 + d) n = Nat.ofDigitChars 10 cs n := by
  rw [List.foldl_map, Nat.ofDigitChars_eq_foldl]
  congr 1
  funext n c
  rw [Nat.mul_comm]
  rfl

theorem ofDigits_eq_ofDigitChars (cs : List Char) :
    Text.ofDigits cs = Nat.ofDigitChars 10 cs 0 := by
  rw [← foldl_digitValue, List.foldl_map]
  rfl

theorem ofDigits_digitChars (n : Nat) : Text.ofDigits (digitChars n) = n := by
  rw [ofDigits_eq_ofDigitChars]
  exact Nat.ofDigitChars_ten_toDigits

theorem scanDigits_append {ds rest : List Char} (hds : IsDigits ds)
    (hrest : ∀ c ∈ rest.head?, c.isDigit = false) :
    scanDigits (ds ++ rest) = (ds.map Text.digitValue, rest) := by
  induction ds with
  | nil =>
    cases rest with
    | nil => rfl
    | cons c rest => simp [scanDigits, digit?, hrest c rfl]
  | cons c ds ih =>
    obtain ⟨hc, hds⟩ := List.forall_mem_cons.1 hds
    rw [List.cons_append, scanDigits, ih hds]
    simp [digit?, hc, Text.digitValue]

/-! ### The parts of a number -/

/-- A character inside a number, behind its first digit. -/
def continuesNumber (c : Char) : Bool := c.isDigit || c = '.' || c = 'e' || c = 'E'

/-- A text that does not go on a number in front of it. -/
def EndsNumber (rest : List Char) : Prop := ∀ c ∈ rest.head?, continuesNumber c = false

theorem endsNumber_nil : EndsNumber [] := by simp [EndsNumber]

theorem endsNumber_cons {c : Char} {cs : List Char} :
    EndsNumber (c :: cs) ↔ continuesNumber c = false := by
  simp [EndsNumber]

theorem EndsNumber.head?_isDigit {rest : List Char} (h : EndsNumber rest) :
    ∀ c ∈ rest.head?, c.isDigit = false := by
  intro c hc
  have := h c hc
  simp only [continuesNumber, Bool.or_eq_false_iff] at this
  exact this.1.1.1

/-- A number as written, in its parts: digits before and behind the point, and an exponent with
its sign. -/
structure NumberText where
  negative : Bool := false
  whole : List Char
  fraction : List Char := []
  exponent : Option (Bool × List Char) := none

namespace NumberText

def signChars (negative : Bool) : List Char := if negative then ['-'] else []

def fractionChars (ds : List Char) : List Char := if ds.isEmpty then [] else '.' :: ds

def exponentChars : Option (Bool × List Char) → List Char
  | none => []
  | some (negative, ds) => 'e' :: (if negative then '-' else '+') :: ds

def chars (t : NumberText) : List Char :=
  signChars t.negative ++ t.whole ++ fractionChars t.fraction ++ exponentChars t.exponent

structure IsValid (t : NumberText) : Prop where
  whole : IsDigits t.whole
  whole_ne : t.whole ≠ []
  /-- A zero in front stands alone. -/
  lead : t.whole.head? = some '0' → t.whole = ['0']
  fraction : IsDigits t.fraction
  exponent : ∀ e ∈ t.exponent, IsDigits e.2 ∧ e.2 ≠ []

/-- The value of a digit run with a sign. -/
def signed (negative : Bool) (ds : List Char) : Int :=
  if negative then -(ofDigits (ds.map Text.digitValue) : Int)
  else ofDigits (ds.map Text.digitValue)

def numeral (t : NumberText) : Numeral where
  negative := t.negative
  whole := t.whole.map Text.digitValue
  fraction := t.fraction.map Text.digitValue
  exponent := t.exponent.map fun e => signed e.1 e.2

theorem scanDigits₁?_append {ds rest : List Char} (hds : IsDigits ds) (hne : ds ≠ [])
    (hrest : ∀ c ∈ rest.head?, c.isDigit = false) :
    scanDigits₁? (ds ++ rest) = some (ds.map Text.digitValue, rest) := by
  rw [scanDigits₁?, scanDigits_append hds hrest]
  cases ds with
  | nil => exact absurd rfl hne
  | cons c ds => rfl

theorem scanWhole?_append {ds rest : List Char} (hds : IsDigits ds) (hne : ds ≠ [])
    (hlead : ds.head? = some '0' → ds = ['0']) (hrest : ∀ c ∈ rest.head?, c.isDigit = false) :
    scanWhole? (ds ++ rest) = some (ds.map Text.digitValue, rest) := by
  rw [scanWhole?, scanDigits_append hds hrest]
  match ds with
  | [] => exact absurd rfl hne
  | [c] => simp
  | c :: d :: ds =>
    have hc : c ≠ '0' := by
      rintro rfl
      simpa using hlead rfl
    have hvalue : Text.digitValue c ≠ 0 := by
      have hdigit := Char.isDigit_iff_toNat.1 (hds c List.mem_cons_self)
      intro hzero
      refine hc (Char.toNat_inj.1 ?_)
      simp only [Text.digitValue] at hzero
      simp only [Char.reduceToNat] at hdigit ⊢
      omega
    simp only [List.map_cons]
    split
    · rename_i h
      simp at h
    · rename_i h
      simp only [Prod.mk.injEq, List.cons.injEq] at h
      exact absurd h.1.1 hvalue
    · rename_i h
      cases h
      rfl

theorem scanFraction?_append {ds rest : List Char} (hds : IsDigits ds)
    (hrest : ∀ c ∈ rest.head?, c.isDigit = false ∧ c ≠ '.') :
    scanFraction? (fractionChars ds ++ rest) = some (ds.map Text.digitValue, rest) := by
  cases ds with
  | nil =>
    simp only [fractionChars, List.isEmpty_nil, if_true, List.nil_append, List.map_nil]
    unfold scanFraction?
    split
    · exact absurd rfl (hrest '.' rfl).2
    · rfl
  | cons c ds =>
    simp only [fractionChars, List.isEmpty_cons, Bool.false_eq_true, if_false, List.cons_append,
      scanFraction?]
    exact scanDigits₁?_append hds (List.cons_ne_nil _ _) fun c hc => (hrest c hc).1

theorem scanSign_exponent (negative : Bool) (cs : List Char) :
    scanSign ((if negative then '-' else '+') :: cs) = (negative, cs) := by
  cases negative <;> rfl

theorem scanExponent?_append {e : Option (Bool × List Char)} {rest : List Char}
    (he : ∀ x ∈ e, IsDigits x.2 ∧ x.2 ≠ []) (hrest : EndsNumber rest) :
    scanExponent? (exponentChars e ++ rest) = some (e.map fun x => signed x.1 x.2, rest) := by
  cases e with
  | none =>
    cases rest with
    | nil => rfl
    | cons c rest =>
      have hc := endsNumber_cons.1 hrest
      simp only [continuesNumber, Bool.or_eq_false_iff, decide_eq_false_iff_not] at hc
      simp [exponentChars, scanExponent?, hc.1.2, hc.2]
  | some e =>
    obtain ⟨negative, ds⟩ := e
    obtain ⟨hds, hne⟩ := he _ rfl
    simp only [exponentChars, List.cons_append, scanExponent?, true_or, if_true,
      scanSign_exponent, scanDigits₁?_append hds hne hrest.head?_isDigit]
    rfl

theorem scanMinus_append {negative : Bool} {cs : List Char} (hcs : cs.head? ≠ some '-') :
    scanMinus (signChars negative ++ cs) = (negative, cs) := by
  cases negative with
  | true => rfl
  | false =>
    simp only [signChars, Bool.false_eq_true, if_false, List.nil_append]
    unfold scanMinus
    split
    · exact absurd rfl hcs
    · rfl

/-- The parts of a valid number are scanned as they are. -/
theorem scanNumeral?_append {t : NumberText} (ht : t.IsValid) {rest : List Char}
    (hrest : EndsNumber rest) : scanNumeral? (t.chars ++ rest) = some (t.numeral, rest) := by
  obtain ⟨c, ds, hwhole⟩ := List.exists_cons_of_ne_nil ht.whole_ne
  have hminus : c ≠ '-' := by
    have hc : c.isDigit = true := ht.whole c (hwhole ▸ List.mem_cons_self)
    rintro rfl
    simp at hc
  have hexponent : ∀ c ∈ (exponentChars t.exponent ++ rest).head?,
      c.isDigit = false ∧ c ≠ '.' := by
    cases t.exponent with
    | none =>
      intro c hc
      have := hrest c hc
      simp only [continuesNumber, Bool.or_eq_false_iff, decide_eq_false_iff_not] at this
      exact ⟨this.1.1.1, this.1.1.2⟩
    | some e => simp [exponentChars]
  have hfraction : ∀ c ∈ (fractionChars t.fraction ++ (exponentChars t.exponent ++ rest)).head?,
      c.isDigit = false := by
    cases t.fraction with
    | nil => exact fun c hc => (hexponent c hc).1
    | cons d ds => simp [fractionChars]
  have hchars : t.chars ++ rest = signChars t.negative ++
      (t.whole ++ (fractionChars t.fraction ++ (exponentChars t.exponent ++ rest))) := by
    simp [chars]
  rw [hchars, scanNumeral?, scanMinus_append (by simpa [hwhole] using hminus)]
  simp only [scanWhole?_append ht.whole ht.whole_ne ht.lead hfraction,
    scanFraction?_append ht.fraction hexponent, scanExponent?_append ht.exponent hrest,
    Option.bind_eq_bind, Option.bind_some]
  rfl

theorem digits_isValid (n : Nat) : (NumberText.mk false (digitChars n) [] none).IsValid where
  whole := isDigits_digitChars n
  whole_ne := digitChars_ne_nil n
  lead h := by
    by_cases hn : n = 0
    · subst n
      rfl
    · exact absurd h (head?_digitChars hn)
  fraction := by simp [IsDigits]
  exponent := by simp

/-- A sign in front leaves a number valid. -/
theorem IsValid.withSign {t : NumberText} (ht : t.IsValid) (negative : Bool) :
    IsValid { t with negative } :=
  ⟨ht.whole, ht.whole_ne, ht.lead, ht.fraction, ht.exponent⟩

end NumberText

/-! ### Written numbers -/

theorem isDigits_zeros (n : Nat) : IsDigits (List.replicate n '0') := by
  intro c hc
  obtain ⟨-, rfl⟩ := List.mem_replicate.1 hc
  rfl

theorem IsDigits.append {cs ds : List Char} (hcs : IsDigits cs) (hds : IsDigits ds) :
    IsDigits (cs ++ ds) := fun c hc => (List.mem_append.1 hc).elim (hcs c) (hds c)

/-- Each layout of a decimal is a number; only the one with zeros behind the point starts with a
zero, which stands alone. -/
theorem exists_text_decimalChars {d : Decimal} (hd : d.digits ≠ 0) :
    ∃ t : NumberText, t.IsValid ∧ t.negative = false ∧ decimalChars d = t.chars := by
  have hdigits := isDigits_digitChars d.digits
  have hlead := head?_digitChars hd
  obtain ⟨c, cs, hcs⟩ := List.exists_cons_of_ne_nil (digitChars_ne_nil d.digits)
  simp only [decimalChars]
  generalize digitChars d.digits = ds at *
  have hvalid (whole fraction : List Char) (exponent : Option (Bool × List Char))
      (hwhole : IsDigits whole) (hhead : whole.head? = ds.head?) (hfraction : IsDigits fraction)
      (hexponent : ∀ e ∈ exponent, IsDigits e.2 ∧ e.2 ≠ []) :
      (NumberText.mk false whole fraction exponent).IsValid :=
    ⟨hwhole, by rintro rfl; simp [hcs] at hhead, fun h => absurd (hhead.symm.trans h) hlead,
      hfraction, hexponent⟩
  have htake (n : Nat) : IsDigits (ds.take n) := fun x hx => hdigits x (List.mem_of_mem_take hx)
  have hdrop (n : Nat) : IsDigits (ds.drop n) := fun x hx => hdigits x (List.mem_of_mem_drop hx)
  split
  · refine ⟨_, hvalid (ds ++ List.replicate d.exponent.toNat '0') ['0'] none
      (hdigits.append (isDigits_zeros _)) (by simp [hcs]) (isDigits_zeros 1) (by simp), rfl, ?_⟩
    simp [NumberText.chars, NumberText.signChars, NumberText.fractionChars,
      NumberText.exponentChars]
  · split
    · rename_i hplain hpoint
      generalize hn : (ds.length + d.exponent : Int).toNat = n
      have hpos : n ≠ 0 := by omega
      have hrest : ds.drop n ≠ [] := by
        rw [ne_eq, List.drop_eq_nil_iff]
        omega
      refine ⟨_, hvalid (ds.take n) (ds.drop n) none (htake n)
        (by simp [List.head?_take, hpos]) (hdrop n) (by simp), rfl, ?_⟩
      simp [NumberText.chars, NumberText.signChars, NumberText.fractionChars,
        NumberText.exponentChars, hrest]
    · split
      · refine ⟨⟨false, ['0'], List.replicate (ds.length + d.exponent : Int).natAbs '0' ++ ds,
          none⟩, ⟨isDigits_zeros 1, by simp, by simp, (isDigits_zeros _).append hdigits, by simp⟩,
          rfl, ?_⟩
        simp [NumberText.chars, NumberText.signChars, NumberText.fractionChars,
          NumberText.exponentChars, hcs]
      · generalize (ds.length + d.exponent - 1 : Int) = power
        refine ⟨_, hvalid (ds.take 1) (ds.drop 1) (some (power < 0, digitChars power.natAbs))
          (htake 1) (by simp [hcs]) (hdrop 1)
          (by simp [isDigits_digitChars, digitChars_ne_nil]), rfl, ?_⟩
        simp [NumberText.chars, NumberText.signChars, NumberText.fractionChars,
          NumberText.exponentChars, exponentChars, hcs]

/-- Every number is written in the parts of some valid number. -/
theorem Number.exists_text (n : Number) : ∃ t : NumberText, t.IsValid ∧ n.chars = t.chars := by
  cases n with
  | int n =>
    refine ⟨_, (NumberText.digits_isValid n.natAbs).withSign (decide (n < 0)), ?_⟩
    by_cases hn : n < 0 <;>
      simp [Number.chars, intChars, hn, NumberText.chars, NumberText.signChars,
        NumberText.fractionChars, NumberText.exponentChars]
  | float x =>
    have hunsigned : ∃ t : NumberText, t.IsValid ∧ t.negative = false ∧
        (if x.toBits.toNat % Decimal.signBit = 0 then ['0', '.', '0']
          else decimalChars (Decimal.shortest (x.toBits.toNat % Decimal.signBit))) = t.chars := by
      split
      · exact ⟨⟨false, ['0'], ['0'], none⟩,
          ⟨isDigits_zeros 1, by simp, fun _ => rfl, isDigits_zeros 1, by simp⟩, rfl, rfl⟩
      · exact exists_text_decimalChars (Decimal.shortest_digits_ne_zero ‹_›)
    obtain ⟨t, ht, hsign, hchars⟩ := hunsigned
    simp only [Number.chars, floatChars, hchars]
    split
    · exact ⟨t, ht, rfl⟩
    · refine ⟨_, ht.withSign true, ?_⟩
      simp [NumberText.chars, NumberText.signChars, hsign]

/-- What a number is read as when it has been written. -/
def Number.reread (n : Number) : Option Number :=
  (scanNumeral? n.chars).bind fun r => r.1.value?

/-- A number starts with a digit or a minus. -/
theorem Number.exists_head (n : Number) :
    ∃ c cs, n.chars = c :: cs ∧ (c.isDigit = true ∨ c = '-') := by
  obtain ⟨t, ht, hchars⟩ := n.exists_text
  obtain ⟨c, cs, hwhole⟩ := List.exists_cons_of_ne_nil ht.whole_ne
  have hc : c.isDigit = true := ht.whole c (hwhole ▸ List.mem_cons_self)
  rw [hchars, NumberText.chars, hwhole]
  cases t.negative with
  | true => exact ⟨'-', _, rfl, .inr rfl⟩
  | false => exact ⟨c, _, rfl, .inl hc⟩

/-- Only a number starts with a digit or a minus. -/
theorem scan?_digit {c : Char} {cs : List Char} (hc : c.isDigit = true ∨ c = '-') :
    scan? (c :: cs) = (scanNumeral? (c :: cs)).map fun (n, rest) => (.num n.value?, rest) := by
  unfold scan?
  split
  all_goals first
    | rfl
    | (rename_i h; cases h; simp at hc)

/-- A written number is one token. -/
theorem scan?_number (n : Number) {rest : List Char} (hrest : EndsNumber rest) :
    scan? (n.chars ++ rest) = some (.num n.reread, rest) := by
  obtain ⟨t, ht, hchars⟩ := n.exists_text
  obtain ⟨c, cs, hcs, hc⟩ := n.exists_head
  have hscan := NumberText.scanNumeral?_append ht hrest
  have halone := NumberText.scanNumeral?_append ht endsNumber_nil
  rw [List.append_nil, ← hchars] at halone
  rw [← hchars] at hscan
  rw [Number.reread, halone, hcs, List.cons_append, scan?_digit hc, ← List.cons_append, ← hcs,
    hscan]
  rfl

/-! ### Integers -/

theorem le_foldl_digits (ds : List Nat) (n : Nat) :
    n ≤ ds.foldl (fun n d => n * 10 + d) n := by
  induction ds generalizing n with
  | nil => exact Nat.le_refl n
  | cons d ds ih => exact Nat.le_trans (by omega) (ih (n * 10 + d))

/-- Digits are absorbed as long as the number that they spell fits 64 bits. -/
theorem absorb_eq (ds : List Nat) (n : Nat)
    (h : ds.foldl (fun n d => n * 10 + d) n < UInt64.size) :
    Numeral.absorb n ds = (ds.foldl (fun n d => n * 10 + d) n, []) := by
  induction ds generalizing n with
  | nil => rfl
  | cons d ds ih =>
    have hle := le_foldl_digits ds (n * 10 + d)
    rw [Numeral.absorb, if_pos (Nat.lt_of_le_of_lt hle h)]
    exact ih _ h

/-- The integers that documents have: those of 64 bits, with or without sign. -/
def IsWordSized (n : Int) : Prop := -(signedLimit : Int) ≤ n ∧ n < UInt64.size

theorem reread_int {n : Int} (hn : IsWordSized n) : (Number.int n).reread = some (.int n) := by
  have hvalid := (NumberText.digits_isValid n.natAbs).withSign (decide (n < 0))
  have hchars : (Number.int n).chars =
      (NumberText.mk (decide (n < 0)) (digitChars n.natAbs) [] none).chars := by
    by_cases hneg : n < 0 <;>
      simp [Number.chars, intChars, hneg, NumberText.chars, NumberText.signChars,
        NumberText.fractionChars, NumberText.exponentChars]
  have hscan := NumberText.scanNumeral?_append hvalid endsNumber_nil
  rw [List.append_nil] at hscan
  have hvalue : ((digitChars n.natAbs).map Text.digitValue).foldl (fun n d => n * 10 + d) 0 =
      n.natAbs := by
    rw [foldl_digitValue]
    exact Nat.ofDigitChars_ten_toDigits
  have hlimit : signedLimit < UInt64.size := by decide
  obtain ⟨hlow, hhigh⟩ := hn
  have habsorb := absorb_eq ((digitChars n.natAbs).map Text.digitValue) 0 (by rw [hvalue]; omega)
  rw [Number.reread, hchars, hscan, Option.bind_some]
  simp only [NumberText.numeral, Numeral.value?, habsorb, hvalue, List.map_nil, Option.map_none,
    List.isEmpty_nil, Option.isNone_none, Bool.and_self, if_true, Numeral.integer]
  by_cases hneg : n < 0
  · rw [if_pos (by simpa using hneg), if_neg (by omega)]
    congr 2
    omega
  · rw [if_neg (by simpa using hneg)]
    congr 2
    omega

end Json
end SearchQuery
