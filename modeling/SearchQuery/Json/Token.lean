import SearchQuery.Json.Number

/-! # JSON tokens

The tokens of JSON text and the scanner for one of them, which always consumes something
(`Token.scan?_length`). The grammar is strict: no leading zeros, no bare signs or points, no
control characters in strings. -/
namespace SearchQuery.Json

inductive Token
  | openArr | closeArr | openObj | closeObj | comma | colon
  | null
  | bool (b : Bool)
  | num (n : Option Number)
  | str (s : Option String)

namespace Token

def isSpace (c : Char) : Bool := c = ' ' || c = '\t' || c = '\n' || c = '\r'

def digit? (c : Char) : Option Nat := if c.isDigit then some (c.toNat - 48) else none

def hexDigit? (c : Char) : Option Nat :=
  if c.isDigit then some (c.toNat - 48)
  else if 'a' ≤ c ∧ c ≤ 'f' then some (c.toNat - 87)
  else if 'A' ≤ c ∧ c ≤ 'F' then some (c.toNat - 55)
  else none

/-- The longest run of digits and what follows it. -/
def scanDigits : List Char → List Nat × List Char
  | [] => ([], [])
  | c :: cs =>
    match digit? c with
    | some d => let (ds, rest) := scanDigits cs; (d :: ds, rest)
    | none => ([], c :: cs)

/-- At least one digit. -/
def scanDigits₁? (cs : List Char) : Option (List Nat × List Char) :=
  match scanDigits cs with
  | ([], _) => none
  | (ds, rest) => some (ds, rest)

/-- The digits before the point, without a zero in front of others. -/
def scanWhole? (cs : List Char) : Option (List Nat × List Char) :=
  match scanDigits cs with
  | ([], _) => none
  | (0 :: _ :: _, _) => none
  | (ds, rest) => some (ds, rest)

def scanFraction? : List Char → Option (List Nat × List Char)
  | '.' :: cs => scanDigits₁? cs
  | cs => some ([], cs)

def ofDigits (ds : List Nat) : Nat := ds.foldl (fun n d => n * 10 + d) 0

/-- Whether a minus stands in front, and what follows it. -/
def scanMinus : List Char → Bool × List Char
  | '-' :: cs => (true, cs)
  | cs => (false, cs)

/-- An optional sign, plus included. -/
def scanSign : List Char → Bool × List Char
  | '+' :: cs => (false, cs)
  | cs => scanMinus cs

def scanExponent? : List Char → Option (Option Int × List Char)
  | [] => some (none, [])
  | c :: cs =>
    if c = 'e' ∨ c = 'E' then
      (scanDigits₁? (scanSign cs).2).map fun (ds, rest) =>
        (some (if (scanSign cs).1 then -(ofDigits ds : Int) else ofDigits ds), rest)
    else some (none, c :: cs)

def scanNumeral? (cs : List Char) : Option (Numeral × List Char) := do
  let (whole, rest) ← scanWhole? (scanMinus cs).2
  let (fraction, rest) ← scanFraction? rest
  let (exponent, rest) ← scanExponent? rest
  pure (⟨(scanMinus cs).1, whole, fraction, exponent⟩, rest)

def escaped? : Char → Option Char
  | '"' => some '"'
  | '\\' => some '\\'
  | '/' => some '/'
  | 'b' => some '\x08'
  | 'f' => some '\x0c'
  | 'n' => some '\n'
  | 'r' => some '\r'
  | 't' => some '\t'
  | _ => none

/-- The code values of a string up to its closing quote: those of its characters, and the 16-bit
units of its `u` escapes. The values read so far are given in reverse. -/
def scanUnits? (acc : List Nat) : List Char → Option (List Nat × List Char)
  | [] => none
  | '"' :: cs => some (acc.reverse, cs)
  | '\\' :: 'u' :: a :: b :: c :: d :: cs =>
    match hexDigit? a, hexDigit? b, hexDigit? c, hexDigit? d with
    | some a, some b, some c, some d => scanUnits? ((((a * 16 + b) * 16 + c) * 16 + d) :: acc) cs
    | _, _, _, _ => none
  | '\\' :: c :: cs =>
    match escaped? c with
    | some e => scanUnits? (e.toNat :: acc) cs
    | none => none
  | c :: cs => if c < ' ' then none else scanUnits? (c.toNat :: acc) cs

def isHigh (n : Nat) : Bool := 0xD800 ≤ n && n < 0xDC00

def isLow (n : Nat) : Bool := 0xDC00 ≤ n && n < 0xE000

/-- The characters of a list of code values, a high and a low surrogate standing for one
character; absent when a surrogate has no partner. -/
def ofUnits? (acc : List Char) : List Nat → Option (List Char)
  | [] => some acc.reverse
  | n :: ns =>
    if isHigh n then
      match ns with
      | m :: ns' =>
        if isLow m then
          ofUnits? (Char.ofNat (0x10000 + (n - 0xD800) * 0x400 + (m - 0xDC00)) :: acc) ns'
        else none
      | [] => none
    else if isLow n then none
    else ofUnits? (Char.ofNat n :: acc) ns

/-- The first token of a text that does not start with a space. -/
def scan? : List Char → Option (Token × List Char)
  | '[' :: cs => some (openArr, cs)
  | ']' :: cs => some (closeArr, cs)
  | '{' :: cs => some (openObj, cs)
  | '}' :: cs => some (closeObj, cs)
  | ',' :: cs => some (comma, cs)
  | ':' :: cs => some (colon, cs)
  | '"' :: cs =>
    (scanUnits? [] cs).map fun (ns, rest) => (str ((ofUnits? [] ns).map String.ofList), rest)
  | 'n' :: 'u' :: 'l' :: 'l' :: cs => some (null, cs)
  | 't' :: 'r' :: 'u' :: 'e' :: cs => some (bool true, cs)
  | 'f' :: 'a' :: 'l' :: 's' :: 'e' :: cs => some (bool false, cs)
  | cs => (scanNumeral? cs).map fun (n, rest) => (num n.value?, rest)

theorem scanDigits_length (cs : List Char) :
    (scanDigits cs).1.length + (scanDigits cs).2.length = cs.length := by
  induction cs with
  | nil => rfl
  | cons c cs ih =>
    unfold scanDigits
    cases digit? c with
    | none => simp
    | some d => simp only [List.length_cons]; omega

theorem scanDigits₁?_length {cs rest : List Char} {ds : List Nat}
    (h : scanDigits₁? cs = some (ds, rest)) : rest.length < cs.length := by
  have hl := scanDigits_length cs
  unfold scanDigits₁? at h
  generalize scanDigits cs = p at h hl
  obtain ⟨_ | ⟨d, ds'⟩, rest'⟩ := p
  · cases h
  · cases h
    simp only [List.length_cons] at hl
    omega

theorem scanWhole?_length {cs rest : List Char} {ds : List Nat}
    (h : scanWhole? cs = some (ds, rest)) : rest.length < cs.length := by
  have hl := scanDigits_length cs
  unfold scanWhole? at h
  generalize scanDigits cs = p at h hl
  obtain ⟨ds', rest'⟩ := p
  split at h
  · cases h
  · cases h
  · rename_i hne _ heq
    cases heq
    cases h
    cases ds with
    | nil => exact absurd rfl (hne ·)
    | cons d ds => simp only [List.length_cons] at hl; omega

theorem scanFraction?_length {cs rest : List Char} {ds : List Nat}
    (h : scanFraction? cs = some (ds, rest)) : rest.length ≤ cs.length := by
  unfold scanFraction? at h
  split at h
  · have := scanDigits₁?_length h
    simp only [List.length_cons]
    omega
  · cases h; exact Nat.le_refl _

theorem scanMinus_length (cs : List Char) : (scanMinus cs).2.length ≤ cs.length := by
  unfold scanMinus; split <;> simp

theorem scanSign_length (cs : List Char) : (scanSign cs).2.length ≤ cs.length := by
  unfold scanSign; split
  · simp
  · exact scanMinus_length _

theorem scanExponent?_length {cs rest : List Char} {e : Option Int}
    (h : scanExponent? cs = some (e, rest)) : rest.length ≤ cs.length := by
  cases cs with
  | nil => cases h; exact Nat.le_refl _
  | cons c cs =>
    rw [scanExponent?] at h
    split at h
    · obtain ⟨⟨ds, r⟩, hd, he⟩ := Option.map_eq_some_iff.1 h
      cases he
      have := scanDigits₁?_length hd
      have := scanSign_length cs
      simp only [List.length_cons]
      omega
    · cases h; exact Nat.le_refl _

theorem scanNumeral?_length {cs rest : List Char} {n : Numeral}
    (h : scanNumeral? cs = some (n, rest)) : rest.length < cs.length := by
  unfold scanNumeral? at h
  obtain ⟨⟨whole, r₁⟩, h₁, h⟩ := Option.bind_eq_some_iff.1 h
  obtain ⟨⟨fraction, r₂⟩, h₂, h⟩ := Option.bind_eq_some_iff.1 h
  obtain ⟨⟨exponent, r₃⟩, h₃, h⟩ := Option.bind_eq_some_iff.1 h
  cases h
  have := scanWhole?_length h₁
  have := scanFraction?_length h₂
  have := scanExponent?_length h₃
  have := scanMinus_length cs
  omega

theorem scanUnits?_length {acc : List Nat} {cs : List Char} {r : List Nat × List Char}
    (h : scanUnits? acc cs = some r) : r.2.length < cs.length := by
  fun_induction scanUnits? acc cs with
  | case1 => cases h
  | case2 => cases h; simp
  | case3 acc a b c d cs _ _ _ _ _ _ _ _ ih =>
    have := ih h
    simp only [List.length_cons]; omega
  | case4 => cases h
  | case5 acc c cs _ e _ ih =>
    have := ih h
    simp only [List.length_cons]; omega
  | case6 => cases h
  | case7 => cases h
  | case8 =>
    rename_i ih
    have := ih h
    simp only [List.length_cons]; omega

/-- Scanning a token leaves less text. -/
theorem scan?_length {cs rest : List Char} {t : Token} (h : scan? cs = some (t, rest)) :
    rest.length < cs.length := by
  unfold scan? at h
  split at h
  all_goals first
    | (cases h; simp only [List.length_cons]; omega)
    | skip
  · obtain ⟨⟨ns, r⟩, hu, he⟩ := Option.map_eq_some_iff.1 h
    cases he
    have := scanUnits?_length hu
    simp only at this
    simp only [List.length_cons]; omega
  · obtain ⟨⟨n, r⟩, hn, he⟩ := Option.map_eq_some_iff.1 h
    cases he
    exact scanNumeral?_length hn

end Token
end SearchQuery.Json
