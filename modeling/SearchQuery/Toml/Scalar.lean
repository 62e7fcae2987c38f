import SearchQuery.Document
import SearchQuery.Json.Token
import SearchQuery.Text.Count

/-! # TOML numbers, dates and truth values

The values that are written as one word. Integers have 64 bits with a sign; a date or time is a
document with one member, which holds its text. -/
namespace SearchQuery.Toml

/-- The digits of a number without the underscores between them. -/
def ungroup? (isDigit : Char → Bool) : List Char → Option (List Char)
  | [] => none
  | [c] => if isDigit c then some [c] else none
  | c :: '_' :: cs => if isDigit c then (ungroup? isDigit cs).map (c :: ·) else none
  | c :: cs => if isDigit c then (ungroup? isDigit cs).map (c :: ·) else none

def splitSign : List Char → Bool × List Char
  | '-' :: cs => (true, cs)
  | '+' :: cs => (false, cs)
  | cs => (false, cs)

/-- A whole number without zeros in front. -/
def decimalDigits? (cs : List Char) : Option (List Char) :=
  (ungroup? Char.isDigit cs).filter fun ds => ds.length = 1 || ds.head? ≠ some '0'

def inBase? (base : Nat) (cs : List Char) : Option Nat := do
  let value (c : Char) : Option Nat := (Json.Token.hexDigit? c).filter (· < base)
  let ds ← ungroup? (fun c => (value c).isSome) cs
  some (ds.foldl (fun n c => n * base + (value c).getD 0) 0)

/-- An integer of 64 bits, in base 10 with or without sign, or in base 16, 8 or 2. -/
def integer? (cs : List Char) : Option Int :=
  let n : Option Int := match cs with
    | '0' :: 'x' :: cs => (inBase? 16 cs).map Int.ofNat
    | '0' :: 'o' :: cs => (inBase? 8 cs).map Int.ofNat
    | '0' :: 'b' :: cs => (inBase? 2 cs).map Int.ofNat
    | cs => (decimalDigits? (splitSign cs).2).map fun ds =>
      if (splitSign cs).1 then -(Text.ofDigits ds : Int) else Text.ofDigits ds
  n.filter fun n => -(Json.signedLimit : Int) ≤ n ∧ n < Json.signedLimit

/-- The binary64 number nearest to `digits · 10 ^ power`, infinite when that is too large. -/
def nearest (digits : Nat) (power : Int) : Float :=
  let size : Int := (Json.digitChars digits).length + power
  if digits = 0 ∨ size < -400 then 0
  else if 400 < size then 1 / 0
  else Float.ofScientific digits (power < 0) power.natAbs

/-- A decimal with a fraction or an exponent, or both. -/
def decimal? (cs : List Char) : Option Float := do
  let (negative, cs) := splitSign cs
  let isMark (c : Char) : Bool := c = 'e' || c = 'E'
  let mantissa := cs.takeWhile (!isMark ·)
  let whole ← decimalDigits? (mantissa.takeWhile (· ≠ '.'))
  let fraction ← match mantissa.dropWhile (· ≠ '.') with
    | [] => some []
    | _ :: ds => ungroup? Char.isDigit ds
  let exponent ← match cs.dropWhile (!isMark ·) with
    | [] => some (0 : Int)
    | _ :: es => do
      let (below, ds) := splitSign es
      let n := Text.ofDigits (← ungroup? Char.isDigit ds)
      some (if below then -(n : Int) else n)
  if mantissa.length = cs.length ∧ fraction.isEmpty then none
  else
    let x := nearest (Text.ofDigits (whole ++ fraction)) (exponent - fraction.length)
    if negative then some (-x) else if x.isInf then none else some x

def special? (cs : List Char) : Option Float :=
  let (negative, cs) := splitSign cs
  if cs = ['i', 'n', 'f'] then some (if negative then -1 / 0 else 1 / 0)
  else if cs = ['n', 'a', 'n'] then some (0 / 0)
  else none

/-- The number of a run of digits, with bounds. -/
def field? (low high : Nat) (cs : List Char) : Option Nat :=
  if cs.all Char.isDigit then (some (Text.ofDigits cs)).filter fun n => low ≤ n && n ≤ high
  else none

def daysInMonth (year month : Nat) : Nat :=
  if month = 2 then
    if year % 4 = 0 ∧ (year % 100 ≠ 0 ∨ year % 400 = 0) then 29 else 28
  else if month = 4 ∨ month = 6 ∨ month = 9 ∨ month = 11 then 30
  else 31

/-- A date at the start of a text, and what follows it. -/
def date? : List Char → Option (List Char)
  | y₁ :: y₂ :: y₃ :: y₄ :: '-' :: m₁ :: m₂ :: '-' :: d₁ :: d₂ :: rest => do
    let year ← field? 0 9999 [y₁, y₂, y₃, y₄]
    let month ← field? 1 12 [m₁, m₂]
    let _ ← field? 1 (daysInMonth year month) [d₁, d₂]
    some rest
  | _ => none

/-- A time of day, perhaps with a fraction of a second. -/
def time? : List Char → Option (List Char)
  | h₁ :: h₂ :: ':' :: m₁ :: m₂ :: ':' :: s₁ :: s₂ :: rest => do
    let _ ← field? 0 23 [h₁, h₂]
    let _ ← field? 0 59 [m₁, m₂]
    let _ ← field? 0 60 [s₁, s₂]
    match rest with
    | '.' :: c :: cs => if c.isDigit then some (cs.dropWhile Char.isDigit) else none
    | '.' :: _ => none
    | _ => some rest
  | _ => none

/-- An offset from universal time, or nothing. -/
def isOffset : List Char → Bool
  | [] => true
  | ['Z'] | ['z'] => true
  | [s, h₁, h₂, ':', m₁, m₂] =>
    (s = '+' || s = '-') && (field? 0 23 [h₁, h₂]).isSome && (field? 0 59 [m₁, m₂]).isSome
  | _ => false

/-- A date, a time, or both, then perhaps with an offset. -/
def isMoment (cs : List Char) : Bool :=
  match date? cs with
  | some [] => true
  | some (c :: rest) =>
    (c = 'T' || c = 't' || c = ' ') && ((time? rest).map isOffset).getD false
  | none => time? cs = some []

/-- The document of a word. -/
def scalar? (word : List Char) : Option Document :=
  if word = ['t', 'r', 'u', 'e'] then some (.bool true)
  else if word = ['f', 'a', 'l', 's', 'e'] then some (.bool false)
  else match integer? word with
    | some n => some (.num (some (.int n)))
    | none =>
      match (decimal? word).or (special? word) with
      | some x => some (.num (some (.float x)))
      | none =>
        if isMoment word then
          some (.obj [(some "moment", .str (some (String.ofList word)))])
        else none

def isWordChar (c : Char) : Bool :=
  c.isAlphanum || c = '_' || c = '+' || c = '-' || c = '.' || c = ':'

/-- A word, and what follows it. A space may stand between a date and a time. -/
def scanWord (cs : List Char) : List Char × List Char :=
  let word := cs.takeWhile isWordChar
  match cs.dropWhile isWordChar with
  | ' ' :: c :: rest =>
    if date? word = some [] ∧ c.isDigit then
      (word ++ ' ' :: (c :: rest).takeWhile isWordChar, (c :: rest).dropWhile isWordChar)
    else (word, ' ' :: c :: rest)
  | rest => (word, rest)

end SearchQuery.Toml
