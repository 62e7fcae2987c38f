import SearchQuery.Decimal.Shortest

/-! # JSON numbers

A number is an integer when it is written as one and fits 64 bits, with or without sign, and a
binary64 number otherwise. `Numeral` is a number as written, `Numeral.value?` its value and
`Number.chars` its written form. -/
namespace SearchQuery.Json

inductive Number
  | int (n : Int)
  | float (x : Float)
deriving DecidableEq

instance : Inhabited Number := ⟨.int 0⟩

/-- The first natural number that 64 bits with a sign do not hold. -/
def signedLimit : Nat := 0x8000000000000000

/-- The value of a number as an unsigned 64-bit count. -/
def Number.count? : Number → Option UInt64
  | .int (.ofNat n) => if n < UInt64.size then some (UInt64.ofNat n) else none
  | _ => none

def Number.ofCount (n : UInt64) : Number := .int n.toNat

/-- The parts of a number as written. A missing fraction has no digits. -/
structure Numeral where
  negative : Bool
  whole : List Nat
  fraction : List Nat
  exponent : Option Int

namespace Numeral

/-- Appends digits to a significand while it fits 64 bits; the other digits are left over. -/
def absorb : Nat → List Nat → Nat × List Nat
  | s, [] => (s, [])
  | s, d :: ds => if s * 10 + d < UInt64.size then absorb (s * 10 + d) ds else (s, d :: ds)

def ten (n : Nat) : Float := Float.ofScientific 1 false n

/-- Multiplies by a power of ten, with one rounding when the power is a number of its own and in
steps otherwise; absent when the result is too large. -/
def scale (x : Float) (power : Int) : Option Float :=
  if power.natAbs ≤ 308 then
    if 0 ≤ power then
      let y := x * ten power.natAbs
      if y.isInf then none else some y
    else some (x / ten power.natAbs)
  else if x == 0 then some x
  else if 0 ≤ power then none
  else scale (x / ten 308) (power + 308)
termination_by power.natAbs

/-- An integer out of range is the nearest binary64 number; so is minus zero. -/
def integer (negative : Bool) (n : Nat) : Number :=
  if negative then
    if n = 0 ∨ signedLimit < n then .float (-(UInt64.ofNat n).toFloat) else .int (-n)
  else .int n

/-- The value of a numeral, absent when it is too large for binary64. Of the digits only the
leading ones that fit 64 bits count. -/
def value? (n : Numeral) : Option Number :=
  let (whole, excess) := absorb 0 n.whole
  if excess.isEmpty && n.fraction.isEmpty && n.exponent.isNone then
    some (integer n.negative whole)
  else
    let (significand, dropped) := absorb whole n.fraction
    let places := n.fraction.length - dropped.length
    let power : Int := excess.length - places + n.exponent.getD 0
    (scale (UInt64.ofNat significand).toFloat power).map fun x =>
      .float (if n.negative then -x else x)

end Numeral

def digitChars (n : Nat) : List Char := Nat.toDigits 10 n

def intChars (n : Int) : List Char :=
  if n < 0 then '-' :: digitChars n.natAbs else digitChars n.natAbs

def exponentChars (n : Int) : List Char :=
  (if n < 0 then '-' else '+') :: digitChars n.natAbs

/-- Layout of a decimal: plain notation while the point stands at most 16 places right of the
first digit or 4 zeros left of it, a signed exponent otherwise; a whole number ends in `.0`. -/
def decimalChars (d : Decimal) : List Char :=
  let ds := digitChars d.digits
  let point : Int := ds.length + d.exponent
  if 0 ≤ d.exponent ∧ point ≤ 16 then
    ds ++ List.replicate d.exponent.toNat '0' ++ ['.', '0']
  else if 0 < point ∧ point ≤ 16 then
    ds.take point.toNat ++ '.' :: ds.drop point.toNat
  else if -5 < point ∧ point ≤ 0 then
    '0' :: '.' :: List.replicate point.natAbs '0' ++ ds
  else
    let tail := ds.drop 1
    ds.take 1 ++ (if tail.isEmpty then [] else '.' :: tail) ++ 'e' :: exponentChars (point - 1)

/-- The shortest text that reads back, with a sign also on minus zero. -/
def floatChars (x : Float) : List Char :=
  let bits := x.toBits.toNat
  let size := bits % Decimal.signBit
  let text := if size = 0 then ['0', '.', '0'] else decimalChars (Decimal.shortest size)
  if bits < Decimal.signBit then text else '-' :: text

def Number.chars : Number → List Char
  | .int n => intChars n
  | .float x => floatChars x

end SearchQuery.Json
