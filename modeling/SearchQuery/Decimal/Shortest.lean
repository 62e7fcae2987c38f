/-! # Shortest decimals

The decimal with the fewest digits that reads back to a given binary64 number. Every finite
binary64 number, and every end of its rounding interval, is a natural number times a power of
ten; on that scale the search for the coarsest decimal grid with a point in the interval is
plain integer arithmetic. -/
namespace SearchQuery

/-- A decimal `digits · 10 ^ exponent`. -/
structure Decimal where
  digits : Nat
  exponent : Int
deriving DecidableEq

namespace Decimal

/-- The reals that round to one number: all from `low` to `high`, in units of `10 ^ exponent`,
the ends included when `closed`. -/
structure Interval where
  low : Nat
  middle : Nat
  high : Nat
  exponent : Int
  closed : Bool

/-- The bits of a binary64 number are a sign, 11 bits of an exponent and 52 of a fraction. -/
def signBit : Nat := 0x8000000000000000

/-- The least significand of a number that is not subnormal. -/
def leastNormal : Nat := 0x10000000000000

/-- The interval of a positive finite number, from its bits. The gap below a power of two is
half the gap above it, the smallest normal number excepted. -/
def Interval.ofBits (bits : Nat) : Interval :=
  let field := bits / leastNormal
  let fraction := bits % leastNormal
  let mantissa := if field = 0 then fraction else fraction + leastNormal
  let power : Int := (if field = 0 then 1 else field : Nat) - 1075 - 2
  let below := if fraction = 0 ∧ 1 < field then 1 else 2
  let scale := Nat.pow (if power < 0 then 5 else 2) power.natAbs
  { low := (4 * mantissa - below) * scale
    middle := 4 * mantissa * scale
    high := (4 * mantissa + 2) * scale
    exponent := min power 0
    closed := mantissa % 2 = 0 }

def Interval.contains (i : Interval) (n : Nat) : Bool :=
  if i.closed then i.low ≤ n && n ≤ i.high else i.low < n && n < i.high

/-- The multiple of the unit in the interval that is nearest to the number, the even one of two
equally near. -/
def Interval.nearest? (i : Interval) (unit : Nat) : Option Nat :=
  let c := i.middle / unit
  match i.contains (c * unit), i.contains ((c + 1) * unit) with
  | false, false => none
  | true, false => some c
  | false, true => some (c + 1)
  | true, true =>
    match compare (i.middle - c * unit) ((c + 1) * unit - i.middle) with
    | .lt => some c
    | .gt => some (c + 1)
    | .eq => some (if c % 2 = 0 then c else c + 1)

/-- The point on the coarsest grid, among those of unit at most `10 ^ place`. -/
def Interval.coarsest (i : Interval) : Nat → Decimal
  | 0 => ⟨i.middle, i.exponent⟩
  | place + 1 =>
    match i.nearest? (Nat.pow 10 (place + 1)) with
    | some c => ⟨c, i.exponent + (place + 1 : Nat)⟩
    | none => i.coarsest place

/-- Moves zeros at the end of the digits into the exponent. -/
def normal (d : Decimal) : Decimal :=
  if h : d.digits = 0 then d
  else if d.digits % 10 = 0 then normal ⟨d.digits / 10, d.exponent + 1⟩ else d
termination_by d.digits
decreasing_by exact Nat.div_lt_self (Nat.pos_of_ne_zero h) (by decide)

/-- The shortest decimal of a positive finite number. -/
def shortest (bits : Nat) : Decimal :=
  let i := Interval.ofBits bits
  (i.coarsest ((Nat.toDigits 10 i.middle).length - 1)).normal

end Decimal
end SearchQuery
