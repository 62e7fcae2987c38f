/-! # Counts

Natural numbers written in decimal digits. -/
namespace SearchQuery.Text

def digitValue (c : Char) : Nat := c.toNat - 48

def ofDigits (cs : List Char) : Nat := cs.foldl (fun n c => n * 10 + digitValue c) 0

/-- A plus in front of a count says nothing. -/
def dropPlus : List Char → List Char
  | '+' :: cs => cs
  | cs => cs

/-- The number denoted by one or more digits, with any number of zeros and at most one plus in
front. -/
def count? (s : String) : Option Nat :=
  let digits := dropPlus s.toList
  if digits.isEmpty || !digits.all Char.isDigit then none else some (ofDigits digits)

end SearchQuery.Text
