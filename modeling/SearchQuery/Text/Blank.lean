/-! # Blank text

The characters with the Unicode property White_Space, trimming by them, and the texts made
of nothing else. -/
namespace SearchQuery.Text

/-- The 25 characters with the Unicode property White_Space. -/
def isBlankChar (c : Char) : Bool :=
  let n := c.toNat
  (9 ≤ n && n ≤ 13) || n == 32 || n == 0x85 || n == 0xA0 || n == 0x1680 ||
  (0x2000 ≤ n && n ≤ 0x200A) || n == 0x2028 || n == 0x2029 || n == 0x202F || n == 0x205F ||
  n == 0x3000

/-- Removes the blank characters at the end. -/
def trimEndChars (cs : List Char) : List Char := (cs.reverse.dropWhile isBlankChar).reverse

/-- Removes the blank characters at both ends. -/
def trimChars (cs : List Char) : List Char := trimEndChars (cs.dropWhile isBlankChar)

def trim (s : String) : String := String.ofList (trimChars s.toList)

/-- A text is blank when it has no other characters than blank ones. -/
def isBlank (s : String) : Bool := s.toList.all isBlankChar

/-- The trimmed text, absent when nothing is left of it. -/
def trimmed? (s : String) : Option String := if isBlank s then none else some (trim s)

end SearchQuery.Text
