import SearchQuery.Json.Value

/-! # JSON text

The compact text of a value, without any space, and the indented one. Both keep the order of
the members. -/
namespace SearchQuery.Json

def hexChar (n : Nat) : Char := if n < 10 then Char.ofNat (48 + n) else Char.ofNat (87 + n)

/-- The escape of a character inside a string: only quotes, backslashes and control characters
below space have one. -/
def escapeChar (c : Char) : List Char :=
  if c = '"' then ['\\', '"']
  else if c = '\\' then ['\\', '\\']
  else if c = '\n' then ['\\', 'n']
  else if c = '\r' then ['\\', 'r']
  else if c = '\t' then ['\\', 't']
  else if c = '\x08' then ['\\', 'b']
  else if c = '\x0c' then ['\\', 'f']
  else if c < ' ' then ['\\', 'u', '0', '0', hexChar (c.toNat / 16), hexChar (c.toNat % 16)]
  else [c]

def quoted (s : String) : List Char := '"' :: s.toList.flatMap escapeChar ++ ['"']

def boolChars (b : Bool) : List Char :=
  if b then ['t', 'r', 'u', 'e'] else ['f', 'a', 'l', 's', 'e']

mutual

/-- The compact text. -/
def compactChars : Json → List Char
  | null => ['n', 'u', 'l', 'l']
  | bool b => boolChars b
  | num n => n.chars
  | str s => quoted s
  | arr [] => ['[', ']']
  | arr (x :: xs) => '[' :: compactChars x ++ compactItems xs
  | obj [] => ['{', '}']
  | obj ((k, v) :: ms) => '{' :: quoted k ++ ':' :: compactChars v ++ compactMembers ms

/-- The items after the first one, with the closing bracket. -/
def compactItems : List Json → List Char
  | [] => [']']
  | x :: xs => ',' :: compactChars x ++ compactItems xs

/-- The members after the first one, with the closing brace. -/
def compactMembers : List (String × Json) → List Char
  | [] => ['}']
  | (k, v) :: ms => ',' :: quoted k ++ ':' :: compactChars v ++ compactMembers ms

end

/-- A line break and two spaces for each level. -/
def lineBreak (level : Nat) : List Char := '\n' :: List.replicate (2 * level) ' '

mutual

/-- The indented text, each item and member on a line of its own. -/
def prettyChars (level : Nat) : Json → List Char
  | null => ['n', 'u', 'l', 'l']
  | bool b => boolChars b
  | num n => n.chars
  | str s => quoted s
  | arr [] => ['[', ']']
  | arr (x :: xs) =>
    '[' :: lineBreak (level + 1) ++ prettyChars (level + 1) x ++ prettyItems level xs
  | obj [] => ['{', '}']
  | obj ((k, v) :: ms) =>
    '{' :: lineBreak (level + 1) ++ quoted k ++ ':' :: ' ' :: prettyChars (level + 1) v ++
      prettyMembers level ms

def prettyItems (level : Nat) : List Json → List Char
  | [] => lineBreak level ++ [']']
  | x :: xs => ',' :: lineBreak (level + 1) ++ prettyChars (level + 1) x ++ prettyItems level xs

def prettyMembers (level : Nat) : List (String × Json) → List Char
  | [] => lineBreak level ++ ['}']
  | (k, v) :: ms =>
    ',' :: lineBreak (level + 1) ++ quoted k ++ ':' :: ' ' :: prettyChars (level + 1) v ++
      prettyMembers level ms

end

def compact (j : Json) : String := String.ofList j.compactChars

def pretty (j : Json) : String := String.ofList (j.prettyChars 0)

/-- The indented text or the compact one. -/
def text (indented : Bool) (j : Json) : String := if indented then j.pretty else j.compact

end SearchQuery.Json
