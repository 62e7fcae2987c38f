import SearchQuery.Json.Number
import SearchQuery.Json.Printer

/-! # TOML text

Strings and pairs as they are written. Of the four kinds of strings the first is taken in which
nothing needs an escape: basic, literal, basic between triple quotes, literal between triple
quotes. A string that fits none of them is basic, between triple quotes when it has line breaks. -/
namespace SearchQuery.Toml

def quoteChar : Char := '\x27'

/-- Controls, tabs and line breaks apart, need an escape. -/
def isControl (c : Char) : Bool := (c < ' ' || c = '\x7f') && c ≠ '\t' && c ≠ '\n'

/-- The length of the longest run of a character. -/
def longestRun (c : Char) (cs : List Char) : Nat :=
  ((cs.splitOnP (· ≠ c)).map List.length).foldl max 0

def upperHex (n : Nat) : Char := if n < 10 then Char.ofNat (48 + n) else Char.ofNat (55 + n)

/-- What a character other than a quote is written as in a basic string. -/
def escapeChar (triple : Bool) (c : Char) : List Char :=
  if c = '\n' then if triple then ['\n'] else ['\\', 'n']
  else if c = '\x08' then ['\\', 'b']
  else if c = '\t' then ['\\', 't']
  else if c = '\x0c' then ['\\', 'f']
  else if c = '\r' then ['\\', 'r']
  else if c = '\\' then ['\\', '\\']
  else if c < ' ' || c = '\x7f' then
    ['\\', 'u', '0', '0', upperHex (c.toNat / 16), upperHex (c.toNat % 16)]
  else [c]

/-- The body of a basic string. Between triple quotes up to two quotes in a row stand as they
are; `run` is the number of those in front. -/
def escapeChars (triple : Bool) (run : Nat) : List Char → List Char
  | [] => []
  | c :: cs =>
    if c ≠ '"' then escapeChar triple c ++ escapeChars triple 0 cs
    else if triple && run < 2 then c :: escapeChars triple (run + 1) cs
    else '\\' :: c :: escapeChars triple 0 cs

/-- A body between quotes, one or three on each side. Behind triple quotes a line break comes
first when the body has line breaks. -/
def enclose (quote : Char) (triple lines : Bool) (body : List Char) : List Char :=
  let quotes := List.replicate (if triple then 3 else 1) quote
  quotes ++ (if triple && lines then ['\n'] else []) ++ body ++ quotes

/-- The text of a string. -/
def stringChars (cs : List Char) : List Char :=
  let lines := cs.contains '\n'
  let clean := !cs.any isControl
  let straight := clean && !cs.contains '\\'
  let basic (triple : Bool) := enclose '"' triple lines (escapeChars triple 0 cs)
  if straight && !lines && longestRun '"' cs = 0 then basic false
  else if clean && !lines && longestRun quoteChar cs = 0 then enclose quoteChar false lines cs
  else if straight && longestRun '"' cs ≤ 2 then basic true
  else if clean && longestRun quoteChar cs ≤ 2 then enclose quoteChar true lines cs
  else basic lines

/-- A line with a key and the text of its value. -/
def pairLine (key : String) (value : List Char) : List Char :=
  key.toList ++ ' ' :: '=' :: ' ' :: value ++ ['\n']

end SearchQuery.Toml
