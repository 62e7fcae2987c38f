import SearchQuery.Json.Token

/-! # TOML strings

The four kinds of TOML strings. Basic strings have escapes, literal ones have none; either may
span lines between triple quotes. Scanners start behind the opening quotes and give what follows
the closing ones. -/
namespace SearchQuery.Toml

def isSpace (c : Char) : Bool := c = ' ' || c = '\t'

/-- Characters that may stand in strings and comments: no controls but tabs. -/
def isPlain (c : Char) : Bool := c = '\t' || (' ' ≤ c && c ≠ '\x7f')

/-- The character of a code point; surrogates and numbers out of range have none. -/
def ofCodePoint? (n : Nat) : Option Char := if n.isValidChar then some (Char.ofNat n) else none

def ofHex? (cs : List Char) : Option Char := do
  let ds ← cs.mapM Json.Token.hexDigit?
  ofCodePoint? (ds.foldl (fun n d => n * 16 + d) 0)

def escaped? : Char → Option Char
  | 'b' => some '\x08'
  | 't' => some '\t'
  | 'n' => some '\n'
  | 'f' => some '\x0c'
  | 'r' => some '\r'
  | '"' => some '"'
  | '\\' => some '\\'
  | _ => none

/-- A basic string on one line; the characters read so far are given in reverse. -/
def scanBasic? (acc : List Char) : List Char → Option (List Char × List Char)
  | [] => none
  | '"' :: cs => some (acc.reverse, cs)
  | '\\' :: 'u' :: a :: b :: c :: d :: cs =>
    match ofHex? [a, b, c, d] with
    | some e => scanBasic? (e :: acc) cs
    | none => none
  | '\\' :: 'U' :: a :: b :: c :: d :: a' :: b' :: c' :: d' :: cs =>
    match ofHex? [a, b, c, d, a', b', c', d'] with
    | some e => scanBasic? (e :: acc) cs
    | none => none
  | '\\' :: c :: cs =>
    match escaped? c with
    | some e => scanBasic? (e :: acc) cs
    | none => none
  | c :: cs => if isPlain c then scanBasic? (c :: acc) cs else none

def quote : Char := '\x27'

/-- A literal string on one line. -/
def scanLiteral? (acc : List Char) : List Char → Option (List Char × List Char)
  | [] => none
  | c :: cs =>
    if c = quote then some (acc.reverse, cs)
    else if isPlain c then scanLiteral? (c :: acc) cs
    else none

/-- The end of a string in triple quotes, behind three of them: up to two more belong to it. -/
def closeTriple? (q : Char) (acc : List Char) (cs : List Char) :
    Option (List Char × List Char) :=
  let more := (cs.takeWhile (· = q)).length
  if more ≤ 2 then some (acc.reverse ++ List.replicate more q, cs.drop more) else none

/-- A basic string over lines. A backslash at the end of a line joins it to the next text: in
that state, `joining` says whether a line break has been passed. -/
def scanBasicLines? (acc : List Char) (joining : Option Bool) (cs : List Char) :
    Option (List Char × List Char) :=
  match joining with
  | some broken =>
    match cs with
    | ' ' :: cs => scanBasicLines? acc (some broken) cs
    | '\t' :: cs => scanBasicLines? acc (some broken) cs
    | '\n' :: cs => scanBasicLines? acc (some true) cs
    | '\r' :: '\n' :: cs => scanBasicLines? acc (some true) cs
    | cs => if broken then scanBasicLines? acc none cs else none
  | none =>
    match cs with
    | [] => none
    | '"' :: '"' :: '"' :: cs => closeTriple? '"' acc cs
    | '\\' :: 'u' :: a :: b :: c :: d :: cs =>
      match ofHex? [a, b, c, d] with
      | some e => scanBasicLines? (e :: acc) none cs
      | none => none
    | '\\' :: 'U' :: a :: b :: c :: d :: a' :: b' :: c' :: d' :: cs =>
      match ofHex? [a, b, c, d, a', b', c', d'] with
      | some e => scanBasicLines? (e :: acc) none cs
      | none => none
    | '\\' :: c :: cs =>
      if isSpace c || c = '\n' || c = '\r' then scanBasicLines? acc (some false) (c :: cs)
      else match escaped? c with
        | some e => scanBasicLines? (e :: acc) none cs
        | none => none
    | '\n' :: cs => scanBasicLines? ('\n' :: acc) none cs
    | '\r' :: '\n' :: cs => scanBasicLines? ('\n' :: acc) none cs
    | c :: cs => if isPlain c then scanBasicLines? (c :: acc) none cs else none
termination_by 2 * cs.length + if joining.isSome then 1 else 0
decreasing_by all_goals simp; try omega

/-- A literal string over lines. -/
def scanLiteralLines? (acc : List Char) : List Char → Option (List Char × List Char)
  | [] => none
  | '\x27' :: '\x27' :: '\x27' :: cs => closeTriple? quote acc cs
  | '\n' :: cs => scanLiteralLines? ('\n' :: acc) cs
  | '\r' :: '\n' :: cs => scanLiteralLines? ('\n' :: acc) cs
  | c :: cs => if isPlain c then scanLiteralLines? (c :: acc) cs else none

/-- A line break directly behind triple quotes does not count. -/
def dropBreak : List Char → List Char
  | '\n' :: cs => cs
  | '\r' :: '\n' :: cs => cs
  | cs => cs

/-- A string of any kind, at its opening quote. -/
def scanString? : List Char → Option (List Char × List Char)
  | '"' :: '"' :: '"' :: cs => scanBasicLines? [] none (dropBreak cs)
  | '\x27' :: '\x27' :: '\x27' :: cs => scanLiteralLines? [] (dropBreak cs)
  | '"' :: cs => scanBasic? [] cs
  | '\x27' :: cs => scanLiteral? [] cs
  | _ => none

end SearchQuery.Toml
