import SearchQuery.Toml.Scalar
import SearchQuery.Toml.Table
import SearchQuery.Toml.Text

/-! # Reading TOML text

TOML 1.0, into documents. Lines, values and items are read with fuel, one unit for each; a text
never needs more than two units for each of its characters. -/
namespace SearchQuery.Toml

/-- How many lists and inline tables may be open, and how many parts a key may have. -/
def depth : Nat := 79

def skipSpace (cs : List Char) : List Char := cs.dropWhile isSpace

/-- Skips spaces, line breaks and comments. -/
def skipTrivia (inComment : Bool) : List Char → Option (List Char)
  | [] => some []
  | '\n' :: cs => skipTrivia false cs
  | '\r' :: '\n' :: cs => skipTrivia false cs
  | c :: cs =>
    if inComment then if isPlain c then skipTrivia true cs else none
    else if isSpace c then skipTrivia false cs
    else if c = '#' then skipTrivia true cs
    else some (c :: cs)

/-- The end of a line, a comment included. -/
def endLine? (cs : List Char) : Option (List Char) :=
  let cs := match skipSpace cs with
    | '#' :: cs => cs.dropWhile isPlain
    | cs => cs
  match cs with
  | [] => some []
  | '\n' :: cs => some cs
  | '\r' :: '\n' :: cs => some cs
  | _ => none

def isBareChar (c : Char) : Bool := c.isAlphanum || c = '_' || c = '-'

def scanKeyPart? : List Char → Option (String × List Char)
  | '"' :: cs => (scanBasic? [] cs).map fun (s, rest) => (String.ofList s, rest)
  | '\x27' :: cs => (scanLiteral? [] cs).map fun (s, rest) => (String.ofList s, rest)
  | cs =>
    let bare := cs.takeWhile isBareChar
    if bare.isEmpty then none else some (String.ofList bare, cs.dropWhile isBareChar)

/-- The parts of a key between dots, with spaces around them. -/
def scanKey? : Nat → List Char → Option (List String × List Char)
  | 0, _ => none
  | parts + 1, cs => do
    let (part, rest) ← scanKeyPart? (skipSpace cs)
    match skipSpace rest with
    | '.' :: rest => do
      let (more, rest) ← scanKey? parts rest
      pure (part :: more, rest)
    | rest => pure ([part], rest)

mutual

/-- A value, within a number of open lists and inline tables. -/
def scanValue? (fuel depth : Nat) (cs : List Char) : Option (Document × List Char) :=
  match fuel, depth, cs with
  | 0, _, _ => none
  | _, _, [] => none
  | fuel + 1, depth, c :: rest =>
    if c = '"' ∨ c = quote then
      (scanString? (c :: rest)).map fun (s, rest) => (.str (some (String.ofList s)), rest)
    else if c = '[' ∨ c = '{' then
      match depth with
      | 0 => none
      | depth + 1 =>
        if c = '[' then scanItems? fuel depth [] rest
        else match skipSpace rest with
          | '}' :: rest => some (.obj [], rest)
          | rest => scanPairs? fuel depth [] rest
    else
      let (word, rest) := scanWord (c :: rest)
      (scalar? word).map fun doc => (doc, rest)

/-- The items of a list up to its end, those before them given in reverse. -/
def scanItems? (fuel depth : Nat) (acc : List Document) (cs : List Char) :
    Option (Document × List Char) :=
  match fuel with
  | 0 => none
  | fuel + 1 => do
    match ← skipTrivia false cs with
    | ']' :: rest => pure (.arr acc.reverse, rest)
    | cs =>
      let (doc, rest) ← scanValue? fuel depth cs
      match ← skipTrivia false rest with
      | ',' :: rest => scanItems? fuel depth (doc :: acc) rest
      | ']' :: rest => pure (.arr (doc :: acc).reverse, rest)
      | _ => none

/-- The pairs of an inline table up to its end, added to those before them. -/
def scanPairs? (fuel depth : Nat) (acc : Members) (cs : List Char) :
    Option (Document × List Char) :=
  match fuel with
  | 0 => none
  | fuel + 1 => do
    let (key, rest) ← scanKey? Toml.depth cs
    match rest with
    | '=' :: rest =>
      let (doc, rest) ← scanValue? fuel depth (skipSpace rest)
      let (_, acc) ← addPair key doc .header acc
      match skipSpace rest with
      | ',' :: rest => scanPairs? fuel depth acc rest
      | '}' :: rest => pure (.obj (memberDocuments acc), rest)
      | _ => none
    | _ => none

end

/-- The lines of a document: the tables so far and the path of the current one. -/
def scanLines? (fuel : Nat) (root : Members) (current : List String) (cs : List Char) :
    Option Members :=
  match fuel with
  | 0 => none
  | fuel + 1 =>
    match skipSpace cs with
    | [] => some root
    | '\n' :: rest => scanLines? fuel root current rest
    | '\r' :: '\n' :: rest => scanLines? fuel root current rest
    | '#' :: rest => do scanLines? fuel root current (← endLine? ('#' :: rest))
    | '[' :: '[' :: rest => do
      match ← scanKey? depth rest with
      | (path, ']' :: ']' :: rest) =>
        scanLines? fuel (← openItem path root) path (← endLine? rest)
      | _ => none
    | '[' :: rest => do
      match ← scanKey? depth rest with
      | (path, ']' :: rest) => scanLines? fuel (← openTable path root) path (← endLine? rest)
      | _ => none
    | cs => do
      match ← scanKey? depth cs with
      | (key, '=' :: rest) =>
        let (doc, rest) ← scanValue? fuel depth (skipSpace rest)
        let (_, root) ← update false (addPair key doc) current .header root
        scanLines? fuel root current (← endLine? rest)
      | _ => none

/-- A byte order mark in front does not count. -/
def dropMark : List Char → List Char
  | '\ufeff' :: cs => cs
  | cs => cs

/-- The document that a text spells. -/
def parse? (text : String) : Option Document :=
  let cs := dropMark text.toList
  (scanLines? (2 * cs.length + 2) [] [] cs).map fun ms => .obj (memberDocuments ms)

/-- The dialect of TOML. -/
def dialect : Document.Dialect := ⟨127, true, true⟩

/-- The value of a text that is read with a reader. -/
def read? {α : Type} (read : Document.Reader α) (text : String) : Option α := do
  read dialect (← parse? text)

end SearchQuery.Toml
