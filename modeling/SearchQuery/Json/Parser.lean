import SearchQuery.Document
import SearchQuery.Json.Token

/-! # Reading JSON text

A machine with a stack of unfinished containers builds the document from the tokens of the text;
nesting is bounded only by what later reads the document. -/
namespace SearchQuery.Json

/-- A container under construction, with the items or members before the value that is awaited,
in reverse. -/
inductive Frame
  | item (done : List Document)
  | member (done : List (Option String × Document)) (name : Option String)

/-- What the text read so far leaves open. -/
inductive Progress
  | awaiting (stack : List Frame)
  | opened (stack : List Frame)
  | naming (first : Bool) (done : List (Option String × Document)) (stack : List Frame)
  | named (done : List (Option String × Document)) (name : Option String) (stack : List Frame)
  | complete (value : Document) (stack : List Frame)

namespace Progress

/-- A token where a value must start. -/
def value (stack : List Frame) : Token → Option Progress
  | .null => some (complete .null stack)
  | .bool b => some (complete (.bool b) stack)
  | .num n => some (complete (.num n) stack)
  | .str s => some (complete (.str s) stack)
  | .openArr => some (opened stack)
  | .openObj => some (naming true [] stack)
  | _ => none

def step : Progress → Token → Option Progress
  | awaiting stack, t => value stack t
  | opened stack, .closeArr => some (complete (.arr []) stack)
  | opened stack, t => value (.item [] :: stack) t
  | naming true done stack, .closeObj => some (complete (.obj done.reverse) stack)
  | naming _ done stack, .str name => some (named done name stack)
  | named done name stack, .colon => some (awaiting (.member done name :: stack))
  | complete v (.item done :: stack), .comma => some (awaiting (.item (v :: done) :: stack))
  | complete v (.item done :: stack), .closeArr => some (complete (.arr (v :: done).reverse) stack)
  | complete v (.member done name :: stack), .comma => some (naming false ((name, v) :: done) stack)
  | complete v (.member done name :: stack), .closeObj =>
    some (complete (.obj ((name, v) :: done).reverse) stack)
  | _, _ => none

def result? : Progress → Option Document
  | complete v [] => some v
  | _ => none

end Progress

/-- Feeds the tokens of a text to the machine. -/
def Progress.run (p : Progress) (cs : List Char) : Option Progress :=
  match hs : cs.dropWhile Token.isSpace with
  | [] => some p
  | c :: rest =>
    match ht : Token.scan? (c :: rest) with
    | none => none
    | some (t, rest') =>
      have : rest'.length < cs.length :=
        Nat.lt_of_lt_of_le (Token.scan?_length ht) (hs ▸ (List.dropWhile_sublist _).length_le)
      match p.step t with
      | none => none
      | some q => run q rest'
termination_by cs.length

/-- The document that a text spells. -/
def parse? (text : String) : Option Document := do
  (← (Progress.awaiting []).run text.toList).result?

/-- The dialect of JSON: at most 127 containers may be open. -/
def dialect : Document.Dialect := ⟨127, false, false⟩

/-- The value of a text that is read with a reader. -/
def read? {α : Type} (read : Document.Reader α) (text : String) : Option α := do
  read dialect (← parse? text)

end SearchQuery.Json
