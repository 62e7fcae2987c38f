import SearchQuery.Json.Value

/-! # Documents

A document is a tree of values as written: repeated members are kept, and so are numbers out of
range and strings with an unpaired surrogate, which have no value. What a document means depends
on the reader: a free value must have every part, a record looks only at the members it knows. -/
namespace SearchQuery

inductive Document
  | null
  | bool (b : Bool)
  | num (n : Option Json.Number)
  | str (s : Option String)
  | arr (items : List Document)
  | obj (members : List (Option String × Document))
deriving Inhabited

mutual

/-- The document that spells a value. -/
def Json.document : Json → Document
  | .null => .null
  | .bool b => .bool b
  | .num n => .num (some n)
  | .str s => .str (some s)
  | .arr xs => .arr (Json.documents xs)
  | .obj ms => .obj (Json.memberDocuments ms)

def Json.documents : List Json → List Document
  | [] => []
  | x :: xs => x.document :: Json.documents xs

def Json.memberDocuments : List (String × Json) → List (Option String × Document)
  | [] => []
  | (k, v) :: ms => (some k, v.document) :: Json.memberDocuments ms

end

namespace Document

/-- What a format lets a reader accept. -/
structure Dialect where
  /-- How many containers may be open around a value that is read. -/
  depth : Nat
  /-- Whether a list given for a record may have more items than the record has members. -/
  surplus : Bool
  /-- Whether the payload of a named choice is an empty container, and not null. -/
  emptyPayload : Bool

/-- Enters a container; absent when that is too deep. -/
def Dialect.enter? (d : Dialect) : Option Dialect :=
  match d.depth with
  | 0 => none
  | depth + 1 => some { d with depth }

/-- Reading a part of a document, absent when the part is not of the kind asked for. -/
abbrev Reader (α : Type) := Dialect → Document → Option α

mutual

/-- A free value, within a number of levels. -/
def value? (depth : Nat) : Document → Option Json
  | null => some .null
  | bool b => some (.bool b)
  | num n => n.map .num
  | str s => s.map .str
  | arr xs =>
    match depth with
    | 0 => none
    | depth + 1 => (values? depth xs).map .arr
  | obj ms =>
    match depth with
    | 0 => none
    | depth + 1 => (memberValues? depth ms).map Json.ofMembers

def values? (depth : Nat) : List Document → Option (List Json)
  | [] => some []
  | x :: xs =>
    match value? depth x, values? depth xs with
    | some v, some vs => some (v :: vs)
    | _, _ => none

def memberValues? (depth : Nat) : List (Option String × Document) → Option (List (String × Json))
  | [] => some []
  | (k, x) :: ms =>
    match k, value? depth x, memberValues? depth ms with
    | some k, some v, some vs => some ((k, v) :: vs)
    | _, _, _ => none

end

namespace Reader

def json : Reader Json := fun d doc => doc.value? d.depth

def text : Reader String
  | _, .str s => s
  | _, _ => none

def bool : Reader Bool
  | _, .bool b => some b
  | _, _ => none

def count : Reader UInt64
  | _, .num (some n) => n.count?
  | _, _ => none

def map {α β : Type} (f : α → β) (read : Reader α) : Reader β := fun d doc => (read d doc).map f

/-- Null is read as absence. -/
def nullable {α : Type} (read : Reader α) : Reader (Option α)
  | _, .null => some none
  | d, doc => (read d doc).map some

def list {α : Type} (read : Reader α) : Reader (List α)
  | d, .arr items => do items.mapM (read (← d.enter?))
  | _, _ => none

/-- The members of an object in order, repeated ones included. -/
def table {α : Type} (read : Reader α) : Reader (List (String × α))
  | d, .obj members => do
    let inner ← d.enter?
    members.mapM fun (k, doc) => do pure (← k, ← read inner doc)
  | _, _ => none

def isPayload (d : Dialect) : Document → Bool
  | .null => !d.emptyPayload
  | .arr [] => d.emptyPayload
  | .obj [] => d.emptyPayload
  | _ => false

/-- A choice by name, given as the name or as an object with the name as its only member. -/
def choice {α : Type} (ofName? : String → Option α) : Reader α
  | _, .str s => s.bind ofName?
  | d, .obj [(name, payload)] => do
    let inner ← d.enter?
    if isPayload inner payload then name.bind ofName? else none
  | _, _ => none

end Reader

/-- The members of a record that the document gives, to be read in a dialect. -/
structure Record where
  dialect : Dialect
  members : List (String × Document)

/-- A record is an object, in which each of the names stands at most once, or a list of the
members in the order of the names. Other members of the object are passed over. -/
def record? (names : List String) : Reader Record
  | d, .arr items => do
    let inner ← d.enter?
    if d.surplus || items.length ≤ names.length then some ⟨inner, names.zip items⟩ else none
  | d, .obj members => do
    let inner ← d.enter?
    let named ← members.mapM fun (k, doc) => k.map (·, doc)
    let known := named.filter fun m => names.contains m.1
    if (known.map Prod.fst).Nodup then some ⟨inner, known⟩ else none
  | _, _ => none

namespace Record

/-- A member that must be there. -/
def required {α : Type} (r : Record) (name : String) (read : Reader α) : Option α := do
  read r.dialect (← r.members.lookup name)

/-- A member with a default for when it is missing. -/
def getD {α : Type} (r : Record) (name : String) (fallback : α) (read : Reader α) : Option α :=
  match r.members.lookup name with
  | none => some fallback
  | some doc => read r.dialect doc

end Record
end Document
end SearchQuery
