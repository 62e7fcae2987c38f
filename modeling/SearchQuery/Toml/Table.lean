import SearchQuery.Document

/-! # TOML tables

Tables while they are read. How a table came about decides what may still be added to it: a
header may complete a table that so far is only implied by others, and a dotted key may add to
tables made by dotted keys alone; no key is set twice. -/
namespace SearchQuery.Toml

/-- How a table came about. -/
inductive Origin
  /-- Implied by the header of a table inside it. -/
  | implied
  /-- Made by a dotted key. -/
  | dotted
  /-- Given by a header, or the document itself. -/
  | header
deriving DecidableEq

inductive Node
  | value (doc : Document)
  | table (origin : Origin) (members : List (String × Node))
  | tables (items : List (List (String × Node)))

abbrev Members := List (String × Node)

/-- Sets a member in its place or at the end. -/
def setNode (ms : Members) (key : String) (n : Node) : Members :=
  match ms with
  | [] => [(key, n)]
  | (k, m) :: rest => if k = key then (k, n) :: rest else (k, m) :: setNode rest key n

/-- Changes the table at the end of a path of keys, tables missing on the way being made. A list
of tables stands for its last one. Dotted paths do not enter tables given by a header. -/
def update (dotted : Bool) (change : Origin → Members → Option (Origin × Members)) :
    List String → Origin → Members → Option (Origin × Members)
  | [], origin, ms => change origin ms
  | key :: path, origin, ms =>
    match ms.lookup key with
    | none => do
      let (o, inner) ← update dotted change path (if dotted then .dotted else .implied) []
      pure (origin, setNode ms key (.table o inner))
    | some (.table o inner) =>
      if dotted && o = .header then none
      else do
        let (o, inner) ← update dotted change path o inner
        pure (origin, setNode ms key (.table o inner))
    | some (.tables items) => do
      let (_, inner) ← update dotted change path .header (items.getLast?.getD [])
      pure (origin, setNode ms key (.tables (items.dropLast ++ [inner])))
    | some (.value _) => none

/-- Adds a key that is not there yet, perhaps a dotted one. -/
def addPair (key : List String) (doc : Document) (origin : Origin) (ms : Members) :
    Option (Origin × Members) :=
  match key.getLast? with
  | none => none
  | some last =>
    update true
      (fun o inner =>
        if decide (o = .dotted) = decide (key.length = 1) then none
        else if (inner.lookup last).isSome then none
        else some (o, inner ++ [(last, .value doc)]))
      key.dropLast origin ms

/-- Opens the table of a header. -/
def openTable (path : List String) (ms : Members) : Option Members := do
  let last ← path.getLast?
  let (_, ms) ← update false
    (fun o inner =>
      match inner.lookup last with
      | none => some (o, inner ++ [(last, .table .header [])])
      | some (.table .implied members) => some (o, setNode inner last (.table .header members))
      | some _ => none)
    path.dropLast .header ms
  pure ms

/-- Opens a further table in the list of a header. -/
def openItem (path : List String) (ms : Members) : Option Members := do
  let last ← path.getLast?
  let (_, ms) ← update false
    (fun o inner =>
      match inner.lookup last with
      | none => some (o, inner ++ [(last, .tables [[]])])
      | some (.tables items) => some (o, setNode inner last (.tables (items ++ [[]])))
      | some _ => none)
    path.dropLast .header ms
  pure ms

mutual

def Node.document : Node → Document
  | .value doc => doc
  | .table _ members => .obj (memberDocuments members)
  | .tables items => .arr (itemDocuments items)

def memberDocuments : List (String × Node) → List (Option String × Document)
  | [] => []
  | (k, n) :: ms => (some k, n.document) :: memberDocuments ms

def itemDocuments : List (List (String × Node)) → List Document
  | [] => []
  | ms :: items => .obj (memberDocuments ms) :: itemDocuments items

end

end SearchQuery.Toml
