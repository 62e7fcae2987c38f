import SearchQuery.FileError

/-! # Paths

A path is a text whose pieces stand between slashes. It starts at the root if it starts with a
slash. Empty pieces and single dots lead nowhere, but a path that ends in one asks for a
directory. -/
namespace SearchQuery.Path

def isAbsolute (path : String) : Bool := path.toList.head? = some '/'

/-- The pieces of a path. -/
def pieces (path : String) : List String := (path.toList.splitOn '/').map String.ofList

/-- Whether a piece leads nowhere. -/
def isIdle (piece : String) : Bool := piece = "" || piece = "."

/-- The path of some pieces. -/
def ofPieces (pieces : List String) : String := "/".intercalate pieces

/-- A path below another one. -/
def join (base name : String) : String :=
  if base = "" ∨ base.toList.getLast? = some '/' then base ++ name else base ++ "/" ++ name

/-- What follows the last dot of the last name, unless the dot comes first. -/
def extension? (path : String) : Option String :=
  match ((pieces path).filter fun p => !isIdle p).getLast? with
  | none => none
  | some ".." => none
  | some name =>
    let after := (name.toList.reverse.takeWhile (· ≠ '.')).reverse
    if name.length ≤ after.length + 1 then none else some (String.ofList after)

/-- The parts of a path that end with one of its names, the longest first; a dot in front is a
name too. -/
def stops (path : String) : List String :=
  let ps := pieces path
  let named := (List.range ps.length).filter fun i =>
    !isIdle (ps[i]?.getD "") || i = 0 && ps[i]? = some "."
  (named.map fun i => ofPieces (ps.take (i + 1))).reverse

/-- The paths of the directories above a path, the nearest first. -/
def above (path : String) : List String := (stops path).drop 1

/-- The longest path, in bytes. -/
def maxSize : Nat := 4095

/-- The longest name in a path, in bytes. -/
def maxNameSize : Nat := 255

/-- Whether a text can be a path at all. -/
def check (path : String) : Except FileError Unit :=
  if path.toList.contains '\x00' then .error .badName
  else if path = "" then .error .notFound
  else if maxSize < path.utf8ByteSize then .error .nameTooLong
  else .ok ()

end SearchQuery.Path
