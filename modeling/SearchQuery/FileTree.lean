import Std.Data.HashMap
import SearchQuery.Path

/-! # File trees

Directories and files, found by following paths. A path is followed piece by piece, and every
piece but the last leads through a directory that is there; `..` leads to the directory above,
also out of the one where relative paths start. Directories that are made get a number, by which
the names in them are found at once, however deep they are.

Left out are links and devices, so that every file has one place, and rights, so that every file
can be read and written. The directory where relative paths start has no absolute path: those lead
to a tree of their own below the root. A write succeeds as a whole or changes nothing. -/
namespace SearchQuery

/-- A directory: the root, the one so many levels above the start of relative paths, or one that
was made under a name in another one. -/
inductive Directory
  | root
  | above (levels : Nat)
  | made (number : Nat) (parent : Directory) (name : String)

namespace Directory

/-- Where relative paths start. -/
def start : Directory := above 0

/-- The directory above; that of the root is the root. -/
def up : Directory → Directory
  | root => root
  | above levels => above (levels + 1)
  | made _ parent _ => parent

/-- What tells a directory from the others. -/
inductive Key
  | root
  | above (levels : Nat)
  | made (number : Nat)
deriving DecidableEq, Hashable

def key : Directory → Key
  | root => .root
  | above levels => .above levels
  | made number _ _ => .made number

/-- The names that lead from the start to a directory below it. -/
def names? : Directory → Option (List String)
  | above 0 => some []
  | made _ parent name => parent.names?.map fun names => names ++ [name]
  | _ => none

end Directory

/-- What stands under a name. -/
inductive Entry
  | dir (number : Nat)
  | file (content : ByteArray)

structure FileTree where
  entries : Std.HashMap (Directory.Key × String) Entry := {}
  /-- The directories made, by number. -/
  made : Array Directory := #[]

/-- What a path leads to: a directory that is there, or a name in such a directory, which a slash
may follow. -/
inductive Destination
  | directory
  | name (dir : Directory) (name : String) (slash : Bool)

namespace FileTree

/-- What stands under a name in a directory. -/
def child (t : FileTree) (dir : Directory) (name : String) : Except FileError (Option Entry) :=
  if Path.maxNameSize < name.utf8ByteSize then .error .nameTooLong
  else .ok t.entries[(dir.key, name)]?

def putFile (t : FileTree) (dir : Directory) (name : String) (content : ByteArray) : FileTree :=
  { t with entries := t.entries.insert (dir.key, name) (.file content) }

def putDirectory (t : FileTree) (dir : Directory) (name : String) : FileTree where
  entries := t.entries.insert (dir.key, name) (.dir t.made.size)
  made := t.made.push (.made t.made.size dir name)

/-- The directory that pieces of a path lead to from a directory. -/
def walk (t : FileTree) (here : Directory) : List String → Except FileError Directory
  | [] => .ok here
  | piece :: rest =>
    if Path.isIdle piece then t.walk here rest
    else if piece = ".." then t.walk here.up rest
    else match t.child here piece with
      | .error e => .error e
      | .ok none => .error .notFound
      | .ok (some (.file _)) => .error .notDirectory
      | .ok (some (.dir number)) => t.walk (.made number here piece) rest

/-- What a path leads to. -/
def locate (t : FileTree) (path : String) : Except FileError Destination := do
  Path.check path
  let pieces := Path.pieces path
  let slashes := pieces.reverse.takeWhile (· = "")
  let core := pieces.take (pieces.length - slashes.length)
  let dir ← t.walk (if Path.isAbsolute path then .root else .start) core.dropLast
  match core.getLast? with
  | none => pure .directory
  | some last =>
    if last = "." ∨ last = ".." then pure .directory else pure (.name dir last (slashes ≠ []))

/-- What stands at a path: the content of a file, or none for a directory. Only a directory does
so at a path that ends in a slash. -/
def find (t : FileTree) (path : String) : Except FileError (Option ByteArray) := do
  match ← t.locate path with
  | .directory => pure none
  | .name dir name slash =>
    match ← t.child dir name with
    | none => throw .notFound
    | some (.dir _) => pure none
    | some (.file content) => if slash then throw .notDirectory else pure (some content)

def exists? (t : FileTree) (path : String) : Bool :=
  match t.find path with
  | .ok _ => true
  | .error _ => false

def isDirectory? (t : FileTree) (path : String) : Bool :=
  match t.find path with
  | .ok none => true
  | _ => false

def read (t : FileTree) (path : String) : Except FileError ByteArray := do
  match ← t.find path with
  | some content => pure content
  | none => throw .isDirectory

/-- Writes a file in a directory that is there. -/
def write (t : FileTree) (path : String) (content : ByteArray) : Except FileError FileTree := do
  match ← t.locate path with
  | .directory | .name _ _ true => throw .isDirectory
  | .name dir name false =>
    match ← t.child dir name with
    | some (.dir _) => throw .isDirectory
    | _ => pure (t.putFile dir name content)

/-- Makes a directory in a directory that is there. -/
def makeDirectory (t : FileTree) (path : String) : Except FileError FileTree := do
  match ← t.locate path with
  | .directory => throw .exists
  | .name dir name _ =>
    match ← t.child dir name with
    | some _ => throw .exists
    | none => pure (t.putDirectory dir name)

def directory? (t : FileTree) : Directory.Key → Option Directory
  | .root => some .root
  | .above levels => some (.above levels)
  | .made number => t.made[number]?

/-- The contents of the files below the start, by the names that lead to them. -/
def files (t : FileTree) : List (List String × ByteArray) :=
  t.entries.toList.filterMap fun
    | ((key, name), .file content) => do
      let names ← (← t.directory? key).names?
      pure (names ++ [name], content)
    | _ => none

end FileTree
end SearchQuery
