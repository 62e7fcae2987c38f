import SearchQuery.Error
import SearchQuery.Event
import SearchQuery.FileTree

/-! # Hosts

What a command needs of the system it runs on, so that it can run on a file tree as well as on
the machine. An operation on a file either succeeds or changes nothing: that a write fails half
way, after the old content is gone, is left out. -/
namespace SearchQuery

structure Host (m : Type → Type) where
  /-- The text of a file. -/
  readText : String → m (Except FileError String)
  exists? : String → m Bool
  isDirectory? : String → m Bool
  /-- Makes a directory in a directory that is there. -/
  makeDirectory : String → m (Except FileError Unit)
  /-- Writes a whole file; when that fails, the file is as before. -/
  writeText : String → String → m (Except FileError Unit)
  /-- The text of the standard input. -/
  input : m (Except FileError String)

namespace Host

variable {m : Type → Type} [Monad m]

/-- Makes a directory that may be there already. -/
def ensureDirectory (h : Host m) (path : String) : m (Except FileError Unit) := do
  match ← h.makeDirectory path with
  | .error .exists => pure (if ← h.isDirectory? path then .ok () else .error .exists)
  | result => pure result

/-- Makes the first of some directories, each in the one behind it, and only as many of these as
it takes. Directories made before one that fails stay. -/
def ensureDirectories (h : Host m) : List String → m (Except FileError Unit)
  | [] => pure (.ok ())
  | path :: above => do
    match ← h.ensureDirectory path with
    | .error .notFound =>
      match ← h.ensureDirectories above with
      | .ok () => h.ensureDirectory path
      | .error e => pure (.error e)
    | result => pure result

end Host

/-- The variables that say where the configuration is and what is logged, and the home directory
of the account. -/
structure Environment where
  config : Option String := none
  home : Option String := none
  accountHome : Option String := none
  configHome : Option String := none
  /-- The filter of the events that are shown. -/
  log : Option String := none

/-- The home directory; empty texts do not name one. -/
def Environment.home? (env : Environment) : Option String :=
  (env.home.filter (· ≠ "")).or (env.accountHome.filter (· ≠ ""))

/-- A computation on a host that may fail, with the events that it logs. -/
structure Action (m : Type → Type) (α : Type) where
  logged : m (Except Error α × List Event)

namespace Action

variable {m : Type → Type} [Monad m] {α β : Type}

/-- The result alone. -/
def run (x : Action m α) : m (Except Error α) := Prod.fst <$> x.logged

def ofExcept (r : Except Error α) : Action m α := ⟨pure (r, [])⟩

def fail (e : Error) : Action m α := ofExcept (.error e)

/-- What is logged before a failure stays. -/
protected def bind (x : Action m α) (f : α → Action m β) : Action m β where
  logged := do
    match ← x.logged with
    | (.ok a, events) =>
      let (result, later) ← (f a).logged
      pure (result, events ++ later)
    | (.error e, events) => pure (.error e, events)

instance : Monad (Action m) where
  pure a := ofExcept (.ok a)
  bind := Action.bind

instance : MonadLift m (Action m) where
  monadLift x := ⟨(fun a => (.ok a, [])) <$> x⟩

def log (events : List Event) : Action m Unit := ⟨pure (.ok (), events)⟩

def ofFile (x : m (Except FileError α)) : Action m α where
  logged := (fun r => (r.mapError .file, [])) <$> x

def ofOption (e : Error) : Option α → Action m α
  | some a => pure a
  | none => fail e

end Action

namespace FileTree

/-- The result of an operation that changes the tree, which stays as it is when it fails. -/
def change (f : FileTree → Except FileError FileTree) : StateM FileTree (Except FileError Unit) :=
  fun t => match f t with
    | .ok t' => (.ok (), t')
    | .error e => (.error e, t)

/-- The host that is a file tree, with given bytes to read from the standard input. -/
def host (input : ByteArray) : Host (StateM FileTree) where
  readText path := fun t => (t.read path >>= decodeText, t)
  exists? path := fun t => (t.exists? path, t)
  isDirectory? path := fun t => (t.isDirectory? path, t)
  makeDirectory path := change fun t => t.makeDirectory path
  writeText path text := change fun t => t.write path text.toUTF8
  input := fun t => (decodeText input, t)

end FileTree
end SearchQuery
