import SearchQuery.Command.Run

/-! # The program

Runs a command line on the machine. -/
namespace SearchQuery

/-- The cause of an error that the machine reports. -/
def FileError.ofMachine : IO.Error → FileError
  | .noFileOrDirectory .. => .notFound
  | .alreadyExists .. => .exists
  | .inappropriateType _ code details =>
    if code = 21 then .isDirectory else if code = 20 then .notDirectory else .other details
  | .invalidArgument _ code details => if code = 36 then .nameTooLong else .other details
  | e => .other (toString e)

/-- What an operation on a path of the machine gives. -/
def onPath {α : Type} (path : String) (x : IO α) : IO (Except FileError α) := do
  match Path.check path with
  | .error e => pure (.error e)
  | .ok () =>
    match ← x.toBaseIO with
    | .ok a => pure (.ok a)
    | .error e => pure (.error (.ofMachine e))

/-- The machine itself. -/
def machine : Host IO where
  readText path := do
    pure ((← onPath path (IO.FS.withFile path .read fun h => h.readBinToEnd)) >>= decodeText)
  exists? path := do pure (← onPath path (IO.FS.realPath path)).isOk
  isDirectory? path := do
    match ← onPath path do (← IO.FS.realPath path).isDir with
    | .ok there => pure there
    | .error _ => pure false
  makeDirectory path := onPath path (IO.FS.createDir path)
  writeText path text := onPath path (IO.FS.writeFile path text)
  input := do
    match ← ((← IO.getStdin).readBinToEnd).toBaseIO with
    | .ok bytes => pure (decodeText bytes)
    | .error e => pure (.error (.ofMachine e))

/-- The home directory of the user with a number, in the text of the list of accounts. -/
def homeOf? (user accounts : String) : Option String :=
  (accounts.splitOn "\n").findSome? fun entry =>
    match entry.splitOn ":" with
    | [_, _, number, _, _, home, _] => if number = user then some home else none
    | _ => none

/-- The number of the user who runs the program, in the text of its status. -/
def userOf? (status : String) : Option String :=
  (status.splitOn "\n").findSome? fun entry =>
    match entry.splitOn "\t" with
    | "Uid:" :: number :: _ => some number
    | _ => none

/-- The home directory of the account that runs the program. -/
def machineHome? : IO (Option String) := do
  match ← machine.readText "/proc/self/status", ← machine.readText "/etc/passwd" with
  | .ok status, .ok accounts => pure ((userOf? status).bind fun user => homeOf? user accounts)
  | _, _ => pure none

/-- The filter with the name of a level lets through all events from that level on. -/
def levelFilter? (name : String) : Option (Event → Bool) :=
  ([.trace, .debug, .info, .warn, .error].find? fun l : Level => l.name = name.toUpper).map
    fun level e => level.rank ≤ e.level.rank

end SearchQuery

def main (args : List String) : IO UInt32 := do
  let env : SearchQuery.Environment :=
    { config := ← IO.getEnv "LSQ_CONFIG"
      home := ← IO.getEnv "HOME"
      accountHome := ← SearchQuery.machineHome?
      configHome := ← IO.getEnv "XDG_CONFIG_HOME"
      log := ← IO.getEnv "LSQ_LOG" }
  let console : SearchQuery.Command.Console := { filter? := SearchQuery.levelFilter? }
  let outcome ← SearchQuery.Command.runLine SearchQuery.machine env args console
  IO.print outcome.output
  IO.eprint outcome.errors
  pure (UInt32.ofNat outcome.exitCode)
