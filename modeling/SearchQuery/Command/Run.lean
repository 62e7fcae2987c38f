import SearchQuery.Catalog.Mapping
import SearchQuery.Catalog.Text
import SearchQuery.Command.Invocation
import SearchQuery.Compile
import SearchQuery.Config
import SearchQuery.Lint.Walk
import SearchQuery.Text.Column

/-! # Running commands

What each command does on a host: first it reads everything it needs, then it changes a file if
that is its task, and only then it reports, so a command that fails prints nothing but its
error. -/
namespace SearchQuery.Command

/-- What a command leaves behind: its exit code and what it prints. -/
structure Outcome where
  exitCode : Nat := 0
  output : String := ""
  errors : String := ""
deriving DecidableEq, Repr

def line (s : String) : String := s ++ "\n"

def Outcome.ofError (e : Error) (report : Option String := none) : Outcome :=
  { exitCode := 1, errors := line ("Error: " ++ e.message report) }

/-- Puts a log in front of all else on the standard error. -/
def Outcome.withLog (log : String) (o : Outcome) : Outcome := { o with errors := log ++ o.errors }

variable {m : Type → Type} [Monad m]

def loadConfig (h : Host m) (env : Environment) : Option String → Action m Config
  | some path => Config.loadFrom h path
  | none => Config.load h env

/-- The catalog given, else that of the configuration, if there is one. -/
def loadCatalog (h : Host m) (config : Config) (given : Option String) :
    Action m (Option Catalog) :=
  match given.or config.catalog with
  | some path => do pure (some (← Catalog.load h path))
  | none => pure none

/-- The text of a file or of the standard input. -/
def readInput (h : Host m) : Option String → Action m String
  | some path => .ofFile (h.readText path)
  | none => .ofFile h.input

/-- Reads a document in a text. -/
def readDocument {α : Type} (read : Document.Reader α) (text : String) : Action m α :=
  .ofOption .json (Json.read? read text)

/-- The request of a form, whose size may be that of the command line or the configuration. -/
def requestOf (config : Config) (catalog : Option Catalog) (form : FilterForm)
    (size : Option UInt64) : Request :=
  ({ form with size := some (form.size.getD (size.getD config.defaultSize)) } : FilterForm).compile
    catalog

/-- The request of a form, with the messages of a lint on it. -/
def compileForm (config : Config) (catalog : Option Catalog) (form : FilterForm)
    (size : Option UInt64) (lint compact : Bool) : Outcome :=
  let request := requestOf config catalog form size
  let messages :=
    if lint && config.lintOnCompile then (request.lint catalog).messages else []
  { output := line (request.toJson.text (config.pretty && !compact))
    errors := String.join (messages.map fun m => line m.line) }

/-- What is logged on the way to the request of a form, and by the lint on it. -/
def compileEvents (config : Config) (catalog : Option Catalog) (form : FilterForm)
    (size : Option UInt64) (lint : Bool) : List Event :=
  .compiling form.conditions.length catalog.isSome :: form.events catalog ++
    if lint && config.lintOnCompile then
      Lint.events catalog (requestOf config catalog form size).toJson
    else []

/-- The report on a request; a request that fails it has an exit code of its own, and so has one
with warnings when these count. -/
def lintRequest (config : Config) (catalog : Option Catalog) (request : Json) (strict : Bool) :
    Outcome :=
  let report := Lint.lint catalog request
  { exitCode := if !report.ok || (strict || config.strict) && report.hasWarnings then 2 else 0
    output := line (report.toJson.text config.pretty) }

def row (field type exact nested : String) : String :=
  line (Text.padRight 32 field ++ " " ++ Text.padRight 14 type ++ " " ++
    Text.padRight 32 exact ++ " " ++ nested)

def fieldRow (f : Field) : String :=
  row f.name f.type.name f.exactField (f.nested?.getD "-")

/-- The table of fields, or a remark when there are none. -/
def listing (catalog : Catalog) (pattern : Option String) : String :=
  let fields := match pattern with
    | some p => catalog.matching p
    | none => catalog.fields
  if fields.isEmpty then
    line (if pattern.isSome then "No fields matching pattern." else "Catalog is empty.")
  else
    row "FIELD" "TYPE" "EXACT" "NESTED" ++ line (String.ofList (List.replicate 90 '-')) ++
      String.join (fields.map fieldRow)

/-- Writes the catalog of a mapping to a file, or prints it. -/
def importMapping (h : Host m) (mapping : String) (output : Option String) :
    Action m Outcome := do
  let doc ← readDocument .json (← Action.ofFile (h.readText mapping))
  let catalog ← Action.ofExcept (Catalog.ofMapping doc)
  match output with
  | none => pure { output := line catalog.text }
  | some path =>
    Action.ofFile (h.writeText path (line catalog.text))
    pure { output := line ("Wrote " ++ String.ofList (Json.digitChars catalog.size) ++
      " fields to " ++ path) }

/-- Writes the default configuration, over an existing file only when forced to. -/
def initConfig (h : Host m) (env : Environment) (given : Option String) (force : Bool) :
    Action m Outcome := do
  let path ← Action.ofOption .noConfigDir (given.or (Config.path? env))
  if (← (h.exists? path : m _)) && !force then
    Action.fail (.configExists path)
  Config.save h {} path
  pure { output := line ("Wrote default config to " ++ path) }

/-- What a task does, given where the configuration is. -/
def perform (h : Host m) (env : Environment) (config : Option String) :
    Task → Action m Outcome
  | .compile file catalog size lint compact => do
    let config ← loadConfig h env config
    let catalog ← loadCatalog h config catalog
    let form ← readDocument FilterForm.read (← readInput h file)
    Action.log (compileEvents config catalog form size lint)
    pure (compileForm config catalog form size lint compact)
  | .lint file catalog strict => do
    let config ← loadConfig h env config
    let catalog ← loadCatalog h config catalog
    let request ← readDocument .json (← readInput h file)
    Action.log (Lint.events catalog request)
    pure (lintRequest config catalog request strict)
  | .listCatalog pattern catalog => do
    let config ← loadConfig h env config
    match ← loadCatalog h config catalog with
    | some catalog => pure { output := listing catalog pattern }
    | none => Action.fail .noCatalog
  | .importCatalog mapping output => importMapping h mapping output
  | .showConfig => do
    let config ← loadConfig h env config
    let text ← Action.ofExcept config.toToml
    pure { output := text }
  | .initConfig force => initConfig h env config force

/-- How errors and events are worded. -/
structure Console where
  /-- What the reader or writer of a document reports with an error, if it reports anything. -/
  report : Error → Option String := fun _ => none
  /-- The events that the text of a filter lets through, if it is one. -/
  filter? : String → Option (Event → Bool) := fun _ => none
  /-- What is printed for an event. -/
  text : Event → String := fun e => line e.text

namespace Console

/-- Verbose runs show all events but the finest. The others show those that their filter lets
through, or warnings where there is none. -/
def shows (c : Console) (verbose : Bool) (filter : Option String) (e : Event) : Bool :=
  if verbose then Level.debug.rank ≤ e.level.rank
  else match filter.bind c.filter? with
    | some passes => passes e
    | none => Level.warn.rank ≤ e.level.rank

/-- What is printed for some events, one after the other. -/
def log (c : Console) (verbose : Bool) (filter : Option String) (events : List Event) : String :=
  String.join ((events.filter (c.shows verbose filter)).map c.text)

end Console

/-- Runs an invocation. Its events are printed before all else on the standard error, for the
messages of a lint are printed when the lint is over, and an error ends the run. -/
def run (h : Host m) (env : Environment) (inv : Invocation) (console : Console := {}) :
    m Outcome := do
  let (result, events) ← (perform h env inv.config inv.task).logged
  let outcome := match result with
    | .ok outcome => outcome
    | .error e => .ofError e (console.report e)
  pure (outcome.withLog (console.log inv.verbose env.log events))

def synopsis : String :=
  line "Usage: lsq [--config FILE] [-v] COMMAND" ++
  line "Commands:" ++
  line "  compile [FILE] [-k FILE] [-s N] [--no-lint] [--compact]" ++
  line "  lint [FILE] [-k FILE] [--strict]" ++
  line "  catalog list [PATTERN] [-k FILE]" ++
  line "  catalog import MAPPING [-o FILE]" ++
  line "  config show" ++
  line "  config init [-f]"

/-- What is printed instead of running a command. -/
def Stop.outcome : Stop → Outcome
  | help => { output := synopsis }
  | version => { output := line "lsq 0.1.0" }
  | usage => { exitCode := 2, errors := synopsis }

/-- Runs a command line. -/
def runLine (h : Host m) (env : Environment) (args : List String) (console : Console := {}) :
    m Outcome :=
  match Invocation.parse args with
  | .ok inv => run h env inv console
  | .error stop => pure stop.outcome

end SearchQuery.Command
