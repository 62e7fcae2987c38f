import SearchQuery.Command.Line
import SearchQuery.Text.Count

/-! # Invocations

The commands, with their options, and how they are given on the command line. -/
namespace SearchQuery.Command

/-- Files are named by path; a missing input file stands for the standard input. -/
inductive Task
  | compile (file catalog : Option String) (size : Option UInt64) (lint compact : Bool)
  | lint (file catalog : Option String) (strict : Bool)
  | listCatalog (pattern catalog : Option String)
  | importCatalog (mapping : String) (output : Option String)
  | showConfig
  | initConfig (force : Bool)
deriving DecidableEq, Repr

structure Invocation where
  config : Option String
  verbose : Bool
  task : Task
deriving DecidableEq, Repr

def isPath (s : String) : Bool := s ≠ ""

def size? (s : String) : Option UInt64 :=
  ((Text.count? s).filter (· < UInt64.size)).map UInt64.ofNat

/-- The switches that every level has. -/
def common : List Switch := [⟨"config", none, some isPath⟩, ⟨"verbose", some 'v', none⟩]

def catalogSwitch : Switch := ⟨"catalog", some 'k', some isPath⟩

def topLevel : Level where
  switches := common
  subcommands := ["compile", "c", "lint", "l", "catalog", "config", "help"]
  hasVersion := true

def compileLevel : Level where
  switches := common ++
    [catalogSwitch, ⟨"size", some 's', some fun s => (size? s).isSome⟩, ⟨"no-lint", none, none⟩,
      ⟨"compact", none, none⟩]
  positionals := [isPath]

def lintLevel : Level where
  switches := common ++ [catalogSwitch, ⟨"strict", none, none⟩]
  positionals := [isPath]

def catalogLevel : Level where
  switches := common
  subcommands := ["list", "import", "help"]

def listLevel : Level where
  switches := common ++ [catalogSwitch]
  positionals := [fun _ => true]

def importLevel : Level where
  switches := common ++ [⟨"output", some 'o', some isPath⟩]
  positionals := [isPath]

def configLevel : Level where
  switches := common
  subcommands := ["show", "init", "help"]

def showLevel : Level where
  switches := common

def initLevel : Level where
  switches := common ++ [⟨"force", some 'f', none⟩]

/-- The chains of subcommands that help can be asked for. -/
def topics : List (List String) :=
  [[], ["compile"], ["c"], ["lint"], ["l"], ["catalog"], ["catalog", "list"],
    ["catalog", "import"], ["catalog", "help"], ["config"], ["config", "show"],
    ["config", "init"], ["config", "help"], ["help"]]

def helpOn (chain : List String) : Stop := if topics.contains chain then .help else .usage

/-- The invocation that the levels give, from the top down: a switch given further down wins. -/
def Invocation.ofLevels (levels : List Given) (task : Task) : Invocation where
  config := levels.reverse.findSome? fun g => g.value? "config"
  verbose := levels.any fun g => g.has "verbose"
  task

/-- The tasks on catalogs. -/
def catalogTask (levels : List Given) (name : String) (args : List String) :
    Except Stop Invocation := do
  if name = "list" then
    let g ← listLevel.read {} .any args
    pure (.ofLevels (levels ++ [g]) (.listCatalog g.positionals[0]? (g.value? "catalog")))
  else if name = "import" then
    let g ← importLevel.read {} .any args
    match g.positionals[0]? with
    | some mapping => pure (.ofLevels (levels ++ [g]) (.importCatalog mapping (g.value? "output")))
    | none => throw .usage
  else throw (helpOn ("catalog" :: args))

/-- The tasks on the configuration. -/
def configTask (levels : List Given) (name : String) (args : List String) :
    Except Stop Invocation := do
  if name = "show" then
    let g ← showLevel.read {} .any args
    pure (.ofLevels (levels ++ [g]) .showConfig)
  else if name = "init" then
    let g ← initLevel.read {} .any args
    pure (.ofLevels (levels ++ [g]) (.initConfig (g.has "force")))
  else throw (helpOn ("config" :: args))

/-- The invocation that a command line asks for. -/
def Invocation.parse (args : List String) : Except Stop Invocation := do
  let top ← topLevel.read {} .any args
  match top.subcommand with
  | none => throw .usage
  | some (name, args) =>
    if name = "compile" ∨ name = "c" then
      let g ← compileLevel.read {} .any args
      pure (.ofLevels [top, g]
        (.compile g.positionals[0]? (g.value? "catalog") ((g.value? "size").bind size?)
          (!g.has "no-lint") (g.has "compact")))
    else if name = "lint" ∨ name = "l" then
      let g ← lintLevel.read {} .any args
      pure (.ofLevels [top, g]
        (.lint g.positionals[0]? (g.value? "catalog") (g.has "strict")))
    else if name = "catalog" then
      let g ← catalogLevel.read {} .any args
      match g.subcommand with
      | some (name, args) => catalogTask [top, g] name args
      | none => throw .usage
    else if name = "config" then
      let g ← configLevel.read {} .any args
      match g.subcommand with
      | some (name, args) => configTask [top, g] name args
      | none => throw .usage
    else throw (helpOn args)

end SearchQuery.Command
