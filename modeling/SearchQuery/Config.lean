import SearchQuery.Condition
import SearchQuery.Host
import SearchQuery.Json.Parser
import SearchQuery.Toml.Parser
import SearchQuery.Toml.Writer

/-! # Configuration

The settings of the command line, kept in a TOML file in which every setting may be missing. A
file that does not exist stands for the defaults. -/
namespace SearchQuery

structure Config where
  /-- The catalog to use when none is given. -/
  catalog : Option String := none
  /-- The result size when neither the form nor the command line gives one. -/
  defaultSize : UInt64 := 0
  lintOnCompile : Bool := true
  strict : Bool := false
  pretty : Bool := true
deriving DecidableEq, Inhabited

namespace Config

open Document (Reader)

def members : List String := ["catalog", "default_size", "lint_on_compile", "strict", "pretty"]

def read : Reader Config := fun d doc => do
  let r ← Document.record? members d doc
  pure {
    catalog := ← r.getD "catalog" none (.nullable .text)
    defaultSize := ← r.getD "default_size" 0 .count
    lintOnCompile := ← r.getD "lint_on_compile" true .bool
    strict := ← r.getD "strict" false .bool
    pretty := ← r.getD "pretty" true .bool }

def toJson (c : Config) : Json :=
  .obj <| Json.optional "catalog" (c.catalog.map .str) ++
    [("default_size", .num (.ofCount c.defaultSize)), ("lint_on_compile", .bool c.lintOnCompile),
      ("strict", .bool c.strict), ("pretty", .bool c.pretty)]

/-- The TOML text, which has no integers above those of 64 bits with a sign. -/
def toToml (c : Config) : Except Error String :=
  if Json.signedLimit ≤ c.defaultSize.toNat then .error .configSize
  else
    let catalog := match c.catalog with
      | some path => Toml.pairLine "catalog" (Toml.stringChars path.toList)
      | none => []
    .ok <| String.ofList <| catalog ++
      Toml.pairLine "default_size" (Json.digitChars c.defaultSize.toNat) ++
      Toml.pairLine "lint_on_compile" (Json.boolChars c.lintOnCompile) ++
      Toml.pairLine "strict" (Json.boolChars c.strict) ++
      Toml.pairLine "pretty" (Json.boolChars c.pretty)

/-- The name of the configuration file when none is set. -/
def fileName : String := "lsq/config.toml"

/-- Where the configuration is: the path set for it, else a file below the directory for
configurations, which is one of the home directory unless another one is set. That one must be
absolute to count, and without a home directory it does not count either. -/
def path? (env : Environment) : Option String :=
  match env.config.filter (· ≠ "") with
  | some path => some path
  | none => env.home?.map fun home =>
    let dir := (env.configHome.filter Path.isAbsolute).getD (Path.join home ".config")
    Path.join dir fileName

variable {m : Type → Type} [Monad m]

/-- The configuration in a file. -/
def loadFrom (h : Host m) (path : String) : Action m Config := do
  if ← (h.exists? path : m _) then
    let text ← Action.ofFile (h.readText path)
    let config ← Action.ofOption (.configSyntax path) (Toml.read? read text)
    Action.log [.configLoaded path]
    pure config
  else
    Action.log [.noConfig path]
    pure {}

/-- The configuration of an environment. -/
def load (h : Host m) (env : Environment) : Action m Config :=
  match path? env with
  | some path => loadFrom h path
  | none => pure {}

/-- Writes the configuration to a file, in directories made for it. -/
def save (h : Host m) (c : Config) (path : String) : Action m Unit := do
  Action.ofFile (h.ensureDirectories (Path.above path))
  let text ← Action.ofExcept c.toToml
  Action.ofFile (h.writeText path text)

end Config
end SearchQuery
