import SearchQuery.Catalog
import SearchQuery.Host
import SearchQuery.Json.Parser
import SearchQuery.Toml.Parser

/-! # Catalog files

Catalogs as JSON or TOML records of fields, by key. -/
namespace SearchQuery.Catalog

def ofJsonText (text : String) : Except Error Catalog :=
  match Json.read? read text with
  | some c => .ok c
  | none => .error .json

def ofTomlText (text : String) : Except Error Catalog :=
  match Toml.read? read text with
  | some c => .ok c
  | none => .error .catalogSyntax

/-- The text that is written for a catalog. -/
def text (c : Catalog) : String := c.toJson.pretty

/-- The catalog in a file, which is TOML when its name says so and JSON otherwise. -/
def load {m : Type → Type} [Monad m] (h : Host m) (path : String) : Action m Catalog := do
  let text ← Action.ofFile (h.readText path)
  let read := if Path.extension? path = some "toml" then ofTomlText else ofJsonText
  let catalog ← Action.ofExcept (read text)
  Action.log [.catalogLoaded path catalog.size]
  pure catalog

end SearchQuery.Catalog
