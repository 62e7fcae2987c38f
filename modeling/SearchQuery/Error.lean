import SearchQuery.FileError

/-! # Errors

Everything that can go wrong around compiling and linting, which themselves never fail: reading
and writing files, and documents that do not say what they should. -/
namespace SearchQuery

inductive Error
  /-- A text is no JSON, or not of the form asked for. -/
  | json
  | file (e : FileError)
  | configSyntax (path : String)
  /-- A size too large for a TOML integer. -/
  | configSize
  | configExists (path : String)
  | noConfigDir
  | catalogSyntax
  | noCatalog
  /-- A mapping document without any properties. -/
  | noProperties
deriving DecidableEq, Repr

namespace Error

/-- The family of an error. -/
inductive Kind
  | json
  | io
  | config
  | catalog
deriving DecidableEq, Repr

def kind : Error → Kind
  | json => .json
  | file _ => .io
  | configSyntax _ | configSize | configExists _ | noConfigDir => .config
  | catalogSyntax | noCatalog | noProperties => .catalog

/-- The text of an error. What the reader or writer of a document reports, if it reports anything,
stands at its end. -/
def message (e : Error) (report : Option String := none) : String :=
  let detail := report.elim "" (": " ++ ·)
  match e with
  | json => "JSON error" ++ detail
  | file e => "IO error: " ++ e.text
  | configSyntax path => "Configuration error: Failed to parse " ++ path ++ detail
  | configSize => "Configuration error: Failed to serialize config" ++ detail
  | configExists path =>
    "Configuration error: " ++ path ++ " already exists (use --force to overwrite)"
  | noConfigDir => "Configuration error: Could not determine config directory"
  | catalogSyntax => "Catalog error: Failed to parse catalog" ++ detail
  | noCatalog =>
    "Catalog error: no catalog given; pass --catalog or set `catalog` in the config"
  | noProperties => "Catalog error: No `properties` found in mapping document"

end Error
end SearchQuery
