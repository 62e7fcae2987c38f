import SearchQuery.FieldType
import SearchQuery.Text.Blank

/-! # Fields

What a catalog knows of one field: its type, the companion field for exact matches, and the
nested object it belongs to. -/
namespace SearchQuery

structure Field where
  name : String := ""
  type : FieldType := .unknown
  /-- The companion field on which exact matches are made. -/
  keywordField : Option String := none
  nestedPath : Option String := none
  searchable : Option Bool := none
  aggregatable : Option Bool := none
deriving DecidableEq, Inhabited

namespace Field

/-- The field to match exactly: the companion if there is one. -/
def exactField (f : Field) : String := f.keywordField.getD f.name

def hasCompanion (f : Field) : Bool := f.keywordField.isSome

/-- The nested path, trimmed; a blank one counts as none. -/
def nested? (f : Field) : Option String := f.nestedPath.bind Text.trimmed?

def toJson (f : Field) : Json :=
  .obj <| [("name", .str f.name), ("type", .str f.type.name)] ++
    Json.optional "keywordField" (f.keywordField.map .str) ++
    Json.optional "nestedPath" (f.nestedPath.map .str) ++
    Json.optional "searchable" (f.searchable.map .bool) ++
    Json.optional "aggregatable" (f.aggregatable.map .bool)

open Document (Reader)

def members : List String :=
  ["name", "type", "keywordField", "nestedPath", "searchable", "aggregatable"]

def read : Reader Field := fun d doc => do
  let r ← Document.record? members d doc
  pure {
    name := ← r.getD "name" "" .text
    type := ← r.getD "type" .unknown FieldType.read
    keywordField := ← r.getD "keywordField" none (.nullable .text)
    nestedPath := ← r.getD "nestedPath" none (.nullable .text)
    searchable := ← r.getD "searchable" none (.nullable .bool)
    aggregatable := ← r.getD "aggregatable" none (.nullable .bool) }

end Field
end SearchQuery
