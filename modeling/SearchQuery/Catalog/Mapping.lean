import SearchQuery.Catalog
import SearchQuery.Error

/-! # Catalogs of index mappings

A mapping is a tree of properties. The fields are its leaves, named by the path of property names
that leads to them, and their sub-fields; a property of type nested makes a scope for all that is
below it. Where several definitions have one name, the first one counts. -/
namespace SearchQuery.Catalog

/-- Where a property stands: its path, and the path of the nested object around it. -/
structure Scope where
  path : String := ""
  nested : Option String := none

/-- The path of a property. -/
def Scope.join (s : Scope) (name : String) : String :=
  if s.path = "" then name else s.path ++ "." ++ name

/-- The type that a property names. -/
def typeName? (property : Json) : Option String := (property.member? "type").bind Json.text?

/-- The sub-fields of a field, under their own names. -/
def subFields (path : String) (nested : Option String) (parts : List (String × Json)) :
    List Field :=
  (((parts.lookup "fields").bind Json.members?).getD []).map fun (name, sub) =>
    let type := FieldType.ofName ((typeName? sub).getD "")
    { name := path ++ "." ++ name
      type := type
      nestedPath := nested
      searchable := some true
      aggregatable := some type.isAggregatable }

/-- The field of a property without inner properties, after its sub-fields. The first sub-field
of the keyword family is its companion. -/
def leafFields (path : String) (nested : Option String) (parts : List (String × Json)) :
    List Field :=
  match (parts.lookup "type").bind Json.text? with
  | none => []
  | some name =>
    if name = "nested" ∨ name = "object" then []
    else
      let type := FieldType.ofName name
      let subs := subFields path nested parts
      subs ++ [{
        name := path
        type := type
        keywordField := (subs.find? fun f => f.type = .keyword).map Field.name
        nestedPath := nested
        searchable := some (((parts.lookup "index").bind Json.bool?).getD true)
        aggregatable := some type.isAggregatable }]

/-- The scope inside a property. -/
def Scope.enter (s : Scope) (name : String) (parts : List (String × Json)) : Scope :=
  let path := s.join name
  let isNested := (parts.lookup "type").bind Json.text? = some "nested"
  { path, nested := if isNested then some path else s.nested }

mutual

/-- The fields of some properties, in the order of their definitions. -/
def propertyFields (s : Scope) : List (String × Json) → List Field
  | [] => []
  | (name, property) :: rest => fieldsOf s name property ++ propertyFields s rest

/-- The fields of one property: those of its inner properties if it has an object of them. -/
def fieldsOf (s : Scope) (name : String) : Json → List Field
  | .obj parts =>
    match innerFields (s.enter name parts) parts with
    | some fs => fs
    | none => leafFields (s.join name) s.nested parts
  | _ => []

/-- The fields of the inner properties; none when there is no object of them. -/
def innerFields (s : Scope) : List (String × Json) → Option (List Field)
  | [] => none
  | (key, value) :: rest =>
    if key = "properties" then
      match value with
      | .obj properties => some (propertyFields s properties)
      | _ => none
    else innerFields s rest

end

/-- The object of properties in a mapping. -/
def properties? (mapping : Json) : Option (List (String × Json)) :=
  (mapping.member? "properties").bind Json.members?

/-- The objects of properties in a document: that of the document itself, or of its mappings, or
those of the mappings of every index in it. -/
def roots (doc : Json) : List (List (String × Json)) :=
  match properties? doc, (doc.member? "mappings").bind properties? with
  | some ps, _ => [ps]
  | none, some ps => [ps]
  | none, none =>
    (doc.members?.getD []).filterMap fun index => (index.2.member? "mappings").bind properties?

/-- The catalog of a mapping document. -/
def ofMapping (doc : Json) : Except Error Catalog :=
  match roots doc with
  | [] => .error .noProperties
  | rs => .ok ((rs.flatMap (propertyFields {})).foldl insertNew empty)

end SearchQuery.Catalog
