import SearchQuery.FieldType
import SearchQuery.Lint.Message

/-! # Findings

What can be wrong with a request, and where: a finding is a problem at the end of a trail of
members and indices that leads from the top of the document to it. -/
namespace SearchQuery.Lint

/-- One step down into a document. -/
inductive Step
  | member (name : String)
  | index (i : Nat)
deriving DecidableEq

abbrev Trail := List Step

namespace Trail

/-- The text of the steps after the first one. -/
def tailText : Trail → String
  | [] => ""
  | .member name :: rest => "." ++ name ++ tailText rest
  | .index i :: rest => "[" ++ String.ofList (Json.digitChars i) ++ "]" ++ tailText rest

def text : Trail → String
  | .member name :: rest => name ++ tailText rest
  | t => tailText t

end Trail

inductive Problem
  /-- The request has no query. -/
  | missingQuery
  /-- A nested node does not say which path it is about. -/
  | nestedWithoutPath
  /-- No field of the catalog starts with the path of a nested node. -/
  | unknownNestedPath (path : String)
  /-- Query strings are fragile. -/
  | queryString
  /-- A field of a nested object is used outside a nested node for it. -/
  | outsideNested (field path : String)
  /-- A text field without a companion cannot be matched exactly. -/
  | exactOnText (kind field : String)
  /-- A keyword field is not analysed. -/
  | matchOnKeyword (kind field : String)
  /-- The type has no order to range over. -/
  | rangeOn (type : FieldType) (field : String)
deriving DecidableEq

namespace Problem

def level : Problem → Level
  | missingQuery | nestedWithoutPath | outsideNested .. => .error
  | unknownNestedPath .. | queryString | exactOnText .. | matchOnKeyword .. | rangeOn .. => .warn

def text : Problem → String
  | missingQuery => "missing query: request has no top-level `query`"
  | nestedWithoutPath => "nested query without `path`"
  | unknownNestedPath path => "nested path '" ++ path ++ "' matches no catalog field"
  | queryString => "query_string has lenient, fragile syntax; prefer structured leaves"
  | outsideNested field path =>
    "field '" ++ field ++ "' belongs to nested path '" ++ path ++
      "' but is used outside its nested wrapper"
  | exactOnText kind field =>
    kind ++ " used on text field '" ++ field ++ "' which has no keyword companion"
  | matchOnKeyword kind field =>
    kind ++ " used on keyword field '" ++ field ++ "'; use term instead"
  | rangeOn type field => "range used on " ++ type.name ++ " field '" ++ field ++ "'"

end Problem

structure Finding where
  problem : Problem
  trail : Trail
deriving DecidableEq

def Finding.message (f : Finding) : Message := ⟨f.problem.level, f.problem.text, f.trail.text⟩

end SearchQuery.Lint
