import SearchQuery.Naming

/-! # Operators

The tests that a condition can make on a field. -/
namespace SearchQuery

inductive Operator
  | contains
  | notContains
  | phrase
  | notPhrase
  | equals
  | exact
  | notExact
  | in
  | exists
  | notExists
  | gt
  | gte
  | lt
  | lte
  | eq
  | neq
  | between
  | queryString
  | unknown
deriving DecidableEq, Repr

namespace Operator

instance : Inhabited Operator := ⟨unknown⟩

/-- Every operator that stands for a test. -/
def known : List Operator :=
  [contains, notContains, phrase, notPhrase, equals, exact, notExact, .in, .exists, notExists,
    gt, gte, lt, lte, eq, neq, between, queryString]

def name : Operator → String
  | contains => "contains"
  | notContains => "not_contains"
  | phrase => "phrase"
  | notPhrase => "not_phrase"
  | equals => "equals"
  | exact => "exact"
  | notExact => "not_exact"
  | .in => "in"
  | .exists => "exists"
  | notExists => "not_exists"
  | gt => "gt"
  | gte => "gte"
  | lt => "lt"
  | lte => "lte"
  | eq => "eq"
  | neq => "neq"
  | between => "between"
  | queryString => "query_string"
  | unknown => "unknown"

/-- Operators by name; any other name stands for `unknown`. -/
def naming : Naming Operator where
  name := name
  all := known
  fallback := unknown
  find_name o := by cases o <;> decide
  trim_name o := by cases o <;> decide

def ofName : String → Operator := naming.ofName

/-- Whether the test needs a value to compare with. -/
def requiresValue : Operator → Bool
  | .exists | notExists => false
  | _ => true

def read : Document.Reader Operator := naming.read

end Operator
end SearchQuery
