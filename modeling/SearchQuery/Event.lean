import SearchQuery.Clause
import SearchQuery.Json.Printer
import SearchQuery.Operator

/-! # Events

What is logged on the way: which files were read, what became of each condition, and how a lint
went. -/
namespace SearchQuery

inductive Level
  | trace
  | debug
  | info
  | warn
  | error
deriving DecidableEq, Repr

namespace Level

def name : Level → String
  | trace => "TRACE"
  | debug => "DEBUG"
  | info => "INFO"
  | warn => "WARN"
  | error => "ERROR"

def rank : Level → Nat
  | trace => 0
  | debug => 1
  | info => 2
  | warn => 3
  | error => 4

end Level

inductive Event
  /-- There is no file with a configuration. -/
  | noConfig (path : String)
  | configLoaded (path : String)
  | catalogLoaded (path : String) (fields : Nat)
  | compiling (conditions : Nat) (catalog : Bool)
  /-- The condition at an index has become a leaf. -/
  | compiled (index : Nat) (clause : Clause) (path : Option String)
  | noField (operator : Operator)
  | noValue (field : String) (operator : Operator)
  | emptySet (field : String)
  | noOperator (field : String)
  /-- A nested group has been placed in a bucket. -/
  | placed (path : String) (clause : Clause)
  | noTimeframeField
  | linted (ok : Bool) (messages : Nat)
deriving DecidableEq, Repr

namespace Event

def level : Event → Level
  | compiled .. | placed .. => .trace
  | _ => .debug

def message : Event → String
  | noConfig _ => "no config file, using defaults"
  | configLoaded _ => "loaded config"
  | catalogLoaded .. => "loaded field catalog"
  | compiling .. => "compiling input"
  | compiled .. => "compiled condition"
  | noField _ => "dropping condition without field"
  | noValue .. => "dropping condition without value"
  | emptySet _ => "dropping `in` condition with empty set"
  | noOperator _ => "dropping condition with unknown operator"
  | placed .. => "placed nested group"
  | noTimeframeField => "ignoring timeframe without field"
  | linted .. => "linted query tree"

/-- The details, by name. -/
def details : Event → List (String × Json)
  | noConfig path | configLoaded path => [("path", .str path)]
  | catalogLoaded path fields => [("path", .str path), ("fields", .num (.int fields))]
  | compiling conditions catalog =>
    [("conditions", .num (.int conditions)), ("catalog", .bool catalog)]
  | compiled index clause path =>
    [("index", .num (.int index)), ("clause", .str clause.name),
      ("nested", (path.map Json.str).getD .null)]
  | noField operator => [("operator", .str operator.name)]
  | noValue field operator => [("field", .str field), ("operator", .str operator.name)]
  | emptySet field | noOperator field => [("field", .str field)]
  | placed path clause => [("path", .str path), ("clause", .str clause.name)]
  | noTimeframeField => []
  | linted ok messages => [("ok", .bool ok), ("messages", .num (.int messages))]

/-- The text of an event, with its details. -/
def text (e : Event) : String :=
  e.level.name ++ " " ++ e.message ++
    String.join (e.details.map fun d => " " ++ d.1 ++ "=" ++ d.2.compact)

end Event
end SearchQuery
