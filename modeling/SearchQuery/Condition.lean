import SearchQuery.Clause
import SearchQuery.Operator
import SearchQuery.Text.Count

/-! # Filter forms

A form is a list of conditions on fields, a timeframe and a result size. Forms are read
leniently: a member that is missing, null or of the wrong type takes its default, so a form that
is only partly filled in is still read; only lists and records must be what they are. -/
namespace SearchQuery

/-- A value is blank when it is null or a blank string. -/
def Json.isBlank : Json → Bool
  | .null => true
  | .str s => Text.isBlank s
  | _ => false

/-- The value, absent when there is none or it is blank. -/
def nonBlank? (v : Option Json) : Option Json := v.filter fun j => !j.isBlank

/-- One test on one field. -/
structure Condition where
  clause : Clause := .must
  field : String := ""
  operator : Operator := .unknown
  value : Option Json := none
  /-- The upper bound of `between`. -/
  value2 : Option Json := none
  /-- The nested path to use in place of the catalog's. -/
  nestedPath : Option String := none
  slop : Option UInt32 := none
deriving Inhabited

/-- A time range over a date field, which holds for all conditions. -/
structure Timeframe where
  field : String := ""
  gte : Option Json := none
  lte : Option Json := none
deriving Inhabited

structure FilterForm where
  conditions : List Condition := []
  timeframe : Option Timeframe := none
  size : Option UInt64 := none
deriving Inhabited

/-- A count given as a number or as its digits in a string, spaces around them apart; absent when
it is not below the bound, or no count at all. -/
def Json.count? (bound : Nat) (j : Json) : Option Nat :=
  let n := match j with
    | .num n => n.count?.map UInt64.toNat
    | .str s => Text.count? (Text.trim s)
    | _ => none
  n.filter (· < bound)

def Json.slop? (j : Json) : Option UInt32 := (j.count? UInt32.size).map UInt32.ofNat

def Json.size? (j : Json) : Option UInt64 := (j.count? UInt64.size).map UInt64.ofNat

open Document (Reader Record)

namespace Condition

def members : List String :=
  ["clause", "field", "operator", "value", "value2", "nestedPath", "slop"]

def read : Reader Condition := fun d doc => do
  let r ← Document.record? members d doc
  pure {
    clause := ← r.getD "clause" .must Clause.read
    field := ← r.getD "field" "" (Reader.json.map fun j => j.text?.getD "")
    operator := ← r.getD "operator" .unknown Operator.read
    value := ← r.getD "value" none (.nullable .json)
    value2 := ← r.getD "value2" none (.nullable .json)
    nestedPath := ← r.getD "nestedPath" none (Reader.json.map Json.text?)
    slop := ← r.getD "slop" none (Reader.json.map Json.slop?) }

def toJson (c : Condition) : Json :=
  .obj <| [("clause", .str c.clause.name), ("field", .str c.field),
      ("operator", .str c.operator.name)] ++
    Json.optional "value" c.value ++ Json.optional "value2" c.value2 ++
    Json.optional "nestedPath" (c.nestedPath.map .str) ++
    Json.optional "slop" (c.slop.map fun n => .num (.int n.toNat))

end Condition

namespace Timeframe

def members : List String := ["field", "gte", "lte"]

def read : Reader Timeframe := fun d doc => do
  let r ← Document.record? members d doc
  pure {
    field := ← r.getD "field" "" (Reader.json.map fun j => j.text?.getD "")
    gte := ← r.getD "gte" none (.nullable .json)
    lte := ← r.getD "lte" none (.nullable .json) }

def toJson (t : Timeframe) : Json :=
  .obj <| ("field", .str t.field) :: Json.optional "gte" t.gte ++ Json.optional "lte" t.lte

end Timeframe

namespace FilterForm

def members : List String := ["conditions", "timeframe", "size"]

def read : Reader FilterForm := fun d doc => do
  let r ← Document.record? members d doc
  pure {
    conditions := ← r.getD "conditions" []
      ((Reader.nullable (.list Condition.read)).map fun cs => cs.getD [])
    timeframe := ← r.getD "timeframe" none (.nullable Timeframe.read)
    size := ← r.getD "size" none (Reader.json.map Json.size?) }

def toJson (f : FilterForm) : Json :=
  .obj <| ("conditions", .arr (f.conditions.map Condition.toJson)) ::
    Json.optional "timeframe" (f.timeframe.map Timeframe.toJson) ++
    Json.optional "size" (f.size.map fun n => .num (.ofCount n))

end FilterForm
end SearchQuery
