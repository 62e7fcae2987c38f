import SearchQuery.Catalog
import SearchQuery.Condition
import SearchQuery.Event
import SearchQuery.Query

/-! # From forms to requests

Each condition becomes a leaf with a clause and perhaps a nested path, or nothing when it is only
partly filled in. Leaves without a nested path go to the buckets of the outer node; those that
share one are gathered in a single nested node, which goes as a whole to the first bucket that it
uses itself. The timeframe comes last. -/
namespace SearchQuery

/-- A leaf query waiting for its place. -/
structure Leaf where
  clause : Clause
  path : Option String
  query : Query

/-- Where an operator puts its leaf. -/
inductive Target
  /-- The clause of the condition. -/
  | asGiven
  /-- The filter, unless the condition is negated. -/
  | filtered
  | negated

def Target.clause (given : Clause) : Target → Clause
  | asGiven => given
  | filtered => if given = .mustNot then .mustNot else .filter
  | negated => .mustNot

namespace Condition

/-- A term on the companion of a text field or on a keyword field, a phrase otherwise. -/
def exactQuery (field : String) (info : Option Field) (value : Json) : Query :=
  match (info.map Field.type).getD .unknown, info.bind Field.keywordField with
  | .keyword, companion => .term (companion.getD field) value
  | .text, some companion => .term companion value
  | _, _ => .phrase field value 0

/-- The members of a set: the items of a list or the parts of a string between commas and line
breaks, blank ones left out and strings trimmed; any other value is a set of one. -/
def setMembers : Json → List Json
  | .arr items =>
    (items.filter fun j => !j.isBlank).map fun
      | .str s => .str (Text.trim s)
      | j => j
  | .str s =>
    (s.toList.splitOnP fun c => c = ',' || c = '\n').filterMap fun part =>
      (Text.trimmed? (String.ofList part)).map .str
  | .null => []
  | j => [j]

/-- The upper bound of a range that has none. -/
def defaultUpperBound : String := "now"

/-- A string as it is, any other value as its text. -/
def queryText : Json → String
  | .str s => s
  | j => j.compact

/-- The query that an operator makes of a field and a value, and where it goes. -/
def leafQuery (c : Condition) (field : String) (info : Option Field) (value : Json) :
    Option (Query × Target) :=
  let exactField := (info.bind Field.keywordField).getD field
  match c.operator with
  | .contains => some (.fullText field value, .asGiven)
  | .notContains => some (.fullText field value, .negated)
  | .phrase => some (.phrase field value (c.slop.getD 0), .asGiven)
  | .notPhrase => some (.phrase field value (c.slop.getD 0), .negated)
  | .equals | .exact => some (exactQuery field info value, .filtered)
  | .notExact => some (exactQuery field info value, .negated)
  | .in =>
    let values := setMembers value
    let target := if (info.map Field.type).getD .unknown = .keyword then field else exactField
    if values.isEmpty then none else some (.terms target values, .filtered)
  | .exists => some (.exists field, .filtered)
  | .notExists => some (.exists field, .negated)
  | .gt => some (.range field { gt := some value }, .filtered)
  | .gte => some (.range field { gte := some value }, .filtered)
  | .lt => some (.range field { lt := some value }, .filtered)
  | .lte => some (.range field { lte := some value }, .filtered)
  | .eq => some (.range field (.between value value), .filtered)
  | .neq => some (.term exactField value, .negated)
  | .between =>
    let upper := (nonBlank? c.value2).getD (.str defaultUpperBound)
    some (.range field (.between value upper), .filtered)
  | .queryString => some (.queryString (queryText value) (some field), .asGiven)
  | .unknown => none

/-- The nested path of a condition: its own if it is not blank, else that of the field. -/
def path? (c : Condition) (info : Option Field) : Option String :=
  (c.nestedPath.bind Text.trimmed?).or (info.bind Field.nested?)

/-- The leaf of a condition; none without a field, without a value that the operator needs,
without an operator, or with an empty set. -/
def leaf? (c : Condition) (catalog : Option Catalog) : Option Leaf := do
  let field ← Text.trimmed? c.field
  if c.operator.requiresValue && (nonBlank? c.value).isNone then none
  else
    let info := catalog.bind fun cat => cat.get? field
    let (query, target) ← c.leafQuery field info (c.value.getD .null)
    pure ⟨target.clause c.clause, c.path? info, query⟩

end Condition

/-- The range of a timeframe, if it names a field. -/
def Timeframe.query? (t : Timeframe) : Option Query :=
  (Text.trimmed? t.field).map fun field =>
    .range field
      { gte := nonBlank? t.gte
        lte := some ((nonBlank? t.lte).getD (.str Condition.defaultUpperBound)) }

/-- The leaves that share a nested path. -/
structure NestedGroup where
  path : String
  body : BoolQuery Query

namespace NestedGroup

/-- Adds a leaf to the group with its path, or to a new one at the end. -/
def add (path : String) (clause : Clause) (query : Query) : List NestedGroup → List NestedGroup
  | [] => [⟨path, ({} : BoolQuery Query).push clause query⟩]
  | g :: gs =>
    if g.path = path then { g with body := g.body.push clause query } :: gs
    else g :: add path clause query gs

end NestedGroup

/-- What the leaves so far make: the outer node and the nested groups. -/
structure Draft where
  outer : BoolQuery Query := {}
  groups : List NestedGroup := []

namespace Draft

def add (d : Draft) (l : Leaf) : Draft :=
  match l.path with
  | none => { d with outer := d.outer.push l.clause l.query }
  | some path => { d with groups := NestedGroup.add path l.clause l.query d.groups }

/-- A group goes as a whole to the first bucket that it uses. -/
def place (outer : BoolQuery Query) (g : NestedGroup) : BoolQuery Query :=
  match g.body.primary? with
  | none => outer
  | some clause => outer.push clause (.nested g.path (.bool g.body))

/-- The outer node with the groups and the timeframe in place. -/
def assemble (d : Draft) (timeframe : Option Query) : BoolQuery Query :=
  let outer := d.groups.foldl place d.outer
  match timeframe with
  | none => outer
  | some range => outer.push .filter range

end Draft

namespace FilterForm

def leaves (f : FilterForm) (catalog : Option Catalog) : List Leaf :=
  f.conditions.filterMap fun c => c.leaf? catalog

/-- The request of a form. -/
def compile (f : FilterForm) (catalog : Option Catalog) : Request :=
  let draft := (f.leaves catalog).foldl Draft.add {}
  let outer := draft.assemble (f.timeframe.bind Timeframe.query?)
  { size := f.size.getD 0
    query := if outer.isEmpty then .matchAll else .bool { outer with adjustPureNegative := true } }

end FilterForm

/-! ### Events -/

/-- What is logged of a condition: its leaf, or why it has none. -/
def Condition.event (c : Condition) (catalog : Option Catalog) (index : Nat) : Event :=
  match Text.trimmed? c.field, c.leaf? catalog with
  | none, _ => .noField c.operator
  | some _, some leaf => .compiled index leaf.clause leaf.path
  | some field, none =>
    if c.operator.requiresValue && (nonBlank? c.value).isNone then .noValue field c.operator
    else if c.operator = .in then .emptySet field
    else .noOperator field

def NestedGroup.event? (g : NestedGroup) : Option Event := g.body.primary?.map (.placed g.path)

/-- What is logged of a timeframe, which is left out when it names no field. -/
def Timeframe.event? (t : Timeframe) : Option Event :=
  if Text.isBlank t.field then some .noTimeframeField else none

/-- What is logged when a form is compiled. -/
def FilterForm.events (f : FilterForm) (catalog : Option Catalog) : List Event :=
  let draft := (f.leaves catalog).foldl Draft.add {}
  (f.conditions.zipIdx.map fun c => c.1.event catalog c.2) ++
    draft.groups.filterMap NestedGroup.event? ++ (f.timeframe.bind Timeframe.event?).toList

end SearchQuery
