import SearchQuery.Catalog
import SearchQuery.Clause
import SearchQuery.Event
import SearchQuery.Query
import SearchQuery.Lint.Finding

/-! # Walking a request

A query node is an object; each of its members is a query of the kind that the member's name
says. A kind has slots, the members of its body that hold further nodes. The walk visits the
members of a node in their order and the slots of a kind in the order given here, and carries the
scope: the path of the innermost nested node. -/
namespace SearchQuery.Lint

/-- What a slot holds: one node, a list of nodes, or either. -/
inductive Slot
  | one
  | many
  | either
deriving DecidableEq

def Slot.takesOne : Slot → Bool
  | one | either => true
  | many => false

def Slot.takesMany : Slot → Bool
  | many | either => true
  | one => false

/-- The slots of a kind of query. -/
def slots (kind : String) : List (String × Slot) :=
  if kind = "bool" then Clause.all.map fun c => (c.name, .either)
  else if kind = "nested" then [("query", .one)]
  else if kind = "constant_score" then [("filter", .one)]
  else if kind = "function_score" then [("query", .one)]
  else if kind = "boosting" then [("positive", .one), ("negative", .one)]
  else if kind = "dis_max" then [("queries", .many)]
  else []

/-- The kinds whose body is keyed by a field. -/
def fieldKinds : List String :=
  ["term", "terms", "match", "match_phrase", "match_phrase_prefix", "prefix", "wildcard",
    "regexp", "fuzzy", "range"]

/-- Members of such a body that are parameters and not the field. -/
def parameters : List String := ["boost", "_name"]

/-- The field of a body keyed by it: the first member that is no parameter. -/
def keyedField? (body : Json) : Option String :=
  (body.members?.getD []).map Prod.fst |>.find? fun name => !parameters.contains name

/-- The path that a nested node names. -/
def nestedPath? (body : Json) : Option String := (body.member? "path").bind Json.text?

/-- The field that a query of this kind is about. -/
def field? (kind : String) (body : Json) : Option String :=
  if kind = "exists" then (body.member? "field").bind Json.text?
  else if kind = "query_string" then (body.member? "default_field").bind Json.text?
  else if fieldKinds.contains kind then keyedField? body
  else none

/-- A field of a nested object must be used in its scope. -/
def scopeProblems (scope : Option String) (name : String) (f : Field) : List Problem :=
  match f.nested? with
  | some path => if scope = some path then [] else [.outsideNested name path]
  | none => []

/-- A kind of query must suit the type of its field. -/
def typeProblems (kind name : String) (f : Field) : List Problem :=
  if kind = "term" ∨ kind = "terms" then
    if f.type = .text ∧ !f.hasCompanion then [.exactOnText kind name] else []
  else if kind = "match" ∨ kind = "match_phrase" then
    if f.type = .keyword then [.matchOnKeyword kind name] else []
  else if kind = "range" then
    if f.type.isRangeable then [] else [.rangeOn f.type name]
  else []

/-- What the catalog says about a field in a query; nothing about a field it does not have. -/
def fieldProblems (catalog : Option Catalog) (scope : Option String) (kind name : String) :
    List Problem :=
  match catalog.bind fun c => c.get? name with
  | none => []
  | some f => scopeProblems scope name f ++ typeProblems kind name f

/-- What is wrong with the path of a nested node. -/
def pathProblems (catalog : Option Catalog) (body : Json) : List Problem :=
  match nestedPath? body with
  | none => [.nestedWithoutPath]
  | some path =>
    match catalog with
    | some c => if c.hasKeyPrefix path then [] else [.unknownNestedPath path]
    | none => []

/-- The problems of one member of a node, those of the nodes in its slots left aside. -/
def memberProblems (catalog : Option Catalog) (scope : Option String) (kind : String)
    (body : Json) : List Problem :=
  if kind = "nested" then pathProblems catalog body
  else
    ((field? kind body).map (fieldProblems catalog scope kind)).getD [] ++
      if kind = "query_string" then [.queryString] else []

/-- The scope in the slots of a member; none when a nested node names no path, for then its slot
is not visited. -/
def innerScope? (scope : Option String) (kind : String) (body : Json) :
    Option (Option String) :=
  if kind = "nested" then (nestedPath? body).map some else some scope

mutual

/-- The findings in a node and below it. -/
def findings (catalog : Option Catalog) (scope : Option String) (trail : Trail) :
    Json → List Finding
  | .obj members => memberFindings catalog scope trail members
  | _ => []

def memberFindings (catalog : Option Catalog) (scope : Option String) (trail : Trail) :
    List (String × Json) → List Finding
  | [] => []
  | (kind, body) :: rest =>
    let here := trail ++ [.member kind]
    (memberProblems catalog scope kind body).map (⟨·, here⟩) ++
      (match innerScope? scope kind body, body with
        | some inner, .obj parts =>
          (slots kind).flatMap fun s => slotFindings catalog inner here s.1 s.2 parts
        | _, _ => []) ++
      memberFindings catalog scope trail rest

/-- The findings in the nodes of one slot of a body. -/
def slotFindings (catalog : Option Catalog) (scope : Option String) (trail : Trail)
    (name : String) (slot : Slot) : List (String × Json) → List Finding
  | [] => []
  | (key, value) :: rest =>
    if key = name then
      match value with
      | .arr items =>
        if slot.takesMany then itemFindings catalog scope (trail ++ [.member name]) 0 items else []
      | .obj members =>
        if slot.takesOne then memberFindings catalog scope (trail ++ [.member name]) members else []
      | _ => []
    else slotFindings catalog scope trail name slot rest

def itemFindings (catalog : Option Catalog) (scope : Option String) (trail : Trail) (i : Nat) :
    List Json → List Finding
  | [] => []
  | item :: rest =>
    findings catalog scope (trail ++ [.index i]) item ++
      itemFindings catalog scope trail (i + 1) rest

end

/-- The findings in a request document. -/
def requestFindings (catalog : Option Catalog) (request : Json) : List Finding :=
  match (request.member? "query").filter fun q => !q.isNull with
  | none => [⟨.missingQuery, [.member "query"]⟩]
  | some query => findings catalog none [.member "query"] query

/-- The report on a request document. -/
def lint (catalog : Option Catalog) (request : Json) : Report :=
  .ofMessages ((requestFindings catalog request).map Finding.message)

/-- What is logged of a lint, if there is a query to walk. -/
def events (catalog : Option Catalog) (request : Json) : List Event :=
  let report := lint catalog request
  ((request.member? "query").filter fun q => !q.isNull).toList.map fun _ =>
    Event.linted report.ok report.messages.length

end SearchQuery.Lint

/-- The report on a request. -/
def SearchQuery.Request.lint (r : SearchQuery.Request)
    (catalog : Option SearchQuery.Catalog) : SearchQuery.Lint.Report :=
  SearchQuery.Lint.lint catalog r.toJson
