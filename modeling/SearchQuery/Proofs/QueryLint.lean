import SearchQuery.Proofs.QueryWalk

/-! # Linting a query without its document

A lint reads the document of a request. The findings are told here once more, by recursion on the
query tree itself: a leaf is checked for its field, a boolean node is visited bucket by bucket, a
nested node sets the scope. Both agree on every tree, also on trees that no form compiles to. -/
namespace SearchQuery.Lint

variable (catalog : Option Catalog)

def findingsAt (trail : Trail) (kind : String) (problems : List Problem) : List Finding :=
  problems.map fun problem => ⟨problem, trail ++ [.member kind]⟩

/-- The findings in a leaf whose body is keyed by its field. A field with the name of a parameter
is taken for the parameter and not checked. -/
def keyedFindings (scope : Option String) (trail : Trail) (kind field : String) : List Finding :=
  if field = "boost" ∨ field = "_name" then []
  else findingsAt trail kind (fieldProblems catalog scope kind field)

mutual

def queryFindings (scope : Option String) (trail : Trail) : Query → List Finding
  | .matchAll => []
  | .fullText field _ => keyedFindings catalog scope trail "match" field
  | .phrase field _ _ => keyedFindings catalog scope trail "match_phrase" field
  | .term field _ => keyedFindings catalog scope trail "term" field
  | .terms field _ => keyedFindings catalog scope trail "terms" field
  | .range field _ => keyedFindings catalog scope trail "range" field
  | .exists field => findingsAt trail "exists" (fieldProblems catalog scope "exists" field)
  | .queryString _ none => findingsAt trail "query_string" [.queryString]
  | .queryString _ (some field) =>
    findingsAt trail "query_string"
      (fieldProblems catalog scope "query_string" field ++ [.queryString])
  | .bool ⟨must, filter, mustNot, should, _⟩ =>
    let here := trail ++ [.member "bool"]
    bucketFindings scope (here ++ [.member "must"]) 0 must ++
      bucketFindings scope (here ++ [.member "filter"]) 0 filter ++
      bucketFindings scope (here ++ [.member "must_not"]) 0 mustNot ++
      bucketFindings scope (here ++ [.member "should"]) 0 should
  | .nested path query =>
    findingsAt trail "nested" (unknownPathProblems catalog path) ++
      queryFindings (some path) (trail ++ [.member "nested", .member "query"]) query

/-- The findings in the children of a bucket, the first of which has a given index. -/
def bucketFindings (scope : Option String) (trail : Trail) (i : Nat) : List Query → List Finding
  | [] => []
  | q :: qs =>
    queryFindings scope (trail ++ [.index i]) q ++ bucketFindings scope trail (i + 1) qs

end

theorem bucketFindings_eq_flatMap (scope : Option String) (trail : Trail) (i : Nat)
    (qs : List Query) :
    bucketFindings catalog scope trail i qs = (qs.zipIdx i).flatMap fun child =>
      queryFindings catalog scope (trail ++ [.index child.2]) child.1 := by
  induction qs generalizing i with
  | nil => rw [bucketFindings]; rfl
  | cons q qs ih => rw [bucketFindings, ih, List.zipIdx_cons, List.flatMap_cons]

theorem queryFindings_bool (scope : Option String) (trail : Trail) (b : BoolQuery Query) :
    queryFindings catalog scope trail (.bool b) = Clause.all.flatMap fun c =>
      (b.bucket c).zipIdx.flatMap fun child => queryFindings catalog scope
        (trail ++ [.member "bool", .member c.name, .index child.2]) child.1 := by
  cases b
  simp [queryFindings, bucketFindings_eq_flatMap, Clause.all, Clause.name, BoolQuery.bucket]

theorem leafProblems_of_field {scope : Option String} {q : Query} {field : String}
    (h : q.field? = some field) : leafProblems catalog scope q =
      (if q.isKeyed = true ∧ (field = "boost" ∨ field = "_name") then []
        else fieldProblems catalog scope q.kind field) ++
        if q.kind = "query_string" then [.queryString] else [] := by
  have hparameter : field ∈ parameters ↔ field = "boost" ∨ field = "_name" := by
    simp [parameters]
  simp only [leafProblems, Query.shownField?, h, Option.filter_some, ← hparameter]
  by_cases hkeyed : q.isKeyed = true
  · by_cases hfield : field ∈ parameters <;> simp [hkeyed, hfield]
  · simp [hkeyed]

theorem queryFindings_leaf (scope : Option String) (trail : Trail) {q : Query}
    (h : q.isLeaf = true) :
    queryFindings catalog scope trail q =
      findingsAt trail q.kind (leafProblems catalog scope q) := by
  cases q with
  | bool | nested => cases h
  | matchAll => rfl
  | «exists» field =>
    rw [leafProblems_of_field catalog rfl]
    simp [queryFindings, Query.kind, Query.isKeyed]
  | queryString query defaultField =>
    cases defaultField with
    | none => rfl
    | some field =>
      rw [leafProblems_of_field catalog rfl]
      simp [queryFindings, Query.kind, Query.isKeyed]
  | fullText field | phrase field | term field | terms field | range field =>
    rw [leafProblems_of_field catalog rfl]
    by_cases hname : field = "boost" ∨ field = "_name" <;>
      simp [queryFindings, keyedFindings, findingsAt, Query.kind, Query.isKeyed, hname]

/-- What a lint finds in the document of a query is what the query itself tells. -/
theorem findings_toJson (scope : Option String) (trail : Trail) (q : Query) :
    findings catalog scope trail q.toJson = queryFindings catalog scope trail q := by
  induction q using Query.tree_induction generalizing scope trail with
  | leaf q hleaf =>
    rw [findings_leaf catalog scope trail hleaf, queryFindings_leaf catalog scope trail hleaf]
    rfl
  | bool b ih =>
    rw [findings_bool, queryFindings_bool]
    refine congrArg (List.flatMap · Clause.all) (funext fun c => List.flatMap_congr ?_)
    intro child hchild
    exact ih c child.1 (List.fst_mem_of_mem_zipIdx hchild) _ _
  | nested path q ih =>
    rw [findings_nested, queryFindings, ih]
    rfl

/-- The lint of a request is told by its query tree alone: neither the size nor the aggregations
have a part in it. -/
theorem lint_request_eq_queryFindings (r : Request) :
    r.lint catalog =
        .ofMessages ((queryFindings catalog none [.member "query"] r.query).map Finding.message) ∧
      ∀ size aggregations, ({ r with size, aggregations } : Request).lint catalog =
        r.lint catalog := by
  have h (r : Request) : r.lint catalog =
      .ofMessages ((queryFindings catalog none [.member "query"] r.query).map Finding.message) := by
    rw [Request.lint, lint, requestFindings_toJson, findings_toJson]
  refine ⟨h r, fun size aggregations => ?_⟩
  rw [h, h]

end SearchQuery.Lint
