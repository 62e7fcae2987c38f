import SearchQuery.Proofs.ConditionLeaf
import SearchQuery.Proofs.LintWalk

/-! # Walking the document of a query

A lint reads documents. On the document of a query it finds what the query itself tells: here are
the findings for each form of query, by the kind and the field of a leaf, by the buckets of a
boolean node, and by the path of a nested one. -/
namespace SearchQuery

namespace Query

/-- The member that holds a query in its document. -/
def kind : Query → String
  | matchAll => "match_all"
  | fullText .. => "match"
  | phrase .. => "match_phrase"
  | term .. => "term"
  | terms .. => "terms"
  | .exists _ => "exists"
  | range .. => "range"
  | queryString .. => "query_string"
  | bool _ => "bool"
  | nested .. => "nested"

/-- The field of a leaf as its document shows it: in a body keyed by the field, one that is spelled
like a parameter is taken for the parameter. -/
def shownField? (q : Query) : Option String :=
  q.field?.filter fun name => !(q.isKeyed && Lint.parameters.contains name)

/-- The document of a leaf is of its kind and shows its field. -/
theorem toJson_leaf {q : Query} (h : q.isLeaf = true) :
    ∃ body, q.toJson = .keyed q.kind body ∧ Lint.field? q.kind body = q.shownField? := by
  cases q with
  | bool | nested => cases h
  | queryString query defaultField =>
    refine ⟨_, rfl, ?_⟩
    cases defaultField <;> rfl
  | matchAll | «exists» => exact ⟨_, rfl, rfl⟩
  | fullText field | phrase field | term field | terms field | range field =>
    refine ⟨_, rfl, ?_⟩
    by_cases hfield : field ∈ Lint.parameters <;>
      simp [Lint.field?, kind, Lint.fieldKinds, Lint.keyedField?, Json.keyed, Json.members?,
        shownField?, field?, isKeyed, hfield, Option.filter]

theorem exists_toJson_kind (q : Query) : ∃ body, q.toJson = .obj [(q.kind, body)] := by
  cases q <;> exact ⟨_, rfl⟩

theorem slots_kind {q : Query} (h : q.isLeaf = true) : Lint.slots q.kind = [] := by
  cases q with
  | bool | nested => cases h
  | _ => rfl

theorem kind_ne_nested {q : Query} (h : q.isLeaf = true) : q.kind ≠ "nested" := by
  cases q <;> simp_all [isLeaf, kind]

theorem lookup_bucketMember (c d : Clause) (children : List Json) :
    (bucketMember d children).lookup c.name =
      if c = d ∧ children ≠ [] then some (.arr children) else none := by
  cases children with
  | nil => simp [bucketMember]
  | cons child children =>
    cases c <;> cases d <;> simp [bucketMember, Clause.name, List.lookup_cons]

/-- A bucket of a boolean node is written under the name of its clause unless it is empty. -/
theorem lookup_buckets (children : Clause → List Json) (adjust : Bool) (c : Clause) :
    ((Clause.all.flatMap fun d => bucketMember d (children d)) ++ flagMember adjust).lookup c.name =
      if children c ≠ [] then some (.arr (children c)) else none := by
  have hflag : (flagMember adjust).lookup c.name = none := by
    cases adjust <;> cases c <;> simp [flagMember, Clause.name, List.lookup_cons]
  simp only [Clause.all, List.flatMap_cons, List.flatMap_nil, List.append_nil, List.lookup_append,
    lookup_bucketMember, hflag]
  cases c <;> simp

end Query

namespace Lint

variable (catalog : Option Catalog)

/-- The problems of a leaf in a scope. -/
def leafProblems (scope : Option String) (q : Query) : List Problem :=
  (q.shownField?.map (fieldProblems catalog scope q.kind)).getD [] ++
    if q.kind = "query_string" then [.queryString] else []

theorem mem_leafProblems {catalog : Option Catalog} {scope : Option String} {q : Query}
    {problem : Problem} :
    problem ∈ leafProblems catalog scope q ↔
      (∃ name, q.shownField? = some name ∧ problem ∈ fieldProblems catalog scope q.kind name) ∨
        (q.kind = "query_string" ∧ problem = .queryString) := by
  rw [leafProblems, List.mem_append]
  refine or_congr ?_ ?_
  · cases q.shownField? <;> simp
  · by_cases hstring : q.kind = "query_string" <;> simp [hstring]

/-- The problems of a nested path. -/
def unknownPathProblems (path : String) : List Problem :=
  match catalog with
  | some c => if c.hasKeyPrefix path then [] else [.unknownNestedPath path]
  | none => []

theorem findings_keyed (scope : Option String) (trail : Trail) (kind : String) (body : Json) :
    findings catalog scope trail (.keyed kind body) =
      (memberProblems catalog scope kind body).map (⟨·, trail ++ [.member kind]⟩) ++
        (children scope kind body).flatMap (childFindings catalog trail) := by
  rw [Json.keyed, findings_obj, memberFindings_eq]
  simp

/-- No node stands below a leaf. -/
theorem children_leaf (scope : Option String) {q : Query} (h : q.isLeaf = true) (body : Json) :
    children scope q.kind body = [] := by
  unfold children
  split <;> simp [Query.slots_kind h]

theorem memberProblems_leaf (scope : Option String) {q : Query} (h : q.isLeaf = true) {body : Json}
    (hjson : q.toJson = .keyed q.kind body) :
    memberProblems catalog scope q.kind body = leafProblems catalog scope q := by
  obtain ⟨body', hjson', hfield⟩ := Query.toJson_leaf h
  obtain rfl : body = body' := by simpa [Json.keyed] using hjson.symm.trans hjson'
  rw [memberProblems, if_neg (Query.kind_ne_nested h), hfield]
  rfl

theorem findings_leaf (scope : Option String) (trail : Trail) {q : Query} (h : q.isLeaf = true) :
    findings catalog scope trail q.toJson =
      (leafProblems catalog scope q).map (⟨·, trail ++ [.member q.kind]⟩) := by
  obtain ⟨body, hjson, -⟩ := Query.toJson_leaf h
  rw [hjson, findings_keyed, children_leaf scope h, memberProblems_leaf catalog scope h hjson]
  exact List.append_nil _

/-- In a boolean node the buckets are visited in the order of the clauses, each child at its index
and in the scope of the node. -/
theorem findings_bool (scope : Option String) (trail : Trail) (b : BoolQuery Query) :
    findings catalog scope trail (Query.bool b).toJson = Clause.all.flatMap fun c =>
      (b.bucket c).zipIdx.flatMap fun child => findings catalog scope
        (trail ++ [.member "bool", .member c.name, .index child.2]) child.1.toJson := by
  have hproblems (body : Json) : memberProblems catalog scope "bool" body = [] := by
    simp [memberProblems, field?, fieldKinds]
  have hchildren (parts : List (String × Json)) : children scope "bool" (.obj parts) =
      Clause.all.flatMap fun c => slotChildren scope [.member "bool"] parts (c.name, .either) := by
    simp [children, innerScope?, slots, List.flatMap_map]
  rw [Query.toJson_bool, findings_keyed, hproblems, hchildren, List.map_nil, List.nil_append,
    List.flatMap_assoc]
  refine congrArg (List.flatMap · Clause.all) (funext fun c => ?_)
  simp only [slotChildren, Query.lookup_buckets]
  by_cases hempty : b.bucket c = []
  · simp [hempty]
  · simp [hempty, Slot.takesMany, List.zipIdx_map, List.flatMap_map, childFindings]

/-- In a nested node the path is looked up and the query visited in its scope. -/
theorem findings_nested (scope : Option String) (trail : Trail) (path : String) (q : Query) :
    findings catalog scope trail (Query.nested path q).toJson =
      (unknownPathProblems catalog path).map (⟨·, trail ++ [.member "nested"]⟩) ++
        findings catalog (some path) (trail ++ [.member "nested", .member "query"]) q.toJson := by
  have hpath (value : Json) :
      nestedPath? (.obj [("path", .str path), ("query", value)]) = some path := rfl
  have hproblems (value : Json) : memberProblems catalog scope "nested"
      (.obj [("path", .str path), ("query", value)]) = unknownPathProblems catalog path := by
    simp only [memberProblems, if_pos, pathProblems, hpath]
    rfl
  obtain ⟨body, hms⟩ := q.exists_toJson_kind
  rw [Query.toJson, findings_keyed, hproblems, hms]
  simp [children, innerScope?, hpath, slots, slotChildren, List.lookup_cons, Slot.takesOne,
    childFindings]

theorem member?_query_toJson (r : Request) :
    r.toJson.member? "query" = some r.query.toJson := by
  simp [Request.toJson, Json.member?, List.lookup_cons]

/-- A request always has a query, so its lint is that of the query. -/
theorem requestFindings_toJson (r : Request) :
    requestFindings catalog r.toJson = findings catalog none [.member "query"] r.query.toJson := by
  obtain ⟨body, hms⟩ := r.query.exists_toJson_kind
  simp [requestFindings, member?_query_toJson, hms, Json.isNull, Option.filter]

end Lint

end SearchQuery
