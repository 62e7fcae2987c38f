import SearchQuery.Proofs.LintVisit
import SearchQuery.Proofs.QueryWalk

/-! # The nodes in the document of a request

A query tree is written node by node: what a walk of the document reaches are the documents of the
queries in the tree, no more and no less. -/
namespace SearchQuery

/-- A query stands somewhere in a tree. -/
inductive Query.Contains : Query → Query → Prop
  | refl (q) : Contains q q
  | bool {b c child q} (hchild : child ∈ b.bucket c) (h : Contains child q) : Contains (.bool b) q
  | nested {path inner q} (h : Contains inner q) : Contains (.nested path inner) q

/-- The body of a boolean node as it is written: a bucket is a member iff it has children, and lists
their documents. -/
def BoolQuery.WrittenAs (b : BoolQuery Query) (body : Json) : Prop :=
  ∀ c : Clause, body.member? c.name =
    if b.bucket c ≠ [] then some (.arr ((b.bucket c).map Query.toJson)) else none

namespace Query

theorem Contains.trans {p q r : Query} (hpq : p.Contains q) (hqr : q.Contains r) :
    p.Contains r := by
  induction hpq with
  | refl => exact hqr
  | bool hchild _ ih => exact .bool hchild (ih hqr)
  | nested _ ih => exact .nested (ih hqr)

theorem exists_toJson_bool (b : BoolQuery Query) :
    ∃ body, (Query.bool b).toJson = .obj [("bool", body)] ∧ b.WrittenAs body := by
  refine ⟨_, toJson_bool b, fun c => ?_⟩
  have h := lookup_buckets (fun d => (b.bucket d).map toJson) b.adjustPureNegative c
  simpa [Json.member?] using h

/-- The document of a query has one member, of its kind. -/
theorem eq_of_mem_toJson {q : Query} {ms : List (String × Json)} {kind : String} {body : Json}
    (hq : q.toJson = .obj ms) (hmem : (kind, body) ∈ ms) :
    kind = q.kind ∧ q.toJson = .obj [(kind, body)] := by
  obtain ⟨qBody, hjson⟩ := q.exists_toJson_kind
  obtain rfl := Json.obj.inj (hjson.symm.trans hq)
  obtain ⟨rfl, rfl⟩ : kind = q.kind ∧ body = qBody := by simpa using hmem
  exact ⟨rfl, hjson⟩

/-- Only boolean nodes are written as such. -/
theorem exists_bool_of_mem_toJson {q : Query} {ms : List (String × Json)} {body : Json}
    (hq : q.toJson = .obj ms) (hmem : ("bool", body) ∈ ms) :
    ∃ b, q = .bool b ∧ b.WrittenAs body := by
  obtain ⟨hkind, hjson⟩ := eq_of_mem_toJson hq hmem
  cases q with
  | bool b =>
    obtain ⟨written, hjson', hwritten⟩ := exists_toJson_bool b
    obtain rfl : body = written := by simpa using hjson.symm.trans hjson'
    exact ⟨b, rfl, hwritten⟩
  | _ => simp [kind] at hkind

theorem toJson_nested (path : String) (q : Query) : (Query.nested path q).toJson =
    .obj [("nested", .obj [("path", .str path), ("query", q.toJson)])] := by
  rw [toJson]
  rfl

theorem exists_nested_of_mem_toJson {q : Query} {ms : List (String × Json)} {body : Json}
    (hq : q.toJson = .obj ms) (hmem : ("nested", body) ∈ ms) : ∃ path inner,
      q = .nested path inner ∧ body = .obj [("path", .str path), ("query", inner.toJson)] := by
  obtain ⟨hkind, hjson⟩ := eq_of_mem_toJson hq hmem
  cases q with
  | nested path inner =>
    exact ⟨path, inner, rfl, by simpa using hjson.symm.trans (toJson_nested path inner)⟩
  | _ => simp [kind] at hkind

end Query

namespace Lint

variable {scope inner : Option String} {kind : String} {body : Json} {steps : Trail}
  {ms ms' : List (String × Json)}

theorem exists_clause_of_bucket {bucket : String}
    (h : bucket ∈ ["must", "filter", "must_not", "should"]) : ∃ c : Clause, c.name = bucket := by
  simp only [List.mem_cons, List.not_mem_nil, or_false] at h
  rcases h with rfl | rfl | rfl | rfl
  exacts [⟨.must, rfl⟩, ⟨.filter, rfl⟩, ⟨.mustNot, rfl⟩, ⟨.should, rfl⟩]

theorem Descends.exists_child {b : BoolQuery Query} (hbody : b.WrittenAs body)
    (h : Descends scope "bool" body steps inner ms') :
    ∃ c, ∃ child ∈ b.bucket c, child.toJson = .obj ms' := by
  generalize hkind : "bool" = kind at h
  cases h with
  | bucketItem hbucket hitems hnode =>
    obtain ⟨c, rfl⟩ := exists_clause_of_bucket hbucket
    rw [hbody c] at hitems
    split at hitems
    · obtain rfl := Json.arr.inj (Option.some.inj hitems)
      obtain ⟨child, hchild⟩ := List.mem_map.1 (List.mem_of_getElem? hnode)
      exact ⟨c, child, hchild⟩
    · cases hitems
  | bucketNode hbucket hnode =>
    obtain ⟨c, rfl⟩ := exists_clause_of_bucket hbucket
    rw [hbody c] at hnode
    split at hnode <;> cases hnode
  | _ => simp at hkind

theorem Descends.toJson_eq {path : String} {q : Query}
    (h : Descends scope "nested" (.obj [("path", .str path), ("query", q.toJson)]) steps inner
      ms') : q.toJson = .obj ms' := by
  generalize hkind : "nested" = kind at h
  cases h with
  | nested _ hnode => simpa [Json.member?, List.lookup_cons] using hnode
  | _ => simp at hkind

/-- Below a node in the document of a query are the documents of the queries right below it. -/
theorem Descends.exists_toJson {q : Query} (hq : q.toJson = .obj ms) (hmem : (kind, body) ∈ ms)
    (h : Descends scope kind body steps inner ms') :
    ∃ child, q.Contains child ∧ child.toJson = .obj ms' := by
  obtain ⟨hkind, -⟩ := Query.eq_of_mem_toJson hq hmem
  by_cases hleaf : q.isLeaf = true
  · have hchild := mem_children_iff_descends.2 h
    rw [hkind, children_leaf scope hleaf] at hchild
    cases hchild
  · cases q with
    | bool b =>
      obtain rfl : kind = "bool" := hkind
      obtain ⟨_, ⟨rfl⟩, hwritten⟩ := Query.exists_bool_of_mem_toJson hq hmem
      obtain ⟨c, child, hchild, hnode⟩ := h.exists_child hwritten
      exact ⟨child, .bool hchild (.refl child), hnode⟩
    | nested path q =>
      obtain rfl : kind = "nested" := hkind
      obtain ⟨_, _, ⟨rfl⟩, rfl⟩ := Query.exists_nested_of_mem_toJson hq hmem
      exact ⟨q, .nested (.refl q), h.toJson_eq⟩
    | _ => exact absurd rfl hleaf

theorem Reached.exists_toJson {r : Request} {trail : Trail}
    (h : Reached r.toJson trail scope ms) : ∃ q, r.query.Contains q ∧ q.toJson = .obj ms := by
  induction h with
  | @query ms hquery =>
    have hjson : r.query.toJson = .obj ms :=
      Option.some.inj ((member?_query_toJson r).symm.trans hquery)
    exact ⟨r.query, .refl _, hjson⟩
  | down _ hmem hdescends ih =>
    obtain ⟨q, hcontains, hq⟩ := ih
    obtain ⟨child, hchild, hjson⟩ := hdescends.exists_toJson hq hmem
    exact ⟨child, hcontains.trans hchild, hjson⟩

theorem Reached.root {r : Request} (h : r.query.toJson = .obj ms) :
    Reached r.toJson [.member "query"] none ms :=
  .query (h ▸ member?_query_toJson r)

theorem Reached.bool_child {request : Json} {trail : Trail} {b : BoolQuery Query} {c : Clause}
    {child : Query} (h : Reached request trail scope ms) (hb : (Query.bool b).toJson = .obj ms)
    (hchild : child ∈ b.bucket c) (hms' : child.toJson = .obj ms') :
    ∃ trail', Reached request trail' scope ms' := by
  obtain ⟨written, hjson, hwritten⟩ := Query.exists_toJson_bool b
  obtain rfl : [("bool", written)] = ms := Json.obj.inj (hjson.symm.trans hb)
  obtain ⟨i, hi⟩ := List.getElem?_of_mem hchild
  have hitems := hwritten c
  rw [if_pos (List.ne_nil_of_mem hchild)] at hitems
  have hbucket : c.name ∈ ["must", "filter", "must_not", "should"] := by cases c <;> decide
  have hnode : ((b.bucket c).map Query.toJson)[i]? = some (.obj ms') := by
    rw [List.getElem?_map, hi, Option.map_some, hms']
  exact ⟨_, h.down List.mem_cons_self (.bucketItem hbucket hitems hnode)⟩

theorem Reached.nested_child {request : Json} {trail : Trail} {path : String} {q : Query}
    (h : Reached request trail scope ms) (hq : (Query.nested path q).toJson = .obj ms)
    (hms' : q.toJson = .obj ms') : ∃ trail', Reached request trail' (some path) ms' := by
  obtain rfl := Json.obj.inj ((Query.toJson_nested path q).symm.trans hq)
  have hnode : (Json.obj [("path", .str path), ("query", q.toJson)]).member? "query" =
      some (.obj ms') := by
    simp [Json.member?, List.lookup_cons, hms']
  exact ⟨_, h.down List.mem_cons_self (.nested rfl hnode)⟩

theorem Reached.of_contains {request : Json} {p q : Query} (hcontains : p.Contains q)
    {trail : Trail} (hp : p.toJson = .obj ms) (h : Reached request trail scope ms) :
    ∃ trail scope ms', Reached request trail scope ms' ∧ q.toJson = .obj ms' := by
  induction hcontains generalizing trail scope ms with
  | refl => exact ⟨trail, scope, ms, h, hp⟩
  | @bool b c child q hchild _ ih =>
    obtain ⟨body, hms'⟩ := child.exists_toJson_kind
    obtain ⟨trail', hreached⟩ := h.bool_child hp hchild hms'
    exact ih hms' hreached
  | @nested path q' q _ ih =>
    obtain ⟨body, hms'⟩ := q'.exists_toJson_kind
    obtain ⟨trail', hreached⟩ := h.nested_child hp hms'
    exact ih hms' hreached

/-- A leaf of a tree is reached in the scope of the innermost path around it. -/
theorem Reached.of_mem_occurrences {request : Json} {q : Query} {o : Occurrence}
    (ho : o ∈ q.occurrences) {trail : Trail} (hq : q.toJson = .obj ms)
    (h : Reached request trail scope ms) :
    ∃ trail' ms', Reached request trail' (o.paths.getLast?.or scope) ms' ∧
      o.query.toJson = .obj ms' := by
  induction q using Query.tree_induction generalizing o trail scope ms with
  | leaf q hleaf =>
    by_cases hall : q = .matchAll
    · subst hall
      simp [Query.occurrences] at ho
    · rw [Query.occurrences_leaf hleaf hall] at ho
      obtain rfl := List.mem_singleton.1 ho
      exact ⟨trail, ms, h, hq⟩
  | bool b ih =>
    simp only [Query.occurrences_bool, List.mem_flatMap, List.mem_map] at ho
    obtain ⟨c, -, child, hchild, below, hbelow, rfl⟩ := ho
    obtain ⟨body, hms'⟩ := child.exists_toJson_kind
    obtain ⟨trail', hreached⟩ := h.bool_child hq hchild hms'
    have hreached' := ih c child hchild hbelow hms' hreached
    exact hreached'
  | nested path q ih =>
    rw [Query.occurrences] at ho
    obtain ⟨below, hbelow, rfl⟩ := List.mem_map.1 ho
    obtain ⟨body, hms'⟩ := q.exists_toJson_kind
    obtain ⟨trail', hreached⟩ := h.nested_child hq hms'
    rw [Occurrence.getLast?_underPath_or]
    exact ih hbelow hms' hreached

/-- The nodes of the document of a request are the documents of the queries in its tree. -/
theorem reached_toJson_iff {r : Request} : (∃ trail scope, Reached r.toJson trail scope ms) ↔
    ∃ q, r.query.Contains q ∧ q.toJson = .obj ms := by
  constructor
  · rintro ⟨trail, scope, h⟩
    exact h.exists_toJson
  · rintro ⟨q, hcontains, hq⟩
    obtain ⟨body, hms₀⟩ := r.query.exists_toJson_kind
    obtain ⟨trail, scope, ms', hreached, hms'⟩ :=
      Reached.of_contains hcontains hms₀ (.root hms₀)
    obtain rfl := Json.obj.inj (hms'.symm.trans hq)
    exact ⟨trail, scope, hreached⟩

end Lint
end SearchQuery
