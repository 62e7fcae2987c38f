import SearchQuery.Proofs.FormRoundTrip
import SearchQuery.Proofs.QueryWalk

/-! # Requests read back from their documents

A reader for the documents of requests, by the names of their members. It gives back every query
tree and every request from its document, so no two of them are written alike: what is left out of
a document (an empty bucket, a flag that is not set, a bound or a field that is absent) is known
from its absence, and a field may be spelled like any other word of the language. -/
namespace SearchQuery

namespace RangeBounds

/-- The bounds of a range, each by its name. -/
def ofJson? : Json → Option RangeBounds
  | .obj ms =>
    some {
      gt := ms.lookup "gt"
      gte := ms.lookup "gte"
      lt := ms.lookup "lt"
      lte := ms.lookup "lte" }
  | _ => none

theorem ofJson?_toJson (b : RangeBounds) : ofJson? b.toJson = some b := by
  simp [toJson, ofJson?, List.lookup_append]

end RangeBounds

namespace Query

/-- The leaf of a kind with its field and what stands below the field. -/
def ofKeyed? (kind field : String) (body : Json) : Option Query :=
  if kind = "match" then (body.member? "query").map (.fullText field)
  else if kind = "match_phrase" then do
    let text ← body.member? "query"
    let slop ← (body.member? "slop").bind Json.slop?
    some (.phrase field text slop)
  else if kind = "term" then (body.member? "value").map (.term field)
  else if kind = "terms" then body.items?.map (.terms field)
  else if kind = "range" then (RangeBounds.ofJson? body).map (.range field)
  else none

/-- The leaf of a kind with the members of its body. -/
def ofLeaf? (kind : String) (ms : List (String × Json)) : Option Query :=
  if kind = "match_all" then some .matchAll
  else if kind = "exists" then ((ms.lookup "field").bind Json.text?).map .exists
  else if kind = "query_string" then
    ((ms.lookup "query").bind Json.text?).map fun query =>
      .queryString query ((ms.lookup "default_field").bind Json.text?)
  else
    match ms with
    | [(field, body)] => ofKeyed? kind field body
    | _ => none

mutual

/-- The query of a document. -/
def ofJson? : Json → Option Query
  | .obj [(kind, .obj ms)] =>
    if kind = "bool" then do
      let must ← bucketOf? .must ms
      let filter ← bucketOf? .filter ms
      let mustNot ← bucketOf? .mustNot ms
      let should ← bucketOf? .should ms
      let adjust := ((ms.lookup "adjust_pure_negative").bind Json.bool?).getD false
      some (.bool ⟨must, filter, mustNot, should, adjust⟩)
    else if kind = "nested" then do
      let path ← (ms.lookup "path").bind Json.text?
      let query ← innerOf? ms
      some (.nested path query)
    else ofLeaf? kind ms
  | _ => none

/-- The children of a bucket of a boolean node; none when the bucket is not written. -/
def bucketOf? (c : Clause) : List (String × Json) → Option (List Query)
  | [] => some []
  | (name, value) :: rest =>
    if name = c.name then
      match value with
      | .arr items => ofJsons? items
      | _ => none
    else bucketOf? c rest

/-- The query inside a nested node. -/
def innerOf? : List (String × Json) → Option Query
  | [] => none
  | (name, value) :: rest => if name = "query" then ofJson? value else innerOf? rest

def ofJsons? : List Json → Option (List Query)
  | [] => some []
  | x :: xs => do
    let q ← ofJson? x
    let qs ← ofJsons? xs
    some (q :: qs)

end

theorem ofJsons?_eq_mapM (xs : List Json) : ofJsons? xs = xs.mapM ofJson? := by
  induction xs with
  | nil => rfl
  | cons x xs ih =>
    rw [ofJsons?, ih, List.mapM_cons]
    rfl

theorem bucketOf?_eq (c : Clause) (ms : List (String × Json)) :
    bucketOf? c ms = (ms.lookup c.name).elim (some []) fun v => v.items?.bind ofJsons? := by
  induction ms with
  | nil => rfl
  | cons m ms ih =>
    obtain ⟨name, value⟩ := m
    by_cases h : name = c.name
    · subst h
      cases value <;> simp [bucketOf?, Json.items?]
    · have hother : bucketOf? c ((name, value) :: ms) = bucketOf? c ms := by
        cases value <;> simp [bucketOf?, h]
      rw [hother, ih, List.lookup_cons, beq_false_of_ne (Ne.symm h)]

theorem innerOf?_eq (ms : List (String × Json)) :
    innerOf? ms = (ms.lookup "query").bind ofJson? := by
  induction ms with
  | nil => rfl
  | cons m ms ih =>
    obtain ⟨name, value⟩ := m
    by_cases h : name = "query"
    · subst h
      rw [innerOf?, if_pos rfl, List.lookup_cons_self, Option.bind_some]
    · rw [innerOf?, if_neg h, ih, List.lookup_cons, beq_false_of_ne (Ne.symm h)]

theorem lookup_flag (children : Clause → List Json) (adjust : Bool) :
    ((Clause.all.flatMap fun d => bucketMember d (children d)) ++ flagMember adjust).lookup
      "adjust_pure_negative" = if adjust then some (.bool true) else none := by
  have hbucket (d : Clause) (xs : List Json) :
      (bucketMember d xs).lookup "adjust_pure_negative" = none := by
    cases xs <;> cases d <;> simp [bucketMember, Clause.name, List.lookup_cons]
  cases adjust <;> simp [Clause.all, List.lookup_append, hbucket, flagMember]

/-- A boolean node is read bucket by bucket. -/
theorem ofJson?_bool {b : BoolQuery Query}
    (h : ∀ c, ∀ q ∈ b.bucket c, ofJson? q.toJson = some q) :
    ofJson? (bool b).toJson = some (.bool b) := by
  generalize hms : (Clause.all.flatMap fun c => bucketMember c ((b.bucket c).map toJson)) ++
    flagMember b.adjustPureNegative = ms
  have hbucket (c : Clause) : bucketOf? c ms = some (b.bucket c) := by
    rw [bucketOf?_eq, ← hms, lookup_buckets fun d => (b.bucket d).map toJson]
    by_cases hempty : b.bucket c = []
    · simp [hempty]
    · have hread : ((b.bucket c).map toJson).mapM ofJson? = some ((b.bucket c).map id) :=
        mapM_map_eq_some (h c)
      simpa [hempty, Json.items?, ofJsons?_eq_mapM] using hread
  have hflag : ((ms.lookup "adjust_pure_negative").bind Json.bool?).getD false =
      b.adjustPureNegative := by
    rw [← hms, lookup_flag fun d => (b.bucket d).map toJson]
    cases b.adjustPureNegative <;> rfl
  rw [toJson_bool, hms, Json.keyed, ofJson?, if_pos rfl]
  simp only [hbucket, hflag]
  cases b
  rfl

/-- A leaf is read by its kind. -/
theorem ofJson?_leaf {q : Query} (h : q.isLeaf = true) : ofJson? q.toJson = some q := by
  cases q with
  | bool | nested => cases h
  | matchAll | fullText | term | terms | «exists» => rfl
  | phrase field text slop =>
    have hslop : Json.slop? (.num (.int slop.toNat)) = some slop := Json.slop?_int slop
    simp [toJson, Json.keyed, ofJson?, ofLeaf?, ofKeyed?, Json.member?, List.lookup_cons, hslop]
  | range field bounds =>
    have hbounds := RangeBounds.ofJson?_toJson bounds
    simp [toJson, Json.keyed, ofJson?, ofLeaf?, ofKeyed?, hbounds]
  | queryString query defaultField =>
    cases defaultField <;> rfl

/-- Every query tree is read back from its document. -/
theorem ofJson?_toJson (q : Query) : ofJson? q.toJson = some q := by
  induction q using tree_induction with
  | leaf q hleaf => exact ofJson?_leaf hleaf
  | bool b ih => exact ofJson?_bool ih
  | nested path q ih =>
    rw [toJson, Json.keyed, ofJson?]
    simp [innerOf?_eq, List.lookup_cons, Json.text?, ih]

end Query

namespace Request

/-- The request of a document. -/
def ofJson? : Json → Option Request
  | .obj ms => do
    let size ← (ms.lookup "size").bind Json.size?
    let query ← (ms.lookup "query").bind Query.ofJson?
    some { size, query, aggregations := ms.lookup "aggregations" }
  | _ => none

theorem ofJson?_toJson (r : Request) : ofJson? r.toJson = some r := by
  have hsize : Json.size? (.num (.ofCount r.size)) = some r.size := Json.size?_ofCount r.size
  simp [toJson, ofJson?, List.lookup_cons, hsize, Query.ofJson?_toJson]

/-- The documents of queries and of requests lose nothing: a query tree and a request are read back
from theirs, so two that differ have documents that differ. -/
theorem toJson_lossless :
    (∀ q : Query, Query.ofJson? q.toJson = some q) ∧ Function.Injective Query.toJson ∧
      (∀ r : Request, ofJson? r.toJson = some r) ∧ Function.Injective toJson := by
  refine ⟨Query.ofJson?_toJson, ?_, ofJson?_toJson, ?_⟩
  · intro p q h
    have hread : some p = some q := by
      rw [← Query.ofJson?_toJson p, h, Query.ofJson?_toJson q]
    exact Option.some.inj hread
  · intro r s h
    have hread : some r = some s := by rw [← ofJson?_toJson r, h, ofJson?_toJson s]
    exact Option.some.inj hread

end Request
end SearchQuery
