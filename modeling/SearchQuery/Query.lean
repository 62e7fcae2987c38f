import SearchQuery.Clause

/-! # Queries

The query tree and its encoding as a document of the search engine. A boolean node has a bucket
of children for each clause; buckets without children are not written. -/
namespace SearchQuery

/-- The bounds of a range, those given. -/
structure RangeBounds where
  gt : Option Json := none
  gte : Option Json := none
  lt : Option Json := none
  lte : Option Json := none
deriving Inhabited

namespace RangeBounds

def between (gte lte : Json) : RangeBounds := { gte := some gte, lte := some lte }

def toJson (b : RangeBounds) : Json :=
  .obj <| Json.optional "gt" b.gt ++ Json.optional "gte" b.gte ++ Json.optional "lt" b.lt ++
    Json.optional "lte" b.lte

end RangeBounds

/-- A boolean node over children of some type. -/
structure BoolQuery (α : Type) where
  must : List α := []
  filter : List α := []
  mustNot : List α := []
  should : List α := []
  /-- Whether a node with negated children alone matches nothing. -/
  adjustPureNegative : Bool := false
deriving Inhabited

namespace BoolQuery

variable {α : Type}

def bucket (b : BoolQuery α) : Clause → List α
  | .must => b.must
  | .filter => b.filter
  | .mustNot => b.mustNot
  | .should => b.should

/-- Adds a child at the end of a bucket. -/
def push (b : BoolQuery α) (c : Clause) (x : α) : BoolQuery α :=
  match c with
  | .must => { b with must := b.must ++ [x] }
  | .filter => { b with filter := b.filter ++ [x] }
  | .mustNot => { b with mustNot := b.mustNot ++ [x] }
  | .should => { b with should := b.should ++ [x] }

/-- The first bucket, by priority, that has a child. -/
def primary? (b : BoolQuery α) : Option Clause := Clause.all.find? fun c => !(b.bucket c).isEmpty

def isEmpty (b : BoolQuery α) : Bool := Clause.all.all fun c => (b.bucket c).isEmpty

@[simp] theorem bucket_push (b : BoolQuery α) (c d : Clause) (x : α) :
    (b.push c x).bucket d = if c = d then b.bucket d ++ [x] else b.bucket d := by
  cases c <;> cases d <;> rfl

end BoolQuery

inductive Query
  | matchAll
  | fullText (field : String) (text : Json)
  | phrase (field : String) (text : Json) (slop : UInt32)
  | term (field : String) (value : Json)
  | terms (field : String) (values : List Json)
  | exists (field : String)
  | range (field : String) (bounds : RangeBounds)
  | queryString (query : String) (defaultField : Option String)
  | bool (body : BoolQuery Query)
  | nested (path : String) (query : Query)
deriving Inhabited

namespace Query

def isMatchAll : Query → Bool
  | matchAll => true
  | _ => false

/-- A bucket as a member of its node, left out when it is empty. -/
def bucketMember (c : Clause) (children : List Json) : List (String × Json) :=
  match children with
  | [] => []
  | _ => [(c.name, .arr children)]

def flagMember (adjust : Bool) : List (String × Json) :=
  if adjust then [("adjust_pure_negative", .bool true)] else []

mutual

/-- The document of a query. -/
def toJson : Query → Json
  | matchAll => .keyed "match_all" (.obj [])
  | fullText field text => .keyed "match" (.keyed field (.keyed "query" text))
  | phrase field text slop =>
    .keyed "match_phrase"
      (.keyed field (.obj [("query", text), ("slop", .num (.int slop.toNat))]))
  | term field value => .keyed "term" (.keyed field (.keyed "value" value))
  | terms field values => .keyed "terms" (.keyed field (.arr values))
  | .exists field => .keyed "exists" (.keyed "field" (.str field))
  | range field bounds => .keyed "range" (.keyed field bounds.toJson)
  | queryString query defaultField =>
    .keyed "query_string" <| .obj <|
      ("query", .str query) :: Json.optional "default_field" (defaultField.map .str)
  | bool ⟨must, filter, mustNot, should, adjust⟩ =>
    .keyed "bool" <| .obj <|
      bucketMember .must (toJsons must) ++ bucketMember .filter (toJsons filter) ++
      bucketMember .mustNot (toJsons mustNot) ++ bucketMember .should (toJsons should) ++
      flagMember adjust
  | nested path query => .keyed "nested" (.obj [("path", .str path), ("query", toJson query)])

def toJsons : List Query → List Json
  | [] => []
  | q :: qs => toJson q :: toJsons qs

end

@[simp] theorem toJsons_eq_map (qs : List Query) : toJsons qs = qs.map toJson := by
  induction qs with
  | nil => rfl
  | cons q qs ih => rw [toJsons, ih, List.map_cons]

end Query

/-- A search request: how many results, which query, and aggregations if there are any. -/
structure Request where
  size : UInt64
  query : Query
  aggregations : Option Json := none
deriving Inhabited

def Request.toJson (r : Request) : Json :=
  .obj <| [("size", .num (.ofCount r.size)), ("query", r.query.toJson)] ++
    Json.optional "aggregations" r.aggregations

end SearchQuery
