import SearchQuery.Query
import Mathlib.Data.List.Basic

/-! # Query trees

A boolean node is known by its buckets, so its document and its leaves are written here clause by
clause. A leaf of a tree stands in a place: the buckets and the nested paths around it. -/
namespace SearchQuery

theorem Clause.mem_all (c : Clause) : c ∈ Clause.all := by cases c <;> decide

theorem Clause.nodup_all : Clause.all.Nodup := by decide

namespace BoolQuery

variable {α : Type}

/-- The node with given buckets. -/
def ofBuckets (bucket : Clause → List α) : BoolQuery α :=
  ⟨bucket .must, bucket .filter, bucket .mustNot, bucket .should, false⟩

@[simp] theorem bucket_ofBuckets (f : Clause → List α) (c : Clause) :
    (ofBuckets f).bucket c = f c := by
  cases c <;> rfl

@[simp] theorem bucket_adjust (b : BoolQuery α) (adjust : Bool) (c : Clause) :
    ({ b with adjustPureNegative := adjust } : BoolQuery α).bucket c = b.bucket c := by
  cases c <;> rfl

@[simp] theorem bucket_empty (c : Clause) : ({} : BoolQuery α).bucket c = [] := by
  cases c <;> rfl

@[simp] theorem adjust_push (b : BoolQuery α) (c : Clause) (x : α) :
    (b.push c x).adjustPureNegative = b.adjustPureNegative := by
  cases c <;> rfl

theorem ext_bucket {a b : BoolQuery α} (h : ∀ c, a.bucket c = b.bucket c)
    (hadjust : a.adjustPureNegative = b.adjustPureNegative) : a = b := by
  cases a
  cases b
  simp only [mk.injEq]
  exact ⟨h .must, h .filter, h .mustNot, h .should, hadjust⟩

theorem isEmpty_iff (b : BoolQuery α) : b.isEmpty = true ↔ ∀ c, b.bucket c = [] := by
  simp only [isEmpty, List.all_eq_true, List.isEmpty_iff]
  constructor
  · intro h c
    exact h c c.mem_all
  · intro h c _
    exact h c

/-- A node without a primary bucket has no child at all. -/
theorem primary?_eq_none_iff (b : BoolQuery α) : b.primary? = none ↔ ∀ c, b.bucket c = [] := by
  simp only [primary?, List.find?_eq_none, Bool.not_eq_true, Bool.not_eq_false', List.isEmpty_iff]
  constructor
  · intro h c
    exact h c c.mem_all
  · intro h c _
    exact h c

/-- The primary bucket is the one of highest rank that has a child. -/
theorem primary?_eq_some_iff (b : BoolQuery α) (c : Clause) :
    b.primary? = some c ↔ b.bucket c ≠ [] ∧ ∀ d : Clause, d.rank < c.rank → b.bucket d = [] := by
  have hrank : (∀ d : Clause, d.rank < c.rank → b.bucket d = []) ↔
      ∀ d ∈ Clause.all, d.rank < c.rank → b.bucket d = [] :=
    ⟨fun h d _ => h d, fun h d => h d d.mem_all⟩
  rw [hrank]
  cases c <;> simp [primary?, Clause.all, Clause.rank, List.find?_cons] <;> grind

end BoolQuery

/-- A leaf of a query tree with the buckets and the nested paths around it, outermost first. -/
structure Occurrence where
  buckets : List Clause
  paths : List String
  query : Query

namespace Occurrence

def inBucket (c : Clause) (o : Occurrence) : Occurrence := { o with buckets := c :: o.buckets }

def underPath (path : String) (o : Occurrence) : Occurrence := { o with paths := path :: o.paths }

/-- The scope of a leaf is the innermost path around it. -/
theorem getLast?_underPath_or (o : Occurrence) (path : String) (scope : Option String) :
    (o.underPath path).paths.getLast?.or scope = o.paths.getLast?.or (some path) := by
  simp only [underPath, List.getLast?_cons]
  cases o.paths.getLast? <;> rfl

end Occurrence

namespace Query

/-- A query without queries in it. -/
def isLeaf : Query → Bool
  | bool _ | nested .. => false
  | _ => true

mutual

/-- The leaves of a tree in their places; the query that matches everything tests nothing and
does not count. -/
def occurrences : Query → List Occurrence
  | matchAll => []
  | bool ⟨must, filter, mustNot, should, _⟩ =>
    bucketOccurrences .must must ++ bucketOccurrences .filter filter ++
      bucketOccurrences .mustNot mustNot ++ bucketOccurrences .should should
  | nested path query => (occurrences query).map (.underPath path)
  | q => [⟨[], [], q⟩]

def bucketOccurrences (c : Clause) : List Query → List Occurrence
  | [] => []
  | q :: qs => (occurrences q).map (.inBucket c) ++ bucketOccurrences c qs

end

@[simp] theorem bucketOccurrences_eq_flatMap (c : Clause) (qs : List Query) :
    bucketOccurrences c qs = qs.flatMap fun q => q.occurrences.map (.inBucket c) := by
  induction qs with
  | nil => rfl
  | cons q qs ih => rw [bucketOccurrences, ih, List.flatMap_cons]

theorem occurrences_bool (b : BoolQuery Query) :
    (bool b).occurrences = Clause.all.flatMap fun c =>
      (b.bucket c).flatMap fun q => q.occurrences.map (.inBucket c) := by
  cases b
  simp [occurrences, Clause.all, BoolQuery.bucket]

theorem occurrences_leaf {q : Query} (h : q.isLeaf = true) (hne : q ≠ .matchAll) :
    q.occurrences = [⟨[], [], q⟩] := by
  cases q <;> simp_all [isLeaf, occurrences]

theorem toJson_bool (b : BoolQuery Query) :
    (bool b).toJson = .keyed "bool" (.obj <|
      (Clause.all.flatMap fun c => bucketMember c ((b.bucket c).map toJson)) ++
        flagMember b.adjustPureNegative) := by
  cases b
  simp [toJson, Clause.all, BoolQuery.bucket]

private theorem sizeOf_lt_bool {b : BoolQuery Query} {c : Clause} {q : Query}
    (h : q ∈ b.bucket c) : sizeOf q < sizeOf (bool b) := by
  have hq := List.sizeOf_lt_of_mem h
  cases b
  cases c <;> simp only [BoolQuery.bucket] at hq <;> simp <;> omega

/-- Induction over a tree, the children of a boolean node taken bucket by bucket. -/
@[elab_as_elim] theorem tree_induction {motive : Query → Prop}
    (leaf : ∀ q, q.isLeaf = true → motive q)
    (bool : ∀ b : BoolQuery Query, (∀ c, ∀ q ∈ b.bucket c, motive q) → motive (.bool b))
    (nested : ∀ path q, motive q → motive (.nested path q)) (q : Query) : motive q := by
  match q with
  | .bool b => exact bool b fun c q _ => tree_induction leaf bool nested q
  | .nested path q => exact nested path q (tree_induction leaf bool nested q)
  | .matchAll | .fullText .. | .phrase .. | .term .. | .terms .. | .exists _ | .range ..
  | .queryString .. => exact leaf _ rfl
termination_by sizeOf q
decreasing_by
  · exact sizeOf_lt_bool ‹_›
  · rw [Query.nested.sizeOf_spec]
    omega

end Query
end SearchQuery
