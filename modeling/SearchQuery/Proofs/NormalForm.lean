import SearchQuery.Proofs.Placement
import SearchQuery.Proofs.QueryNodes
import Mathlib.Data.List.ReduceOption

/-! # The shape of compiled requests

A compiled query matches everything or is a boolean node over leaves and nested groups; a group is
a nested node around a boolean node over leaves, and there is one for each nested path. No node is
without children and no leaf tests against nothing. -/
namespace SearchQuery

/-- The bounds that are there. -/
def RangeBounds.given (b : RangeBounds) : List Json := [b.gt, b.gte, b.lt, b.lte].reduceOption

namespace Query

/-- A leaf with something to test: a set has members, a range has bounds, and none of these is null
or a blank text. -/
def IsSoundLeaf : Query → Prop
  | terms _ values => values ≠ [] ∧ ∀ v ∈ values, v.isBlank = false
  | range _ bounds => bounds.given ≠ [] ∧ ∀ v ∈ bounds.given, v.isBlank = false
  | matchAll | bool _ | nested .. => False
  | _ => True

/-- A child of the outer node: a leaf, or a nested group with leaves in it. -/
inductive IsNormalChild : Query → Prop
  | leaf {q} (hleaf : IsSoundLeaf q) : IsNormalChild q
  | group {path inner} (hflag : inner.adjustPureNegative = false)
      (hsome : ∃ c, inner.bucket c ≠ []) (hleaf : ∀ c, ∀ q ∈ inner.bucket c, IsSoundLeaf q) :
      IsNormalChild (.nested path (.bool inner))

inductive IsNormal : Query → Prop
  | matchAll : IsNormal .matchAll
  | bool {b} (hflag : b.adjustPureNegative = true) (hsome : ∃ c, b.bucket c ≠ [])
      (hchild : ∀ c, ∀ q ∈ b.bucket c, IsNormalChild q) : IsNormal (.bool b)

mutual

/-- The paths of the nested nodes of a tree. -/
def nestedPaths : Query → List String
  | bool ⟨must, filter, mustNot, should, _⟩ =>
    bucketPaths must ++ bucketPaths filter ++ bucketPaths mustNot ++ bucketPaths should
  | nested path query => path :: nestedPaths query
  | _ => []

def bucketPaths : List Query → List String
  | [] => []
  | q :: qs => nestedPaths q ++ bucketPaths qs

end

@[simp] theorem bucketPaths_eq_flatMap (qs : List Query) :
    bucketPaths qs = qs.flatMap nestedPaths := by
  induction qs with
  | nil => rfl
  | cons q qs ih => rw [bucketPaths, ih, List.flatMap_cons]

theorem nestedPaths_bool (b : BoolQuery Query) :
    (bool b).nestedPaths = Clause.all.flatMap fun c => (b.bucket c).flatMap nestedPaths := by
  cases b
  simp [nestedPaths, Clause.all, BoolQuery.bucket]

theorem Contains.mem_nestedPaths {q inner : Query} {path : String}
    (h : q.Contains (.nested path inner)) : path ∈ q.nestedPaths := by
  generalize hnode : Query.nested path inner = node at h
  induction h with
  | refl =>
    subst hnode
    exact List.mem_cons_self
  | @bool b c child q hchild _ ih =>
    rw [nestedPaths_bool]
    exact List.mem_flatMap.2 ⟨c, c.mem_all, List.mem_flatMap.2 ⟨child, hchild, ih hnode⟩⟩
  | nested _ ih => exact List.mem_cons_of_mem _ (ih hnode)

theorem IsSoundLeaf.nestedPaths_eq_nil {q : Query} (h : q.IsSoundLeaf) : q.nestedPaths = [] := by
  cases q with
  | bool | nested => cases h
  | _ => rfl

end Query

namespace Condition

variable {c : Condition} {catalog : Option Catalog} {l : Leaf}

theorem isBlank_of_mem_setMembers {value v : Json} (h : v ∈ setMembers value) :
    v.isBlank = false := by
  cases value with
  | arr items =>
    obtain ⟨item, hitem, rfl⟩ := List.mem_map.1 h
    have hblank : item.isBlank = false := by simpa using (List.mem_filter.1 hitem).2
    cases item with
    | str s => exact (Text.isBlank_trim s).trans hblank
    | _ => exact hblank
  | str s =>
    obtain ⟨part, -, hpart⟩ := List.mem_filterMap.1 h
    obtain ⟨t, ht, rfl⟩ := Option.map_eq_some_iff.1 hpart
    exact (Text.trimmed?_spec ht).1
  | null => cases h
  | _ =>
    obtain rfl := List.mem_singleton.1 h
    rfl

/-- The upper end of a range is not blank. -/
theorem isBlank_upperBound (v : Option Json) :
    ((nonBlank? v).getD (.str defaultUpperBound)).isBlank = false := by
  cases hv : nonBlank? v with
  | none => decide
  | some j => exact (nonBlank?_eq_some_iff.1 hv).2

theorem leafQuery_isSoundLeaf {field : String} {info : Option Field} {value : Json} {query : Query}
    {target : Target} (hvalue : c.operator.requiresValue = true → value.isBlank = false)
    (h : c.leafQuery field info value = some (query, target)) : query.IsSoundLeaf := by
  unfold leafQuery at h
  cases hop : c.operator <;> simp only [hop] at h
  case equals | exact | notExact =>
    cases h
    unfold exactQuery
    split <;> trivial
  case «in» =>
    split at h
    · cases h
    · rename_i hsome
      cases h
      exact ⟨by simpa using hsome, fun v => isBlank_of_mem_setMembers⟩
  case between =>
    cases h
    have hlower : value.isBlank = false := hvalue (by rw [hop]; rfl)
    have hupper := isBlank_upperBound c.value2
    simpa [Query.IsSoundLeaf, RangeBounds.given, RangeBounds.between]
      using ⟨hlower, hupper⟩
  case gt | gte | lt | lte | eq =>
    cases h
    have hgiven : value.isBlank = false := hvalue (by rw [hop]; rfl)
    simpa [Query.IsSoundLeaf, RangeBounds.given, RangeBounds.between]
      using hgiven
  case unknown => cases h
  all_goals
    cases h
    trivial

/-- An operator that needs a value has one in a condition with a leaf. -/
theorem leaf?_value (h : c.leaf? catalog = some l) (hrequired : c.operator.requiresValue = true) :
    (c.value.getD .null).isBlank = false := by
  simp only [leaf?, Option.bind_eq_bind, Option.bind_eq_some_iff, hrequired, Bool.true_and] at h
  obtain ⟨_, -, h⟩ := h
  cases hv : nonBlank? c.value with
  | none => simp [hv] at h
  | some v =>
    obtain ⟨hvalue, hblank⟩ := nonBlank?_eq_some_iff.1 hv
    rw [hvalue]
    exact hblank

theorem leaf?_isSoundLeaf (h : c.leaf? catalog = some l) : l.query.IsSoundLeaf := by
  obtain ⟨-, query, target, hq, hl⟩ := leaf?_eq_some h
  rw [hl]
  exact leafQuery_isSoundLeaf (leaf?_value h) hq

/-- The nested path of a condition is trimmed and not blank, wherever it comes from. -/
theorem path?_spec {info : Option Field} {path : String} (h : c.path? info = some path) :
    Text.isBlank path = false ∧ Text.trim path = path := by
  rcases Option.or_eq_some_iff.1 h with hown | ⟨-, hfield⟩
  · obtain ⟨given, -, hgiven⟩ := Option.bind_eq_some_iff.1 hown
    exact Text.trimmed?_spec hgiven
  · obtain ⟨f, -, hf⟩ := Option.bind_eq_some_iff.1 hfield
    obtain ⟨given, -, hgiven⟩ := Option.bind_eq_some_iff.1 hf
    exact Text.trimmed?_spec hgiven

end Condition

theorem Timeframe.query?_isSoundLeaf {t : Timeframe} {q : Query} (h : t.query? = some q) :
    q.IsSoundLeaf := by
  obtain ⟨field, -, rfl⟩ := Option.map_eq_some_iff.1 h
  have hupper := Condition.isBlank_upperBound t.lte
  cases hlower : nonBlank? t.gte with
  | none => simpa [Query.IsSoundLeaf, RangeBounds.given] using hupper
  | some v =>
    simpa [Query.IsSoundLeaf, RangeBounds.given]
      using ⟨(nonBlank?_eq_some_iff.1 hlower).2, hupper⟩

namespace Placement

variable {ls : List Leaf} {range : Option Query} {c : Clause} {q : Query}

theorem mem_queriesAt {path : Option String} :
    q ∈ queriesAt ls path c ↔ ∃ l ∈ ls, l.path = path ∧ l.clause = c ∧ l.query = q := by
  simp only [queriesAt, List.mem_map, mem_membersAt, and_assoc]

theorem mem_wrappers : q ∈ wrappers ls c ↔
    ∃ path ∈ paths ls, (inner ls path).primary? = some c ∧
      q = .nested path (.bool (inner ls path)) := by
  simp [wrappers, and_assoc, eq_comm]

/-- A child of the outer node comes from a leaf, wraps a group, or is the timeframe. -/
theorem mem_bucket_outer : q ∈ (outer ls range).bucket c ↔
    (∃ l ∈ ls, l.path = none ∧ l.clause = c ∧ l.query = q) ∨
      (∃ path ∈ paths ls, (inner ls path).primary? = some c ∧
        q = .nested path (.bool (inner ls path))) ∨
      (c = .filter ∧ range = some q) := by
  rw [outer, BoolQuery.bucket_ofBuckets, List.mem_append, List.mem_append, mem_queriesAt,
    mem_wrappers, or_assoc]
  by_cases hc : c = .filter <;> simp [hc]

theorem isNormalChild_of_mem_outer (hleaf : ∀ l ∈ ls, l.query.IsSoundLeaf)
    (hrange : ∀ r, range = some r → r.IsSoundLeaf) (h : q ∈ (outer ls range).bucket c) :
    q.IsNormalChild := by
  rcases mem_bucket_outer.1 h with ⟨l, hl, -, -, rfl⟩ | ⟨path, -, hprimary, rfl⟩ | ⟨-, hr⟩
  · exact .leaf (hleaf l hl)
  · refine .group rfl ⟨c, ((BoolQuery.primary?_eq_some_iff _ _).1 hprimary).1⟩ fun d q hq => ?_
    rw [inner, BoolQuery.bucket_ofBuckets] at hq
    obtain ⟨l, hl, -, -, rfl⟩ := mem_queriesAt.1 hq
    exact hleaf l hl
  · exact .leaf (hrange q hr)

/-- The outer node has one nested node for each nested path of its leaves. -/
theorem nestedPaths_outer_perm (hleaf : ∀ l ∈ ls, l.query.IsSoundLeaf)
    (hrange : ∀ r, range = some r → r.IsSoundLeaf) :
    (Query.bool (outer ls range)).nestedPaths.Perm (paths ls) := by
  have hqueries (path : Option String) (d : Clause) :
      (queriesAt ls path d).flatMap Query.nestedPaths = [] := by
    rw [List.flatMap_eq_nil_iff]
    intro q hq
    obtain ⟨l, hl, -, -, rfl⟩ := mem_queriesAt.1 hq
    exact (hleaf l hl).nestedPaths_eq_nil
  have hinner (path : String) : (Query.bool (inner ls path)).nestedPaths = [] := by
    simp [Query.nestedPaths_bool, inner, hqueries]
  have hwrappers (d : Clause) : (wrappers ls d).flatMap Query.nestedPaths =
      (paths ls).filter fun path => (inner ls path).primary? = some d := by
    simp only [wrappers, List.flatMap_map, Query.nestedPaths.eq_2, hinner]
    exact List.flatMap_singleton' _
  have hlast (d : Clause) :
      (if d = .filter then range.toList else []).flatMap Query.nestedPaths = [] := by
    rw [List.flatMap_eq_nil_iff]
    intro r hr
    split at hr
    · exact (hrange r (Option.mem_toList.1 hr)).nestedPaths_eq_nil
    · cases hr
  have hbucket (d : Clause) : ((outer ls range).bucket d).flatMap Query.nestedPaths =
      (paths ls).filter fun path => (inner ls path).primary? = some d := by
    rw [outer, BoolQuery.bucket_ofBuckets, List.flatMap_append, List.flatMap_append, hqueries,
      hwrappers, hlast, List.nil_append, List.append_nil]
  rw [Query.nestedPaths_bool, funext hbucket]
  exact flatMap_filter_primary_perm ls

end Placement

namespace FilterForm

open Placement

variable (f : FilterForm) (catalog : Option Catalog)

theorem isSoundLeaf_of_mem_leaves {l : Leaf} (h : l ∈ f.leaves catalog) : l.query.IsSoundLeaf := by
  obtain ⟨c, -, hc⟩ := mem_leaves.1 h
  exact Condition.leaf?_isSoundLeaf hc

theorem isSoundLeaf_of_range? {r : Query} (h : f.range? = some r) : r.IsSoundLeaf := by
  obtain ⟨t, -, ht⟩ := Option.bind_eq_some_iff.1 h
  exact Timeframe.query?_isSoundLeaf ht

theorem compile_isNormal : (f.compile catalog).query.IsNormal := by
  rw [compile_query]
  split
  · exact .matchAll
  · rename_i hempty
    refine .bool rfl ?_ fun c q hq => ?_
    · simpa [BoolQuery.isEmpty_iff] using hempty
    · rw [BoolQuery.bucket_adjust] at hq
      exact isNormalChild_of_mem_outer (fun l => f.isSoundLeaf_of_mem_leaves catalog)
        (fun r => f.isSoundLeaf_of_range?) hq

theorem nestedPaths_compile_perm :
    (f.compile catalog).query.nestedPaths.Perm (paths (f.leaves catalog)) := by
  have hperm : (Query.bool (f.placement catalog)).nestedPaths.Perm (paths (f.leaves catalog)) :=
    nestedPaths_outer_perm (fun l => f.isSoundLeaf_of_mem_leaves catalog)
      (fun r => f.isSoundLeaf_of_range?)
  rw [compile_query]
  split
  · rename_i hempty
    have hnil := (BoolQuery.isEmpty_iff _).1 hempty
    have hnone : (Query.bool (f.placement catalog)).nestedPaths = Query.matchAll.nestedPaths := by
      rw [Query.nestedPaths_bool]
      simp only [hnil, List.flatMap_nil]
      rfl
    rwa [hnone] at hperm
  · simpa [Query.nestedPaths_bool] using hperm

theorem path_spec_of_mem_paths {path : String} (h : path ∈ paths (f.leaves catalog)) :
    path ≠ "" ∧ Text.trim path = path := by
  obtain ⟨l, hl, hpath⟩ := mem_paths.1 h
  obtain ⟨c, -, hc⟩ := mem_leaves.1 hl
  rw [Condition.leaf?_path hc] at hpath
  obtain ⟨hblank, htrim⟩ := Condition.path?_spec hpath
  exact ⟨Text.ne_empty_of_isBlank hblank, htrim⟩

/-- The normal form of a compiled query, with one group for each nested path. In its document the
boolean nodes are those of the tree, each written without its empty buckets. -/
theorem compile_normal_form :
    (f.compile catalog).query.IsNormal ∧
      ((f.compile catalog).query.nestedPaths.Nodup ∧
        ∀ path ∈ (f.compile catalog).query.nestedPaths, path ≠ "" ∧ Text.trim path = path) ∧
      (∀ b, (f.compile catalog).query.Contains (.bool b) → ∃ trail scope body,
        Lint.Reached (f.compile catalog).toJson trail scope [("bool", body)] ∧
          b.WrittenAs body) ∧
      ∀ trail scope ms body, Lint.Reached (f.compile catalog).toJson trail scope ms →
        ("bool", body) ∈ ms →
          ∃ b, (f.compile catalog).query.Contains (.bool b) ∧ b.WrittenAs body := by
  have hperm := f.nestedPaths_compile_perm catalog
  refine ⟨f.compile_isNormal catalog, ⟨hperm.nodup_iff.2 (nodup_paths _), ?_⟩, ?_, ?_⟩
  · intro path hpath
    exact f.path_spec_of_mem_paths catalog (hperm.mem_iff.1 hpath)
  · intro b hb
    obtain ⟨body, hjson, hwritten⟩ := Query.exists_toJson_bool b
    obtain ⟨trail, scope, hreached⟩ := Lint.reached_toJson_iff.2 ⟨_, hb, hjson⟩
    exact ⟨trail, scope, body, hreached, hwritten⟩
  · intro trail scope ms body hreached hmem
    obtain ⟨q, hcontains, hjson⟩ := hreached.exists_toJson
    obtain ⟨b, rfl, hwritten⟩ := Query.exists_bool_of_mem_toJson hjson hmem
    exact ⟨b, hcontains, hwritten⟩

end FilterForm

end SearchQuery
