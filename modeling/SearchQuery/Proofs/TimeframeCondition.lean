import SearchQuery.Proofs.Survival

/-! # A timeframe as a condition

A timeframe with a field and a lower bound asks for what a condition on a range asks for. The two
make one request, except that the range of the timeframe comes behind the nested groups of its
bucket and that of the condition before them. -/
namespace SearchQuery

/-- A value moves from the end of a list without it to its start unnoticed only if that is empty. -/
theorem append_singleton_eq_cons_iff {α : Type} {xs : List α} {x : α} (h : x ∉ xs) :
    xs ++ [x] = x :: xs ↔ xs = [] := by
  cases xs with
  | nil => simp
  | cons y ys =>
    obtain ⟨hne, -⟩ := not_or.1 (mt List.mem_cons.2 h)
    simp [Ne.symm hne]

/-- A condition asks for the range of a timeframe, and is not negated. -/
structure Timeframe.StatedBy (t : Timeframe) (c : Condition) : Prop where
  clause : c.clause ≠ .mustNot
  field : c.field = t.field
  operator : c.operator = .between
  value : c.value = t.gte
  value2 : c.value2 = t.lte
  nestedPath : c.nestedPath = none

namespace Timeframe

/-- The range of a timeframe with a field and a lower bound. -/
def range (t : Timeframe) : Query :=
  .range (Text.trim t.field) { gte := t.gte, lte := some ((nonBlank? t.lte).getD (.str "now")) }

theorem query?_eq_range {t : Timeframe} (hfield : Text.trim t.field ≠ "")
    (hgte : ∃ v, t.gte = some v ∧ v.IsFilled) : t.query? = some t.range := by
  obtain ⟨v, hv⟩ := Option.isSome_iff_exists.1 ((isSome_nonBlank? t.gte).2 hgte)
  have hlower : nonBlank? t.gte = t.gte := hv.trans (nonBlank?_eq_some_iff.1 hv).1.symm
  rw [query?, Text.trimmed?_of_ne_empty hfield, hlower]
  rfl

/-- The leaf of the condition is the range of the timeframe, outside of all groups. -/
theorem StatedBy.leaf?_eq {t : Timeframe} {c : Condition} {catalog : Option Catalog}
    (h : t.StatedBy c) (hfield : Text.trim t.field ≠ "")
    (hgte : ∃ v, t.gte = some v ∧ v.IsFilled)
    (hpath : (c.info? catalog).bind Field.nested? = none) :
    c.leaf? catalog = some ⟨.filter, none, t.range⟩ := by
  obtain ⟨v, hv, hfilled⟩ := hgte
  have hsurvives : c.Survives :=
    ⟨h.field ▸ hfield, by rw [h.operator]; decide, .inr (.inr ⟨v, h.value.trans hv, hfilled⟩),
      fun hin => by simp [h.operator] at hin⟩
  rw [hsurvives.leaf?_eq, Condition.leafQuery, h.operator]
  simp [Condition.path?, h.nestedPath, hpath, Target.clause, h.clause, range, h.field, h.value,
    h.value2, hv, RangeBounds.between, Condition.defaultUpperBound]

end Timeframe

namespace Placement

/-- A leaf without a path has no part in the groups. -/
theorem wrappers_append_direct {ls : List Leaf} {l : Leaf} (h : l.path = none) (c : Clause) :
    wrappers (ls ++ [l]) c = wrappers ls c := by
  have hpaths : paths (ls ++ [l]) = paths ls := by rw [paths_append_singleton, h]
  have hinner : inner (ls ++ [l]) = inner ls :=
    funext fun path => inner_append_singleton_of_ne (by rw [h]; exact nofun)
  rw [wrappers, wrappers, hpaths, hinner]

/-- The timeframe comes behind the groups of the filter. -/
theorem outer_timeframe (ls : List Leaf) (r : Query) : outer ls (some r) =
    { outer ls none with filter := queriesAt ls none .filter ++ wrappers ls .filter ++ [r] } := by
  simp [outer, BoolQuery.ofBuckets]

/-- A filter without a path that comes last comes before the groups of the filter. -/
theorem outer_append_filter (ls : List Leaf) (r : Query) :
    outer (ls ++ [⟨.filter, none, r⟩]) none =
      { outer ls none with filter := queriesAt ls none .filter ++ [r] ++ wrappers ls .filter } := by
  simp [outer, BoolQuery.ofBuckets, wrappers_append_direct, queriesAt_append_singleton]

end Placement

namespace FilterForm

open Placement

/-- The form with another timeframe, or with none. -/
def withTimeframe (f : FilterForm) (t : Option Timeframe) : FilterForm := { f with timeframe := t }

variable (f : FilterForm) (catalog : Option Catalog)

theorem compile_eq_of_filter {f : FilterForm} {catalog : Option Catalog}
    (h : (f.placement catalog).filter ≠ []) :
    f.compile catalog = ⟨f.size.getD 0,
      .bool { f.placement catalog with adjustPureNegative := true }, none⟩ := by
  have hsome : ¬ (f.placement catalog).isEmpty = true := fun hempty =>
    h ((BoolQuery.isEmpty_iff _).1 hempty .filter)
  have hquery := f.compile_query catalog
  rw [if_neg hsome] at hquery
  rw [← hquery]
  rfl

/-- The request of a form with a timeframe. -/
theorem compile_withTimeframe {t : Timeframe} {r : Query} (h : t.query? = some r) :
    (f.withTimeframe (some t)).compile catalog =
      ⟨f.size.getD 0, .bool { outer (f.leaves catalog) none with
        filter := queriesAt (f.leaves catalog) none .filter ++
          wrappers (f.leaves catalog) .filter ++ [r]
        adjustPureNegative := true }, none⟩ := by
  have hplaced : (f.withTimeframe (some t)).placement catalog =
      outer (f.leaves catalog) (some r) := by
    rw [← h]
    rfl
  rw [compile_eq_of_filter (by rw [hplaced, outer_timeframe]; simp), hplaced, outer_timeframe]
  rfl

/-- The request of a form with one more condition, whose leaf goes straight to the filter. -/
theorem compile_withFilter {c : Condition} {r : Query}
    (h : c.leaf? catalog = some ⟨.filter, none, r⟩) :
    ((f.withTimeframe none).withConditions (f.conditions ++ [c])).compile catalog =
      ⟨f.size.getD 0, .bool { outer (f.leaves catalog) none with
        filter := queriesAt (f.leaves catalog) none .filter ++ [r] ++
          wrappers (f.leaves catalog) .filter
        adjustPureNegative := true }, none⟩ := by
  have hplaced : ((f.withTimeframe none).withConditions (f.conditions ++ [c])).placement catalog =
      outer (f.leaves catalog ++ [⟨.filter, none, r⟩]) none := by
    have hlast : [c].filterMap (fun c => c.leaf? catalog) = [⟨.filter, none, r⟩] := by simp [h]
    rw [placement, leaves_withConditions, List.filterMap_append, hlast]
    rfl
  rw [compile_eq_of_filter (by rw [hplaced, outer_append_filter]; simp), hplaced,
    outer_append_filter]
  rfl

theorem isLeaf_of_mem_queriesAt {f : FilterForm} {catalog : Option Catalog}
    {path : Option String} {clause : Clause} {q : Query}
    (h : q ∈ queriesAt (f.leaves catalog) path clause) : q.isLeaf = true := by
  obtain ⟨l, hl, -, -, rfl⟩ := mem_queriesAt.1 h
  obtain ⟨c, -, hc⟩ := mem_leaves.1 hl
  obtain ⟨-, query, target, hquery, rfl⟩ := Condition.leaf?_eq_some hc
  exact (Condition.leafQuery_eq_some hquery).2.1

/-- A form with a timeframe, and the form that has a condition on the range of the timeframe at
its end instead, differ in one place at most: in the filter of the one the range comes behind the
nested groups, in that of the other before them. So their requests are the same iff no nested group
is in the filter. -/
theorem compile_timeframe_condition {t : Timeframe} {c : Condition} (hc : t.StatedBy c)
    (hfield : Text.trim t.field ≠ "") (hgte : ∃ v, t.gte = some v ∧ v.IsFilled)
    (hpath : ∀ cat info path, catalog = some cat → cat.get? (Text.trim t.field) = some info →
      info.nestedPath = some path → Text.trim path = "") :
    ∃ (b : BoolQuery Query) (direct groups : List Query),
      (∀ q ∈ direct, q.isLeaf = true) ∧
      (∀ q ∈ groups, ∃ path body, q = .nested path (.bool body)) ∧
      (f.withTimeframe (some t)).compile catalog =
        ⟨f.size.getD 0, .bool { b with filter := direct ++ groups ++ [t.range] }, none⟩ ∧
      ((f.withTimeframe none).withConditions (f.conditions ++ [c])).compile catalog =
        ⟨f.size.getD 0, .bool { b with filter := direct ++ [t.range] ++ groups }, none⟩ ∧
      ((f.withTimeframe (some t)).compile catalog =
          ((f.withTimeframe none).withConditions (f.conditions ++ [c])).compile catalog ↔
        groups = []) := by
  have hinfo : (c.info? catalog).bind Field.nested? = none := by
    simp only [Condition.info?, Option.bind_eq_none_iff, Field.nested?, Text.trimmed?_eq_none_iff,
      hc.field]
    intro info hget path
    obtain ⟨cat, hcat, hget⟩ := Option.bind_eq_some_iff.1 hget
    exact hpath cat info path hcat hget
  have htimeframe := f.compile_withTimeframe catalog (Timeframe.query?_eq_range hfield hgte)
  have hcondition := f.compile_withFilter catalog (hc.leaf?_eq hfield hgte hinfo)
  have hgroups : ∀ q ∈ wrappers (f.leaves catalog) .filter, ∃ path body,
      q = .nested path (.bool body) := by
    intro q hq
    obtain ⟨path, -, -, rfl⟩ := mem_wrappers.1 hq
    exact ⟨path, _, rfl⟩
  have hrange : t.range ∉ wrappers (f.leaves catalog) .filter := by
    intro hmem
    obtain ⟨_, _, hnested⟩ := hgroups _ hmem
    cases hnested
  refine ⟨{ outer (f.leaves catalog) none with adjustPureNegative := true }, _, _,
    fun q => isLeaf_of_mem_queriesAt, hgroups, htimeframe, hcondition, ?_⟩
  rw [htimeframe, hcondition]
  simp [append_singleton_eq_cons_iff hrange]

/-- Items of a sale that must have an article. -/
def saleForm : FilterForm where
  conditions := [{ field := "items.sku", operator := .exists, nestedPath := some "items" }]

def saleTimeframe : Timeframe := { field := " sold", gte := some (.str "2024-05-01") }

def saleCondition : Condition :=
  { clause := .should, field := " sold", operator := .between, value := some (.str "2024-05-01") }

/-- With the group of the items in the filter, the range is not at the same place. -/
theorem saleForm_timeframe :
    saleTimeframe.StatedBy saleCondition ∧ Text.trim saleTimeframe.field ≠ "" ∧
      (∃ v, saleTimeframe.gte = some v ∧ v.IsFilled) ∧
      (saleForm.withTimeframe (some saleTimeframe)).compile none ≠
        ((saleForm.withTimeframe none).withConditions
          (saleForm.conditions ++ [saleCondition])).compile none := by
  have hstated : saleTimeframe.StatedBy saleCondition := ⟨by decide, rfl, rfl, rfl, rfl, rfl⟩
  have hfield : Text.trim saleTimeframe.field ≠ "" := by decide
  have hgte : ∃ v, saleTimeframe.gte = some v ∧ v.IsFilled :=
    ⟨_, rfl, (Json.isFilled_iff _).2 rfl⟩
  refine ⟨hstated, hfield, hgte, fun hsame => ?_⟩
  obtain ⟨b, direct, groups, hdirect, -, hrequest, -, hiff⟩ :=
    saleForm.compile_timeframe_condition none hstated hfield hgte (fun _ _ _ h => nomatch h)
  rw [hiff.1 hsame, List.append_nil] at hrequest
  let items : Query := .nested "items" (.bool { filter := [.exists "items.sku"] })
  have hfilter : [items] ++ [saleTimeframe.range] = direct ++ [saleTimeframe.range] :=
    congrArg BoolQuery.filter (Query.bool.inj (congrArg Request.query hrequest))
  have hitems : items ∈ direct := List.append_cancel_right hfilter ▸ List.mem_singleton_self items
  cases hdirect items hitems

end FilterForm
end SearchQuery
