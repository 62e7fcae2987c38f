import SearchQuery.Proofs.NormalForm

/-! # Which conditions survive

A condition has a leaf iff it names a field, has an operator that is known, and has what the
operator needs: a value that is filled in, and for a set a value with a member. Conditions that do
not survive leave no trace in the request, wherever they stand; each one that does adds one leaf,
and at most one nested node. -/
namespace SearchQuery

/-- Whether a value is filled in: it is not null and no blank text. -/
def Json.IsFilled (v : Json) : Prop := v ≠ .null ∧ ∀ s, v = .str s → Text.trim s ≠ ""

/-- Whether a value given as a set has a member: a list an item that is filled in, a text a part
between commas and line breaks that is not blank; any other value but null is a member itself. -/
def Json.HasMember : Json → Prop
  | .arr items => ∃ item ∈ items, item.IsFilled
  | .str s =>
    ∃ part ∈ s.toList.splitOnP fun c => c = ',' || c = '\n', Text.trim (.ofList part) ≠ ""
  | .null => False
  | _ => True

/-- What a condition needs for a leaf. -/
structure Condition.Survives (c : Condition) : Prop where
  field : Text.trim c.field ≠ ""
  operator : c.operator ∈ Operator.known
  value : c.operator = .exists ∨ c.operator = .notExists ∨ ∃ v, c.value = some v ∧ v.IsFilled
  members : c.operator = .in → ∃ v, c.value = some v ∧ v.HasMember

/-- Conditions are left out of a list that do not survive, at any places. -/
inductive Pruned : List Condition → List Condition → Prop
  | nil : Pruned [] []
  | keep {c cs ds} (h : Pruned cs ds) : Pruned (c :: cs) (c :: ds)
  | drop {c cs ds} (hc : ¬ c.Survives) (h : Pruned cs ds) : Pruned (c :: cs) ds

/-- A query has what another one has and a leaf more, and a nested node for its path if there was
none. -/
structure Leaf.Joins (l : Leaf) (old new : Query) : Prop where
  queries : (new.occurrences.map Occurrence.query).Perm
    (l.query :: old.occurrences.map Occurrence.query)
  paths : (∀ path, l.path = some path → path ∈ old.nestedPaths) ∧
      new.nestedPaths.Perm old.nestedPaths ∨
    ∃ path, l.path = some path ∧ path ∉ old.nestedPaths ∧
      new.nestedPaths.Perm (path :: old.nestedPaths)

theorem Json.isFilled_iff (v : Json) : v.IsFilled ↔ v.isBlank = false := by
  cases v with
  | str s => simp [IsFilled, isBlank, Text.trim_eq_empty_iff]
  | _ => simp [IsFilled, isBlank]

theorem isSome_nonBlank? (v : Option Json) :
    (nonBlank? v).isSome = true ↔ ∃ j, v = some j ∧ j.IsFilled := by
  cases v with
  | none => simp [nonBlank?]
  | some j => simp [nonBlank?, Option.isSome_filter, Json.isFilled_iff]

namespace Condition

theorem setMembers_ne_nil_iff (v : Json) : setMembers v ≠ [] ↔ v.HasMember := by
  cases v with
  | arr items => simp [setMembers, Json.HasMember, Json.isFilled_iff, List.filter_eq_nil_iff]
  | str s =>
    simp [setMembers, Json.HasMember, List.filterMap_eq_nil_iff, Text.trimmed?_eq_none_iff]
  | _ => simp [setMembers, Json.HasMember]

/-- An operator makes something of a value unless it is unknown or the value is an empty set. -/
theorem isSome_leafQuery {c : Condition} {field : String} {info : Option Field} {value : Json} :
    (c.leafQuery field info value).isSome = true ↔
      c.operator ∈ Operator.known ∧ (c.operator = .in → value.HasMember) := by
  rw [← setMembers_ne_nil_iff]
  unfold leafQuery
  cases c.operator <;> simp [Operator.known]

theorem requiresValue_iff (o : Operator) :
    o.requiresValue = true ↔ o ≠ .exists ∧ o ≠ .notExists := by
  cases o <;> simp [Operator.requiresValue]

/-- What null is not is found only in a value that is there. -/
theorem getD_null_iff {p : Json → Prop} (hnull : ¬ p .null) (v : Option Json) :
    p (v.getD .null) ↔ ∃ j, v = some j ∧ p j := by
  cases v <;> simp [hnull]

theorem Survives.of_leaf? {c : Condition} {catalog : Option Catalog} {l : Leaf}
    (h : c.leaf? catalog = some l) : c.Survives := by
  obtain ⟨hfield, query, target, hq, -⟩ := leaf?_eq_some h
  obtain ⟨hoperator, hmembers⟩ := isSome_leafQuery.1 (Option.isSome_of_eq_some hq)
  refine ⟨?_, hoperator, ?_, fun hin => ?_⟩
  · rw [ne_eq, Text.trim_eq_empty_iff, hfield]
    exact Bool.false_ne_true
  · by_cases hrequired : c.operator.requiresValue = true
    · have hfilled : (c.value.getD .null).IsFilled :=
        (Json.isFilled_iff _).2 (leaf?_value h hrequired)
      exact Or.inr (Or.inr ((getD_null_iff (by simp [Json.IsFilled]) _).1 hfilled))
    · rw [requiresValue_iff] at hrequired
      tauto
  · exact (getD_null_iff id c.value).1 (hmembers hin)

theorem Survives.exists_leaf {c : Condition} (h : c.Survives) (catalog : Option Catalog) :
    ∃ l, c.leaf? catalog = some l := by
  have hfield := Text.trimmed?_of_ne_empty h.field
  have hvalue : (c.operator.requiresValue && (nonBlank? c.value).isNone) = false := by
    rcases h.value with ho | ho | hfilled
    · rw [ho]
      rfl
    · rw [ho]
      rfl
    · have hsome := (isSome_nonBlank? c.value).2 hfilled
      rw [← Option.not_isSome, hsome]
      exact Bool.and_false _
  have hquery : (c.leafQuery (Text.trim c.field) (c.info? catalog)
      (c.value.getD .null)).isSome = true :=
    isSome_leafQuery.2 ⟨h.operator, fun hin => (getD_null_iff id c.value).2 (h.members hin)⟩
  obtain ⟨⟨query, target⟩, hq⟩ := Option.isSome_iff_exists.1 hquery
  refine ⟨⟨target.clause c.clause, c.path? (c.info? catalog), query⟩, ?_⟩
  rw [info?] at hq
  simp [leaf?, hfield, hvalue, hq, info?]

/-- The leaf of a condition that survives is what its operator makes of the value. -/
theorem Survives.leaf?_eq {c : Condition} (h : c.Survives) (catalog : Option Catalog) :
    c.leaf? catalog =
      (c.leafQuery (Text.trim c.field) (c.info? catalog) (c.value.getD .null)).map fun p =>
        ⟨p.2.clause c.clause, c.path? (c.info? catalog), p.1⟩ := by
  obtain ⟨l, hl⟩ := h.exists_leaf catalog
  obtain ⟨-, query, target, hq, rfl⟩ := leaf?_eq_some hl
  rw [hl, hq]
  rfl

/-- A condition has a leaf iff it survives, whatever the catalog. -/
theorem exists_leaf_iff (c : Condition) (catalog : Option Catalog) :
    (∃ l, c.leaf? catalog = some l) ↔ c.Survives :=
  ⟨fun ⟨_, h⟩ => .of_leaf? h, fun h => h.exists_leaf catalog⟩

theorem leaf?_eq_none_iff (c : Condition) (catalog : Option Catalog) :
    c.leaf? catalog = none ↔ ¬ c.Survives := by
  rw [← exists_leaf_iff c catalog, Option.eq_none_iff_forall_ne_some, not_exists]

end Condition

/-- Conditions that do not survive have no part in the leaves. -/
theorem Pruned.leaves_eq {cs ds : List Condition} (h : Pruned cs ds) (catalog : Option Catalog) :
    (ds.filterMap fun c => c.leaf? catalog) = cs.filterMap fun c => c.leaf? catalog := by
  induction h with
  | nil => rfl
  | keep _ ih => rw [List.filterMap_cons, List.filterMap_cons, ih]
  | @drop c _ _ hc _ ih =>
    have hnone : c.leaf? catalog = none := (c.leaf?_eq_none_iff catalog).2 hc
    rw [ih, List.filterMap_cons, hnone]

namespace Placement

/-- One more leaf brings its path, unless that is there. -/
theorem mem_paths_insert {before after : List Leaf} {l : Leaf} {path : String} :
    path ∈ paths (before ++ l :: after) ↔ l.path = some path ∨ path ∈ paths (before ++ after) := by
  simp only [mem_paths, List.mem_append, List.mem_cons]
  grind

theorem paths_insert_perm (before after : List Leaf) (l : Leaf) :
    (∀ path, l.path = some path → path ∈ paths (before ++ after)) ∧
        (paths (before ++ l :: after)).Perm (paths (before ++ after)) ∨
      ∃ path, l.path = some path ∧ path ∉ paths (before ++ after) ∧
        (paths (before ++ l :: after)).Perm (path :: paths (before ++ after)) := by
  have hnodup := nodup_paths (before ++ after)
  have hnodup' := nodup_paths (before ++ l :: after)
  by_cases hnew : ∃ path, l.path = some path ∧ path ∉ paths (before ++ after)
  · obtain ⟨path, hpath, hnew⟩ := hnew
    refine Or.inr ⟨path, hpath, hnew, ?_⟩
    refine (List.perm_ext_iff_of_nodup hnodup' (hnodup.cons hnew)).2 fun p => ?_
    rw [mem_paths_insert, hpath, Option.some_inj, List.mem_cons, eq_comm]
  · have hold : ∀ path, l.path = some path → path ∈ paths (before ++ after) := by
      intro path hpath
      by_contra hmem
      exact hnew ⟨path, hpath, hmem⟩
    refine Or.inl ⟨hold, (List.perm_ext_iff_of_nodup hnodup' hnodup).2 fun path => ?_⟩
    rw [mem_paths_insert, or_iff_right_of_imp (hold path)]

end Placement

namespace FilterForm

open Placement

variable (f : FilterForm) (catalog : Option Catalog)

/-- The leaf queries of a request are those of the conditions and that of the timeframe. -/
theorem queries_compile_perm : ((f.compile catalog).query.occurrences.map Occurrence.query).Perm
    ((f.leaves catalog).map Leaf.query ++ f.range?.toList) := by
  have h := (occurrences_compile_perm f catalog).map Occurrence.query
  simpa [Function.comp_def] using h

theorem compile_query_eq_matchAll_iff :
    (f.compile catalog).query = .matchAll ↔ f.leaves catalog = [] ∧ f.range? = none := by
  constructor
  · intro h
    have hperm := f.queries_compile_perm catalog
    rw [h] at hperm
    have hnil := List.nil_perm.1 hperm
    simpa using hnil
  · rintro ⟨hleaves, hrange⟩
    rw [compile_query, placement, hleaves, hrange]
    rfl

theorem leaves_eq_nil_iff : f.leaves catalog = [] ↔ ∀ c ∈ f.conditions, ¬ c.Survives := by
  simp only [leaves, List.filterMap_eq_nil_iff, Condition.leaf?_eq_none_iff]

theorem range?_eq_none_iff :
    f.range? = none ↔ ∀ t, f.timeframe = some t → Text.trim t.field = "" := by
  have hfield (t : Timeframe) : t.query? = none ↔ Text.trim t.field = "" := by
    rw [Timeframe.query?, Option.map_eq_none_iff, Text.trimmed?_eq_none_iff]
  simp only [range?, Option.bind_eq_none_iff, hfield]

/-- A condition with a leaf adds it to the request. -/
theorem joins_compile_insert (before after : List Condition) {x : Condition} {l : Leaf}
    (h : x.leaf? catalog = some l) :
    l.Joins ((f.withConditions (before ++ after)).compile catalog).query
      ((f.withConditions (before ++ x :: after)).compile catalog).query := by
  let first := before.filterMap fun c => c.leaf? catalog
  let last := after.filterMap fun c => c.leaf? catalog
  have hold : (f.withConditions (before ++ after)).leaves catalog = first ++ last := by
    simp [first, last]
  have hnew : (f.withConditions (before ++ x :: after)).leaves catalog = first ++ l :: last := by
    simp [first, last, h]
  constructor
  · have hqueries := (f.withConditions (before ++ after)).queries_compile_perm catalog
    have hqueries' := (f.withConditions (before ++ x :: after)).queries_compile_perm catalog
    rw [hold, range?_withConditions] at hqueries
    rw [hnew, range?_withConditions] at hqueries'
    refine hqueries'.trans (List.Perm.trans ?_ (hqueries.symm.cons l.query))
    simp
  · have hpaths := (f.withConditions (before ++ after)).nestedPaths_compile_perm catalog
    have hpaths' := (f.withConditions (before ++ x :: after)).nestedPaths_compile_perm catalog
    rw [hold] at hpaths
    rw [hnew] at hpaths'
    simp only [hpaths.mem_iff]
    refine (paths_insert_perm first last l).imp ?_ ?_
    · rintro ⟨hmem, hperm⟩
      exact ⟨hmem, hpaths'.trans (hperm.trans hpaths.symm)⟩
    · rintro ⟨path, hpath, hmem, hperm⟩
      exact ⟨path, hpath, hmem, hpaths'.trans (hperm.trans (hpaths.symm.cons path))⟩

end FilterForm

/-- What survives and what it does to the request. A condition has a leaf iff it survives; leaving
out others changes nothing; nothing is searched for iff none survives and no timeframe names a
field; and one more that survives adds its leaf, and a nested node if its path has none. -/
theorem conditions_survive (catalog : Option Catalog) :
    (∀ c : Condition, (∃ l, c.leaf? catalog = some l) ↔ c.Survives) ∧
    (∀ (f : FilterForm) (cs : List Condition), Pruned f.conditions cs →
      (f.withConditions cs).compile catalog = f.compile catalog) ∧
    (∀ f : FilterForm, (f.compile catalog).query = .matchAll ↔
      (∀ c ∈ f.conditions, ¬ c.Survives) ∧
        ∀ t, f.timeframe = some t → Text.trim t.field = "") ∧
    ∀ (f : FilterForm) (before after : List Condition) (x : Condition), x.Survives →
      ∃ l, x.leaf? catalog = some l ∧
        l.Joins ((f.withConditions (before ++ after)).compile catalog).query
          ((f.withConditions (before ++ x :: after)).compile catalog).query := by
  refine ⟨fun c => c.exists_leaf_iff catalog, ?_, ?_, ?_⟩
  · intro f cs h
    refine FilterForm.compile_eq_iff.2 ⟨rfl, ?_⟩
    rw [FilterForm.placement, FilterForm.placement, FilterForm.leaves_withConditions,
      h.leaves_eq catalog]
    rfl
  · intro f
    rw [f.compile_query_eq_matchAll_iff, f.leaves_eq_nil_iff, f.range?_eq_none_iff]
  · intro f before after x hx
    obtain ⟨l, hl⟩ := hx.exists_leaf catalog
    exact ⟨l, hl, f.joins_compile_insert catalog before after hl⟩

end SearchQuery
