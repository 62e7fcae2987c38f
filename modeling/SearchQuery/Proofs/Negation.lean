import SearchQuery.Proofs.Placement
import Mathlib.Algebra.Order.BigOperators.Group.List
import Mathlib.Algebra.Order.Group.Nat

/-! # How often a leaf is negated

A leaf is negated by each negated bucket around it. Its own bucket is what its clause asks for, but
the bucket of a nested group comes on top: a group of negated and optional leaves alone goes to the
negated bucket of the outer node as a whole. In such a group every leaf is negated once too often,
and nowhere else. -/
namespace SearchQuery

/-- How many negated buckets are around a leaf. -/
def Occurrence.negations (o : Occurrence) : Nat := o.buckets.count .mustNot

/-- How many negations the clause of a leaf asks for. -/
def Leaf.negationsDue (l : Leaf) : Nat := if l.clause = .mustNot then 1 else 0

namespace Placement

/-- The group of a leaf has a negated leaf, and no leaf that is required. -/
def InNegatedGroup (ls : List Leaf) (l : Leaf) : Prop :=
  ∃ path, l.path = some path ∧ (∃ k ∈ ls, k.path = some path ∧ k.clause = .mustNot) ∧
    ∀ k ∈ ls, k.path = some path → k.clause = .mustNot ∨ k.clause = .should

theorem bucket_inner_eq_nil_iff {ls : List Leaf} {path : String} {c : Clause} :
    (inner ls path).bucket c = [] ↔ ∀ l ∈ ls, l.path = some path → l.clause ≠ c := by
  simp [inner, queriesAt, membersAt, List.filter_eq_nil_iff]

theorem primary?_inner_eq_mustNot_iff {ls : List Leaf} {path : String} :
    (inner ls path).primary? = some .mustNot ↔
      (∃ l ∈ ls, l.path = some path ∧ l.clause = .mustNot) ∧
        ∀ l ∈ ls, l.path = some path → l.clause = .mustNot ∨ l.clause = .should := by
  rw [BoolQuery.primary?_eq_some_iff, ne_eq]
  simp only [bucket_inner_eq_nil_iff]
  constructor
  · rintro ⟨hsome, hbefore⟩
    refine ⟨by simpa using hsome, ?_⟩
    intro l hl hpath
    cases hc : l.clause with
    | must => exact absurd hc (hbefore .must (by decide) l hl hpath)
    | filter => exact absurd hc (hbefore .filter (by decide) l hl hpath)
    | mustNot => exact Or.inl rfl
    | should => exact Or.inr rfl
  · rintro ⟨hsome, hall⟩
    refine ⟨by simpa using hsome, ?_⟩
    intro d hd l hl hpath hc
    -- neither of the clauses that a leaf of the group may have comes before the negated one
    rcases hall l hl hpath with h | h <;> simp [← hc, h, Clause.rank] at hd

theorem negations_occurrence_of_not {ls : List Leaf} {l : Leaf} (hl : l ∈ ls)
    (h : ¬ InNegatedGroup ls l) : (occurrence ls l).negations = l.negationsDue := by
  cases hpath : l.path with
  | none => simp [occurrence, hpath, Occurrence.negations, Leaf.negationsDue, List.count_singleton]
  | some path =>
    obtain ⟨c, hc⟩ := exists_primary (mem_paths.2 ⟨l, hl, hpath⟩)
    have hne : c ≠ .mustNot := by
      rintro rfl
      exact h ⟨path, hpath, primary?_inner_eq_mustNot_iff.1 hc⟩
    simp [occurrence, hpath, hc, hne, Occurrence.negations, Leaf.negationsDue, List.count_cons]

/-- The bucket of a negated group adds a negation to each of its leaves. -/
theorem negations_occurrence_of_inNegatedGroup {ls : List Leaf} {l : Leaf}
    (h : InNegatedGroup ls l) : (occurrence ls l).negations = l.negationsDue + 1 := by
  obtain ⟨path, hpath, hgroup⟩ := h
  have hc := primary?_inner_eq_mustNot_iff.2 hgroup
  simp [occurrence, hpath, hc, Occurrence.negations, Leaf.negationsDue, List.count_cons]

end Placement

namespace FilterForm

open Placement

/-- The leaves of the request with their negations, as the clauses of the conditions ask for them:
one for a negated leaf, none for any other one and for the timeframe. -/
def negationsAsked (f : FilterForm) (catalog : Option Catalog) : List (Query × Nat) :=
  ((f.leaves catalog).map fun l => (l.query, l.negationsDue)) ++
    f.range?.toList.map fun r => (r, 0)

/-- The leaves of the request with the negations that they have. -/
def negationsMade (f : FilterForm) (catalog : Option Catalog) : List (Query × Nat) :=
  (f.compile catalog).query.occurrences.map fun o => (o.query, o.negations)

theorem negationsMade_perm (f : FilterForm) (catalog : Option Catalog) :
    (f.negationsMade catalog).Perm
      (((f.leaves catalog).map fun l =>
          (l.query, (occurrence (f.leaves catalog) l).negations)) ++
        f.range?.toList.map fun r => (r, 0)) := by
  have h := (occurrences_compile_perm f catalog).map fun o => (o.query, o.negations)
  simpa [negationsMade, Function.comp_def, Occurrence.negations] using h

/-- No leaf is negated more often than asked iff no nested group is negated as a whole. -/
theorem negationsMade_perm_asked_iff (f : FilterForm) (catalog : Option Catalog) :
    (f.negationsMade catalog).Perm (f.negationsAsked catalog) ↔
      ∀ l ∈ f.leaves catalog, ¬ InNegatedGroup (f.leaves catalog) l := by
  constructor
  · intro h l hl hgroup
    have hle : ∀ k ∈ f.leaves catalog,
        k.negationsDue ≤ (occurrence (f.leaves catalog) k).negations := by
      intro k hk
      by_cases hneg : InNegatedGroup (f.leaves catalog) k
      · rw [negations_occurrence_of_inNegatedGroup hneg]
        exact Nat.le_succ _
      · rw [negations_occurrence_of_not hk hneg]
    have hlt := List.sum_lt_sum _ _ hle ⟨l, hl, by
      rw [negations_occurrence_of_inNegatedGroup hgroup]
      exact Nat.lt_succ_self _⟩
    have hsum := (((negationsMade_perm f catalog).symm.trans h).map Prod.snd).sum_eq
    simp only [negationsAsked, List.map_append, List.map_map, Function.comp_def, List.sum_append,
      Nat.add_right_cancel_iff] at hsum
    exact hlt.ne' hsum
  · intro h
    have hsame : (f.leaves catalog).map (fun l =>
        (l.query, (occurrence (f.leaves catalog) l).negations)) =
          (f.leaves catalog).map fun l => (l.query, l.negationsDue) :=
      List.map_congr_left fun l hl => by rw [negations_occurrence_of_not hl (h l hl)]
    rw [negationsAsked, ← hsame]
    exact negationsMade_perm f catalog

/-- How often each leaf is negated: as often as asked, and once more in a negated group. So a
request negates as asked iff no nested group has negated leaves but no required one. A negation is
asked for by the operator or by the clause of the condition, and by nothing else. -/
theorem negations_of_leaves (f : FilterForm) (catalog : Option Catalog) :
    (f.negationsMade catalog).Perm
      (((f.leaves catalog).map fun l =>
          (l.query, (occurrence (f.leaves catalog) l).negations)) ++
        f.range?.toList.map fun r => (r, 0)) ∧
    (∀ l ∈ f.leaves catalog,
      (¬ InNegatedGroup (f.leaves catalog) l ∧
        (occurrence (f.leaves catalog) l).negations = l.negationsDue) ∨
      (InNegatedGroup (f.leaves catalog) l ∧
        (occurrence (f.leaves catalog) l).negations = l.negationsDue + 1)) ∧
    ((f.negationsMade catalog).Perm (f.negationsAsked catalog) ↔
      ∀ l ∈ f.leaves catalog, ¬ InNegatedGroup (f.leaves catalog) l) ∧
    (∀ c ∈ f.conditions, ∀ l, c.leaf? catalog = some l →
      (l.negationsDue = 1 ↔ c.operator.target = .negated ∨ c.clause = .mustNot)) := by
  refine ⟨negationsMade_perm f catalog, ?_, negationsMade_perm_asked_iff f catalog, ?_⟩
  · intro l hl
    by_cases h : InNegatedGroup (f.leaves catalog) l
    · exact Or.inr ⟨h, negations_occurrence_of_inNegatedGroup h⟩
    · exact Or.inl ⟨h, negations_occurrence_of_not hl h⟩
  · intro c _ l hl
    rw [Leaf.negationsDue, Condition.leaf?_clause hl]
    cases ht : c.operator.target <;> cases hc : c.clause <;> simp [Target.clause]

/-- An optional condition and a negated one on one nested object. -/
def mixedGroup : FilterForm where
  conditions := [
    { clause := .should, field := "items.note", operator := .contains, value := some (.str "x"),
      nestedPath := some "items" },
    { field := "items.sku", operator := .notExists, nestedPath := some "items" }]

/-- Both leaves of the mixed group are negated once too often. -/
theorem mixedGroup_negations :
    ¬ (mixedGroup.negationsMade none).Perm (mixedGroup.negationsAsked none) := by
  intro h
  exact absurd (h.map Prod.snd).sum_eq (by decide)

end FilterForm
end SearchQuery
