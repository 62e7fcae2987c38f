import Mathlib.Data.List.Lex

/-! # Lists in the order of places

A place in a tree is the list of indices that leads to it, and places are ordered as in a walk of
the tree. A list that a walk collects holds what a relation puts at the places, in their order; its
first member with some property is then the one at the first such place. -/
namespace SearchQuery

variable {α β : Type}

/-- A list holds what a relation puts at places, in the order of the places. -/
def InOrder (R : List Nat → α → Prop) (xs : List α) : Prop :=
  ∃ sites : List (List Nat × α), sites.map Prod.snd = xs ∧
    (sites.Pairwise fun a b => a.1 < b.1) ∧ ∀ place x, (place, x) ∈ sites ↔ R place x

namespace InOrder

variable {R R' : List Nat → α → Prop} {xs : List α}

theorem congr (h : InOrder R xs) (hiff : ∀ place x, R place x ↔ R' place x) : InOrder R' xs := by
  obtain ⟨sites, hmap, hsorted, hmem⟩ := h
  exact ⟨sites, hmap, hsorted, fun place x => (hmem place x).trans (hiff place x)⟩

/-- The first member with a property stands at the first place that has one. -/
theorem find?_eq_some_iff (h : InOrder R xs) (p : α → Bool) (x : α) :
    xs.find? p = some x ↔ p x = true ∧ ∃ place, R place x ∧
      ∀ place' x', R place' x' → p x' = true → ¬ place' < place := by
  obtain ⟨sites, rfl, hsorted, hmem⟩ := h
  simp only [List.find?_map, Option.map_eq_some_iff, List.find?_eq_some_iff_append, ← hmem]
  constructor
  · rintro ⟨⟨place, x⟩, ⟨hp, before, after, rfl, hbefore⟩, rfl⟩
    refine ⟨hp, place, List.mem_append_cons_self, fun place' x' hmem' hp' hlt => ?_⟩
    obtain ⟨-, hcons, -⟩ := List.pairwise_append.1 hsorted
    rcases List.mem_append.1 hmem' with hin | hin
    · have hnot := hbefore _ hin
      simp [hp'] at hnot
    · rcases List.mem_cons.1 hin with heq | hin
      · obtain rfl : place' = place := congrArg Prod.fst heq
        exact List.lt_irrefl place' hlt
      · exact List.lt_asymm hlt ((List.pairwise_cons.1 hcons).1 _ hin)
  · rintro ⟨hp, place, hsite, hfirst⟩
    have hsome : (sites.find? (p ∘ Prod.snd)).isSome = true :=
      List.find?_isSome.2 ⟨(place, x), hsite, hp⟩
    obtain ⟨⟨place', x'⟩, hfind⟩ := Option.isSome_iff_exists.1 hsome
    obtain ⟨hp', before, after, rfl, hbefore⟩ := List.find?_eq_some_iff_append.1 hfind
    refine ⟨(place, x), ⟨hp, ?_⟩, rfl⟩
    rcases List.mem_append.1 hsite with hin | hin
    · have hnot := hbefore _ hin
      simp [hp] at hnot
    · rcases List.mem_cons.1 hin with heq | hin
      · exact ⟨before, after, by rw [heq], hbefore⟩
      · obtain ⟨-, hcons, -⟩ := List.pairwise_append.1 hsorted
        have hlt := (List.pairwise_cons.1 hcons).1 _ hin
        exact absurd hlt (hfirst place' x' List.mem_append_cons_self hp')

theorem exists_iff_mem (h : InOrder R xs) (x : α) : (∃ place, R place x) ↔ x ∈ xs := by
  obtain ⟨sites, rfl, -, hmem⟩ := h
  simp [← hmem]

/-- The members of a list stand at their indices. -/
theorem indices (xs : List α) : InOrder (fun place x => ∃ i, place = [i] ∧ xs[i]? = some x) xs := by
  refine ⟨xs.zipIdx.map fun m => ([m.2], m.1), ?_, ?_, ?_⟩
  · simp [Function.comp_def]
  · rw [List.pairwise_map]
    refine List.pairwise_iff_getElem.2 fun i j hi hj hij => List.cons_lt_cons_iff.2 (.inl ?_)
    simpa using hij
  · intro place x
    simp only [List.mem_map, Prod.mk.injEq, Prod.exists, List.mem_zipIdx_iff_getElem?]
    constructor
    · rintro ⟨x, i, hx, rfl, rfl⟩
      exact ⟨i, rfl, hx⟩
    · rintro ⟨i, rfl, hx⟩
      exact ⟨x, i, hx, rfl, rfl⟩

/-- What the members of a list give stands below their indices. -/
theorem flatMap {g : β → List α} {S : β → List Nat → α → Prop} (ys : List β)
    (h : ∀ y ∈ ys, InOrder (S y) (g y)) :
    InOrder (fun place x => ∃ i y rest, ys[i]? = some y ∧ place = i :: rest ∧ S y rest x)
      (ys.flatMap g) := by
  suffices hfrom : ∀ k, InOrder
      (fun place x => ∃ i y rest, ys[i]? = some y ∧ place = (k + i) :: rest ∧ S y rest x)
      (ys.flatMap g) by simpa using hfrom 0
  intro k
  induction ys generalizing k with
  | nil => exact ⟨[], rfl, .nil, by simp⟩
  | cons y ys ih =>
    obtain ⟨first, hfirst, hsorted, hmem⟩ := h y List.mem_cons_self
    obtain ⟨rest, hrest, hsorted', hmem'⟩ :=
      ih (fun z hz => h z (List.mem_cons_of_mem _ hz)) (k + 1)
    refine ⟨first.map (fun m => (k :: m.1, m.2)) ++ rest, ?_, ?_, ?_⟩
    · simp [← hfirst, ← hrest, Function.comp_def]
    · refine List.pairwise_append.2 ⟨?_, hsorted', ?_⟩
      · rw [List.pairwise_map]
        exact hsorted.imp fun hlt => List.cons_lt_cons_iff.2 (.inr ⟨rfl, hlt⟩)
      · rintro _ ha ⟨place, x⟩ hb
        obtain ⟨m, -, rfl⟩ := List.mem_map.1 ha
        obtain ⟨i, z, tail, -, rfl, -⟩ := (hmem' place x).1 hb
        exact List.cons_lt_cons_iff.2 (.inl (by omega))
    · intro place x
      simp only [List.mem_append, List.mem_map, hmem', Prod.mk.injEq, Prod.exists]
      constructor
      · rintro (⟨tail, x, hsite, rfl, rfl⟩ | ⟨i, z, tail, hz, rfl, hS⟩)
        · exact ⟨0, y, tail, rfl, rfl, (hmem tail x).1 hsite⟩
        · exact ⟨i + 1, z, tail, by simpa using hz, by rw [Nat.add_assoc, Nat.add_comm 1], hS⟩
      · rintro ⟨i, z, tail, hz, rfl, hS⟩
        cases i with
        | zero =>
          obtain rfl : y = z := by simpa using hz
          exact .inl ⟨tail, x, (hmem tail x).2 hS, rfl, rfl⟩
        | succ i =>
          exact .inr ⟨i, z, tail, by simpa using hz, by rw [Nat.add_assoc, Nat.add_comm 1], hS⟩

end InOrder

end SearchQuery
