import SearchQuery.Proofs.Negation

/-! # Where the order of conditions shows

Two conditions that follow each other can change places without a change of the request, unless
both have leaves whose order shows: leaves of one bucket, or the first leaves of two groups that go
to one bucket. In these cases the request stays the same only if the leaves are equal. -/
namespace SearchQuery

/-- Two neighbours can change places under a filter and a map unless both are kept and told
apart. -/
theorem map_filter_swap_iff {α β : Type} (p : α → Prop) [DecidablePred p] (f : α → β)
    (before after : List α) (x y : α) :
    ((before ++ [x, y] ++ after).filter p).map f = ((before ++ [y, x] ++ after).filter p).map f ↔
      (p x → p y → f x = f y) := by
  by_cases hx : p x <;> by_cases hy : p y <;> simp [hx, hy, eq_comm]

namespace Placement

/-- Whether the order of two leaves, one right behind the other, shows in the request, given the
leaves before them and all leaves: they share a bucket, or each is the first one of its group and
the groups share a bucket. -/
inductive OrderShows (before all : List Leaf) (k l : Leaf) : Prop
  | bucket (hpath : k.path = l.path) (hclause : k.clause = l.clause)
  | groups {p q : String} (hk : k.path = some p) (hl : l.path = some q) (hne : p ≠ q)
      (hp : p ∉ paths before) (hq : q ∉ paths before)
      (hprimary : (inner all p).primary? = (inner all q).primary?)

/-! ### The paths of two neighbours -/

/-- The paths seen when one more leaf comes, which may have a path. -/
def seenWith (seen : List String) : Option String → List String
  | none => seen
  | some path => if path ∈ seen then seen else seen ++ [path]

/-- Two paths are seen in either order with the same outcome, unless both are new. -/
theorem seenWith_comm {seen : List String} {a b : Option String}
    (h : ∀ p q, a = some p → b = some q → p ≠ q → p ∈ seen ∨ q ∈ seen) :
    seenWith (seenWith seen a) b = seenWith (seenWith seen b) a := by
  match a, b with
  | none, _ | _, none => rfl
  | some p, some q =>
    by_cases hne : p = q
    · rw [hne]
    · have hold := h p q rfl rfl hne
      by_cases hp : p ∈ seen <;> by_cases hq : q ∈ seen <;> simp_all [seenWith]

section Swap

variable {before after : List Leaf} {k l : Leaf}

theorem paths_append_pair (before : List Leaf) (k l : Leaf) :
    paths (before ++ [k, l]) = seenWith (seenWith (paths before) k.path) l.path := by
  have hone (ls : List Leaf) (m : Leaf) : paths (ls ++ [m]) = seenWith (paths ls) m.path := by
    rw [paths_append_singleton]
    cases m.path <;> rfl
  rw [← hone, ← hone, List.append_assoc]
  rfl

theorem paths_append_pair_of_new {p q : String} (hk : k.path = some p) (hl : l.path = some q)
    (hne : p ≠ q) (hp : p ∉ paths before) (hq : q ∉ paths before) :
    paths (before ++ [k, l]) = paths before ++ [p, q] := by
  rw [paths_append_pair, hk, hl]
  simp [seenWith, hp, hq, hne.symm]

/-- The paths that leaves bring after others depend on which these are and not on their order. -/
theorem exists_paths_append {ls ls' : List Leaf} (h : ls.Perm ls') (after : List Leaf) :
    ∃ rest, paths (ls ++ after) = paths ls ++ rest ∧ paths (ls' ++ after) = paths ls' ++ rest := by
  have hsplit (ls : List Leaf) : paths (ls ++ after) =
      paths ls ++ ((after.filterMap Leaf.path).removeAll (ls.filterMap Leaf.path)).eraseDups := by
    simp [paths, List.eraseDups_append]
  have hnew : (after.filterMap Leaf.path).removeAll (ls.filterMap Leaf.path) =
      (after.filterMap Leaf.path).removeAll (ls'.filterMap Leaf.path) := by
    apply List.filter_congr
    intro path _
    simp only [List.elem_eq_mem, (h.filterMap Leaf.path).mem_iff]
  exact ⟨_, hsplit ls, hnew ▸ hsplit ls'⟩

theorem pair_perm (before : List Leaf) (k l : Leaf) :
    (before ++ [k, l]).Perm (before ++ [l, k]) :=
  (List.Perm.swap l k []).append_left before

/-- A swap leaves the paths as they are unless both leaves bring a new one. -/
theorem paths_swap (h : ∀ p q, k.path = some p → l.path = some q → p ≠ q →
    p ∈ paths before ∨ q ∈ paths before) :
    paths (before ++ [k, l] ++ after) = paths (before ++ [l, k] ++ after) := by
  obtain ⟨rest, hkl, hlk⟩ := exists_paths_append (pair_perm before k l) after
  rw [hkl, hlk, paths_append_pair, paths_append_pair, seenWith_comm h]

/-- Two new paths change places with their leaves. -/
theorem exists_paths_swap (after : List Leaf) {p q : String} (hk : k.path = some p)
    (hl : l.path = some q) (hne : p ≠ q) (hp : p ∉ paths before) (hq : q ∉ paths before) : ∃ rest,
    paths (before ++ [k, l] ++ after) = paths before ++ [p, q] ++ rest ∧
      paths (before ++ [l, k] ++ after) = paths before ++ [q, p] ++ rest := by
  obtain ⟨rest, hkl, hlk⟩ := exists_paths_append (pair_perm before k l) after
  refine ⟨rest, ?_, ?_⟩
  · rw [hkl, paths_append_pair_of_new hk hl hne hp hq]
  · rw [hlk, paths_append_pair_of_new hl hk hne.symm hq hp]

/-! ### The buckets after a swap -/

theorem queriesAt_swap_iff {path : Option String} {c : Clause} :
    queriesAt (before ++ [k, l] ++ after) path c = queriesAt (before ++ [l, k] ++ after) path c ↔
      (k.path = path ∧ k.clause = c → l.path = path ∧ l.clause = c → k.query = l.query) :=
  map_filter_swap_iff (fun m : Leaf => m.path = path ∧ m.clause = c) Leaf.query before after k l

theorem length_queriesAt_swap (path : Option String) (c : Clause) :
    (queriesAt (before ++ [k, l] ++ after) path c).length =
      (queriesAt (before ++ [l, k] ++ after) path c).length := by
  have hperm := (pair_perm before k l).append_right after
  exact ((hperm.filter _).map Leaf.query).length_eq

/-- Which bucket a group goes to is no matter of order. -/
theorem primary?_inner_swap (path : String) :
    (inner (before ++ [k, l] ++ after) path).primary? =
      (inner (before ++ [l, k] ++ after) path).primary? := by
  have hperm := (pair_perm before k l).append_right after
  have hempty (c : Clause) : (inner (before ++ [k, l] ++ after) path).bucket c = [] ↔
      (inner (before ++ [l, k] ++ after) path).bucket c = [] := by
    simp only [bucket_inner_eq_nil_iff, hperm.mem_iff]
  apply Option.ext
  intro c
  simp only [BoolQuery.primary?_eq_some_iff, ne_eq, hempty]

/-- Leaves of different buckets change places unnoticed within the groups. -/
theorem inner_swap (h : ¬ (k.path = l.path ∧ k.clause = l.clause)) :
    inner (before ++ [k, l] ++ after) = inner (before ++ [l, k] ++ after) := by
  funext path
  apply BoolQuery.ext_bucket
  · intro c
    rw [inner, inner, BoolQuery.bucket_ofBuckets, BoolQuery.bucket_ofBuckets, queriesAt_swap_iff]
    rintro ⟨hk, rfl⟩ ⟨hl, hclause⟩
    exact absurd ⟨hk.trans hl.symm, hclause.symm⟩ h
  · rfl

/-- Two groups that begin with the leaves change places unnoticed in every bucket but one to which
both go. -/
theorem wrappers_swap_iff_of_new {p q : String} (hk : k.path = some p) (hl : l.path = some q)
    (hne : p ≠ q) (hp : p ∉ paths before) (hq : q ∉ paths before) (c : Clause) :
    wrappers (before ++ [k, l] ++ after) c = wrappers (before ++ [l, k] ++ after) c ↔
      ((inner (before ++ [k, l] ++ after) p).primary? = some c →
        (inner (before ++ [k, l] ++ after) q).primary? ≠ some c) := by
  have hbucket : ¬ (k.path = l.path ∧ k.clause = l.clause) := by
    rintro ⟨hpath, -⟩
    exact hne (Option.some.inj (hk.symm.trans (hpath.trans hl)))
  obtain ⟨rest, hkl, hlk⟩ := exists_paths_swap after hk hl hne hp hq
  rw [wrappers, wrappers, ← inner_swap hbucket, hkl, hlk, map_filter_swap_iff fun path =>
    (inner (before ++ [k, l] ++ after) path).primary? = some c]
  refine imp_congr_right fun _ => imp_congr_right fun _ => iff_false_intro fun hsame => ?_
  exact hne (Query.nested.inj hsame).1

theorem wrappers_swap (hbucket : ¬ (k.path = l.path ∧ k.clause = l.clause))
    (h : ¬ OrderShows before (before ++ [k, l] ++ after) k l) (c : Clause) :
    wrappers (before ++ [k, l] ++ after) c = wrappers (before ++ [l, k] ++ after) c := by
  by_cases hnew : ∃ p q, k.path = some p ∧ l.path = some q ∧ p ≠ q ∧ p ∉ paths before ∧
      q ∉ paths before
  · obtain ⟨p, q, hk, hl, hne, hp, hq⟩ := hnew
    refine (wrappers_swap_iff_of_new hk hl hne hp hq c).2 fun hprimary hprimary' => ?_
    exact h (.groups hk hl hne hp hq (hprimary.trans hprimary'.symm))
  · have hold : ∀ p q, k.path = some p → l.path = some q → p ≠ q →
        p ∈ paths before ∨ q ∈ paths before := by
      intro p q hk hl hne
      by_contra hboth
      obtain ⟨hp, hq⟩ := not_or.1 hboth
      exact hnew ⟨p, q, hk, hl, hne, hp, hq⟩
    rw [wrappers, wrappers, ← inner_swap hbucket, paths_swap hold]

/-- Leaves whose order does not show change places unnoticed. -/
theorem outer_swap (h : ¬ OrderShows before (before ++ [k, l] ++ after) k l)
    (range : Option Query) :
    outer (before ++ [k, l] ++ after) range = outer (before ++ [l, k] ++ after) range := by
  have hbucket : ¬ (k.path = l.path ∧ k.clause = l.clause) := fun hsame =>
    h (.bucket hsame.1 hsame.2)
  apply BoolQuery.ext_bucket
  · intro c
    have hdirect : queriesAt (before ++ [k, l] ++ after) none c =
        queriesAt (before ++ [l, k] ++ after) none c := by
      rw [queriesAt_swap_iff]
      rintro ⟨hk, rfl⟩ ⟨hl, hclause⟩
      exact absurd ⟨hk.trans hl.symm, hclause.symm⟩ hbucket
    rw [outer, outer, BoolQuery.bucket_ofBuckets, BoolQuery.bucket_ofBuckets, hdirect,
      wrappers_swap hbucket h]
  · rfl

/-! ### What a swap shows -/

theorem parts_of_outer_swap {range : Option Query}
    (h : outer (before ++ [k, l] ++ after) range = outer (before ++ [l, k] ++ after) range)
    (c : Clause) :
    queriesAt (before ++ [k, l] ++ after) none c = queriesAt (before ++ [l, k] ++ after) none c ∧
      wrappers (before ++ [k, l] ++ after) c = wrappers (before ++ [l, k] ++ after) c := by
  have hbucket := congrArg (fun b : BoolQuery Query => b.bucket c) h
  simp only [outer, BoolQuery.bucket_ofBuckets] at hbucket
  exact List.append_inj (List.append_cancel_right hbucket) (length_queriesAt_swap none c)

/-- A swap in a group shows in its wrapper. -/
theorem inner_of_wrappers_swap {path : String} (hk : k.path = some path) (hl : l.path = some path)
    (h : ∀ c, wrappers (before ++ [k, l] ++ after) c = wrappers (before ++ [l, k] ++ after) c) :
    inner (before ++ [k, l] ++ after) path = inner (before ++ [l, k] ++ after) path := by
  have hpaths : paths (before ++ [k, l] ++ after) = paths (before ++ [l, k] ++ after) :=
    paths_swap fun p q hp hq hne => absurd (Option.some.inj (hp.symm.trans (hk.trans
      (hl.symm.trans hq)))) hne
  have hmem : path ∈ paths (before ++ [l, k] ++ after) :=
    mem_paths.2 ⟨k, by simp, hk⟩
  obtain ⟨c, hc⟩ := exists_primary hmem
  have hplaced : (paths (before ++ [k, l] ++ after)).filter (fun path =>
      (inner (before ++ [k, l] ++ after) path).primary? = some c) =
        (paths (before ++ [l, k] ++ after)).filter fun path =>
          (inner (before ++ [l, k] ++ after) path).primary? = some c := by
    rw [hpaths]
    exact List.filter_congr fun p _ => by rw [primary?_inner_swap]
  have hwrappers := h c
  rw [wrappers, wrappers, hplaced] at hwrappers
  have hkept : path ∈ (paths (before ++ [l, k] ++ after)).filter fun p =>
      (inner (before ++ [l, k] ++ after) p).primary? = some c :=
    List.mem_filter.2 ⟨hmem, decide_eq_true hc⟩
  have hsame := List.map_inj_left.1 hwrappers path hkept
  exact Query.bool.inj (Query.nested.inj hsame).2

/-- A swap in a bucket shows the queries of the leaves. -/
theorem query_eq_of_outer_swap {range : Option Query} (hpath : k.path = l.path)
    (hclause : k.clause = l.clause)
    (h : outer (before ++ [k, l] ++ after) range = outer (before ++ [l, k] ++ after) range) :
    k.query = l.query := by
  have hparts := parts_of_outer_swap h
  cases hk : k.path with
  | none =>
    have hl : l.path = none := hpath ▸ hk
    exact queriesAt_swap_iff.1 (hparts k.clause).1 ⟨hk, rfl⟩ ⟨hl, hclause.symm⟩
  | some path =>
    have hl : l.path = some path := hpath ▸ hk
    have hinner := inner_of_wrappers_swap hk hl fun c => (hparts c).2
    have hbucket := congrArg (fun b : BoolQuery Query => b.bucket k.clause) hinner
    simp only [inner, BoolQuery.bucket_ofBuckets] at hbucket
    exact queriesAt_swap_iff.1 hbucket ⟨hk, rfl⟩ ⟨hl, hclause.symm⟩

/-- Leaves whose order shows change places unnoticed only if they are equal. -/
theorem eq_of_outer_swap {range : Option Query}
    (hshows : OrderShows before (before ++ [k, l] ++ after) k l)
    (h : outer (before ++ [k, l] ++ after) range = outer (before ++ [l, k] ++ after) range) :
    k = l := by
  cases hshows with
  | bucket hpath hclause =>
    have hquery := query_eq_of_outer_swap hpath hclause h
    cases k
    cases l
    simp_all
  | @groups p q hk hl hne hp hq hprimary =>
    have hmem : p ∈ paths (before ++ [k, l] ++ after) := mem_paths.2 ⟨k, by simp, hk⟩
    obtain ⟨c, hc⟩ := exists_primary hmem
    have hwrappers := (parts_of_outer_swap h c).2
    have hapart := (wrappers_swap_iff_of_new hk hl hne hp hq c).1 hwrappers hc
    exact absurd (hprimary ▸ hc) hapart

/-- Two leaves change places unnoticed iff their order does not show or they are equal. -/
theorem outer_swap_iff (before after : List Leaf) (k l : Leaf) (range : Option Query) :
    outer (before ++ [k, l] ++ after) range = outer (before ++ [l, k] ++ after) range ↔
      (OrderShows before (before ++ [k, l] ++ after) k l → k = l) := by
  constructor
  · intro h hshows
    exact eq_of_outer_swap hshows h
  · intro h
    by_cases hshows : OrderShows before (before ++ [k, l] ++ after) k l
    · rw [h hshows]
    · exact outer_swap hshows range

end Swap

end Placement

namespace FilterForm

open Placement

/-- Two conditions that follow each other can change places without a change of the request iff one
of them has no leaf, or the order of their leaves does not show, or their leaves are equal. -/
theorem compile_swap_iff (f : FilterForm) (catalog : Option Catalog)
    (before after : List Condition) (x y : Condition) :
    (f.withConditions (before ++ [x, y] ++ after)).compile catalog =
        (f.withConditions (before ++ [y, x] ++ after)).compile catalog ↔
      ∀ k l, x.leaf? catalog = some k → y.leaf? catalog = some l →
        OrderShows ((f.withConditions before).leaves catalog)
          ((f.withConditions (before ++ [x, y] ++ after)).leaves catalog) k l → k = l := by
  rw [compile_eq_iff, size_withConditions, size_withConditions, eq_self, true_and]
  cases hx : x.leaf? catalog with
  | none => simp [placement, List.filterMap_cons, hx]
  | some k =>
    cases hy : y.leaf? catalog with
    | none => simp [placement, hx, hy]
    | some l =>
      have hswap := outer_swap_iff (before.filterMap fun c => c.leaf? catalog)
        (after.filterMap fun c => c.leaf? catalog) k l f.range?
      simpa [placement, hx, hy] using hswap

end FilterForm
end SearchQuery
