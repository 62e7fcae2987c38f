import SearchQuery.Proofs.ConditionLeaf
import Mathlib.Data.List.Perm.Basic
import Mathlib.Data.List.Induction
import Mathlib.Data.List.Nodup
import Mathlib.Data.Option.Basic

/-! # Where the leaves of a form go

A form is compiled by two passes over its leaves: one fills the buckets of the outer node and the
nested groups, the other places the groups. The buckets that result are given here directly, by
filtering the leaves: those without a nested path, then a wrapper for each nested path whose inner
node belongs to the bucket, then the timeframe. Every leaf stands in the request exactly once. -/
namespace SearchQuery

namespace Placement

/-- The leaves with a path and a clause, in their order. -/
def membersAt (ls : List Leaf) (path : Option String) (c : Clause) : List Leaf :=
  ls.filter fun l => l.path = path ∧ l.clause = c

def queriesAt (ls : List Leaf) (path : Option String) (c : Clause) : List Query :=
  (membersAt ls path c).map Leaf.query

/-- The nested paths, each at its first appearance. -/
def paths (ls : List Leaf) : List String := (ls.filterMap Leaf.path).eraseDups

/-- The node inside the wrapper of a nested path. -/
def inner (ls : List Leaf) (path : String) : BoolQuery Query :=
  .ofBuckets (queriesAt ls (some path))

/-- The wrappers of the nested paths whose inner node has a clause as its primary one. -/
def wrappers (ls : List Leaf) (c : Clause) : List Query :=
  ((paths ls).filter fun path => (inner ls path).primary? = some c).map fun path =>
    .nested path (.bool (inner ls path))

def outer (ls : List Leaf) (range : Option Query) : BoolQuery Query :=
  .ofBuckets fun c =>
    queriesAt ls none c ++ wrappers ls c ++ if c = .filter then range.toList else []

/-- The place of a leaf. -/
def occurrence (ls : List Leaf) (l : Leaf) : Occurrence :=
  match l.path with
  | none => ⟨[l.clause], [], l.query⟩
  | some path => ⟨(inner ls path).primary?.toList ++ [l.clause], [path], l.query⟩

@[simp] theorem query_occurrence (ls : List Leaf) (l : Leaf) :
    (occurrence ls l).query = l.query := by
  unfold occurrence
  cases l.path <;> rfl

@[simp] theorem paths_occurrence (ls : List Leaf) (l : Leaf) :
    (occurrence ls l).paths = l.path.toList := by
  unfold occurrence
  cases l.path <;> rfl

theorem queriesAt_append_singleton (ls : List Leaf) (l : Leaf) (path : Option String)
    (c : Clause) :
    queriesAt (ls ++ [l]) path c =
      queriesAt ls path c ++ if l.path = path ∧ l.clause = c then [l.query] else [] := by
  by_cases h : l.path = path ∧ l.clause = c <;> simp [queriesAt, membersAt, h]

theorem mem_paths {ls : List Leaf} {path : String} :
    path ∈ paths ls ↔ ∃ l ∈ ls, l.path = some path := by
  simp [paths, List.mem_eraseDups]

theorem paths_append_singleton (ls : List Leaf) (l : Leaf) :
    paths (ls ++ [l]) = match l.path with
      | none => paths ls
      | some path => if path ∈ paths ls then paths ls else paths ls ++ [path] := by
  cases hp : l.path with
  | none => simp [paths, hp]
  | some path =>
    have hseen : path ∈ paths ls ↔ path ∈ ls.filterMap Leaf.path := List.mem_eraseDups
    have happend : paths (ls ++ [l]) =
        paths ls ++ ([path].removeAll (ls.filterMap Leaf.path)).eraseDups := by
      simp [paths, hp, List.eraseDups_append]
    rw [happend]
    by_cases hmem : path ∈ ls.filterMap Leaf.path
    · simp [-List.mem_filterMap, List.cons_removeAll, hseen, hmem]
    · simp [-List.mem_filterMap, List.cons_removeAll, hseen, hmem, List.eraseDups_cons]

theorem nodup_paths (ls : List Leaf) : (paths ls).Nodup := by
  induction ls using List.reverseRecOn with
  | nil => exact List.nodup_nil
  | append_singleton ls l ih =>
    rw [paths_append_singleton]
    split
    · exact ih
    · split
      · exact ih
      · simpa using ih.concat ‹_›

theorem inner_append_singleton_of_ne {ls : List Leaf} {l : Leaf} {path : String}
    (h : l.path ≠ some path) : inner (ls ++ [l]) path = inner ls path := by
  apply BoolQuery.ext_bucket
  · intro c
    simp [inner, queriesAt_append_singleton, h]
  · rfl

theorem inner_append_singleton_of_eq {ls : List Leaf} {l : Leaf} {path : String}
    (h : l.path = some path) :
    inner (ls ++ [l]) path = (inner ls path).push l.clause l.query := by
  apply BoolQuery.ext_bucket
  · intro c
    by_cases hc : l.clause = c <;> simp [inner, queriesAt_append_singleton, h, hc]
  · simp [inner, BoolQuery.ofBuckets]

theorem inner_of_not_mem {ls : List Leaf} {path : String} (h : path ∉ paths ls) :
    inner ls path = {} := by
  have hnone : ∀ l ∈ ls, l.path ≠ some path := fun l hl he => h (mem_paths.2 ⟨l, hl, he⟩)
  apply BoolQuery.ext_bucket
  · intro c
    simp +contextual [inner, queriesAt, membersAt, List.filter_eq_nil_iff, hnone]
  · rfl

end Placement

namespace NestedGroup

/-- Adding to a group that is there changes it and no other. -/
theorem add_of_mem {path : String} {ps : List String} (hnodup : ps.Nodup) (h : path ∈ ps)
    (body : String → BoolQuery Query) (c : Clause) (q : Query) :
    add path c q (ps.map fun p => ⟨p, body p⟩) =
      ps.map fun p => ⟨p, if p = path then (body p).push c q else body p⟩ := by
  induction ps with
  | nil => cases h
  | cons p ps ih =>
    obtain ⟨hp, hnodup⟩ := List.nodup_cons.1 hnodup
    by_cases he : p = path
    · subst he
      have hrest : ∀ r ∈ ps, r ≠ p := fun r hr he => hp (he ▸ hr)
      simp +contextual [add, hrest]
    · have hmem : path ∈ ps := (List.mem_cons.1 h).resolve_left (Ne.symm he)
      simp [add, he, ih hnodup hmem]

/-- A new group comes last. -/
theorem add_of_not_mem {path : String} {ps : List String} (h : path ∉ ps)
    (body : String → BoolQuery Query) (c : Clause) (q : Query) :
    add path c q (ps.map fun p => ⟨p, body p⟩) =
      (ps.map fun p => ⟨p, body p⟩) ++ [⟨path, ({} : BoolQuery Query).push c q⟩] := by
  induction ps with
  | nil => rfl
  | cons p ps ih =>
    obtain ⟨hne, hmem⟩ := not_or.1 (mt List.mem_cons.2 h)
    simp [add, Ne.symm hne, ih hmem]

end NestedGroup

namespace Draft

open Placement

/-- The draft holds each leaf of a list in its bucket or its group. -/
structure Holds (d : Draft) (ls : List Leaf) : Prop where
  outer : d.outer = .ofBuckets (queriesAt ls none)
  groups : d.groups = (paths ls).map fun path => ⟨path, inner ls path⟩

theorem holds_nil : Draft.Holds {} [] := ⟨rfl, rfl⟩

theorem Holds.add {d : Draft} {ls : List Leaf} (h : d.Holds ls) (l : Leaf) :
    (d.add l).Holds (ls ++ [l]) := by
  cases hp : l.path with
  | none =>
    have hinner : ∀ path, inner (ls ++ [l]) path = inner ls path := fun path =>
      inner_append_singleton_of_ne (by simp [hp])
    constructor
    · apply BoolQuery.ext_bucket
      · intro c
        by_cases hc : l.clause = c <;>
          simp [Draft.add, hp, h.outer, queriesAt_append_singleton, hc]
      · simp [Draft.add, hp, h.outer, BoolQuery.ofBuckets]
    · simp [Draft.add, hp, h.groups, paths_append_singleton, hinner]
  | some path =>
    constructor
    · apply BoolQuery.ext_bucket
      · intro c
        simp [Draft.add, hp, h.outer, queriesAt_append_singleton]
      · simp [Draft.add, hp, h.outer, BoolQuery.ofBuckets]
    · simp only [Draft.add, hp, h.groups, paths_append_singleton]
      split
      · rw [NestedGroup.add_of_mem (nodup_paths ls) ‹_›]
        apply List.map_congr_left
        intro p _
        split
        · subst p
          rw [inner_append_singleton_of_eq hp]
        · rw [inner_append_singleton_of_ne (by simpa [hp] using Ne.symm ‹_›)]
      · rename_i hnew
        rw [NestedGroup.add_of_not_mem hnew, List.map_append]
        congr 1
        · apply List.map_congr_left
          intro p hmem
          rw [inner_append_singleton_of_ne]
          rw [hp]
          rintro ⟨rfl⟩
          exact hnew hmem
        · simp [inner_append_singleton_of_eq hp, inner_of_not_mem hnew]

/-- Each prefix of the leaves is held by the draft that it makes. -/
theorem holds_foldl (ls : List Leaf) : (ls.foldl Draft.add {}).Holds ls := by
  induction ls using List.reverseRecOn with
  | nil => exact holds_nil
  | append_singleton ls l ih =>
    rw [List.foldl_append]
    exact ih.add l

theorem bucket_place (b : BoolQuery Query) (g : NestedGroup) (c : Clause) :
    (place b g).bucket c =
      b.bucket c ++ if g.body.primary? = some c then [.nested g.path (.bool g.body)] else [] := by
  cases hp : g.body.primary? with
  | none => simp [place, hp]
  | some d => by_cases hd : d = c <;> simp [place, hp, hd]

theorem adjust_place (b : BoolQuery Query) (g : NestedGroup) :
    (place b g).adjustPureNegative = b.adjustPureNegative := by
  cases hp : g.body.primary? <;> simp [place, hp]

theorem bucket_foldl_place (b : BoolQuery Query) (gs : List NestedGroup) (c : Clause) :
    (gs.foldl place b).bucket c =
      b.bucket c ++ (gs.filter fun g => g.body.primary? = some c).map fun g =>
        .nested g.path (.bool g.body) := by
  induction gs generalizing b with
  | nil => simp
  | cons g gs ih =>
    rw [List.foldl_cons, ih, bucket_place]
    by_cases hc : g.body.primary? = some c <;> simp [hc]

theorem adjust_foldl_place (b : BoolQuery Query) (gs : List NestedGroup) :
    (gs.foldl place b).adjustPureNegative = b.adjustPureNegative := by
  induction gs generalizing b with
  | nil => rfl
  | cons g gs ih => rw [List.foldl_cons, ih, adjust_place]

theorem Holds.assemble {d : Draft} {ls : List Leaf} (h : d.Holds ls) (range : Option Query) :
    d.assemble range = Placement.outer ls range := by
  have hplaced : ∀ c, (d.groups.foldl place d.outer).bucket c =
      queriesAt ls none c ++ wrappers ls c := by
    intro c
    rw [bucket_foldl_place, h.outer, h.groups]
    simp [wrappers, List.filter_map, Function.comp_def]
  have hadjust : (d.groups.foldl place d.outer).adjustPureNegative = false := by
    rw [adjust_foldl_place, h.outer]
    rfl
  apply BoolQuery.ext_bucket
  · intro c
    cases range with
    | none => simp [Draft.assemble, Placement.outer, hplaced]
    | some r => cases c <;> simp [Draft.assemble, Placement.outer, hplaced]
  · cases range with
    | none => exact hadjust
    | some r => simpa [Draft.assemble, Placement.outer, BoolQuery.ofBuckets] using hadjust

end Draft

/-- A list split by a key, the keys without repetition, is the list in another order. -/
theorem flatMap_filter_perm {α β : Type} [DecidableEq β] (key : α → β) {ks : List β}
    (hnodup : ks.Nodup) (xs : List α) (h : ∀ x ∈ xs, key x ∈ ks) :
    (ks.flatMap fun k => xs.filter fun x => key x = k).Perm xs := by
  induction ks generalizing xs with
  | nil =>
    have hnil : xs = [] := List.eq_nil_iff_forall_not_mem.2 fun x hx => List.not_mem_nil (h x hx)
    simp [hnil]
  | cons k ks ih =>
    obtain ⟨hk, hnodup⟩ := List.nodup_cons.1 hnodup
    let others := xs.filter fun x => !decide (key x = k)
    have hothers : ∀ x ∈ others, key x ∈ ks := by
      intro x hx
      obtain ⟨hx, hne⟩ := List.mem_filter.1 hx
      exact (List.mem_cons.1 (h x hx)).resolve_left (by simpa using hne)
    have hsame : (ks.flatMap fun r => xs.filter fun x => key x = r) =
        ks.flatMap fun r => others.filter fun x => key x = r := by
      apply List.flatMap_congr
      intro r hr
      have hne : r ≠ k := fun he => hk (he ▸ hr)
      rw [List.filter_filter]
      apply List.filter_congr
      intro x _
      by_cases hx : key x = r <;> simp [hx, hne]
    rw [List.flatMap_cons, hsame]
    exact ((ih hnodup others hothers).append_left _).trans (List.filter_append_perm _ xs)

namespace Placement

theorem flatMap_membersAt_perm (ls : List Leaf) (path : Option String) :
    (Clause.all.flatMap (membersAt ls path)).Perm (ls.filter fun l => l.path = path) := by
  have h := flatMap_filter_perm Leaf.clause Clause.nodup_all
    (ls.filter fun l => l.path = path) fun l _ => l.clause.mem_all
  have hsplit : ∀ c, membersAt ls path c =
      (ls.filter fun l => l.path = path).filter fun l => l.clause = c := by
    intro c
    simp [membersAt, List.filter_filter, Bool.and_comm]
  rwa [funext hsplit]

theorem flatMap_filter_path_perm (ls : List Leaf) :
    ((ls.filter fun l => l.path = none) ++
      (paths ls).flatMap fun path => ls.filter fun l => l.path = some path).Perm ls := by
  have hnodup : (none :: (paths ls).map some).Nodup := by
    simpa using (nodup_paths ls).map (Option.some_injective _)
  have h := flatMap_filter_perm Leaf.path hnodup ls fun l hl => by
    cases hp : l.path with
    | none => simp
    | some path => simpa using mem_paths.2 ⟨l, hl, hp⟩
  simpa [List.flatMap_map] using h

/-- The leaves under the wrappers of a bucket. -/
def wrappedAt (ls : List Leaf) (c : Clause) : List Leaf :=
  ((paths ls).filter fun path => (inner ls path).primary? = some c).flatMap fun path =>
    Clause.all.flatMap (membersAt ls (some path))

theorem mem_membersAt {ls : List Leaf} {path : Option String} {c : Clause} {l : Leaf} :
    l ∈ membersAt ls path c ↔ l ∈ ls ∧ l.path = path ∧ l.clause = c := by
  simp [membersAt]

section Occurrences

variable {ls : List Leaf} (hleaf : ∀ l ∈ ls, l.query.occurrences = [⟨[], [], l.query⟩])

include hleaf

theorem occurrences_queriesAt (path : Option String) (c : Clause) :
    ((queriesAt ls path c).flatMap fun q => q.occurrences.map (Occurrence.inBucket c)) =
      (membersAt ls path c).map fun l => ⟨[c], [], l.query⟩ := by
  rw [queriesAt, List.flatMap_map, List.map_eq_flatMap]
  apply List.flatMap_congr
  intro l hl
  rw [hleaf l (mem_membersAt.1 hl).1]
  rfl

theorem occurrences_direct (c : Clause) :
    ((queriesAt ls none c).flatMap fun q => q.occurrences.map (Occurrence.inBucket c)) =
      (membersAt ls none c).map (occurrence ls) := by
  rw [occurrences_queriesAt hleaf]
  apply List.map_congr_left
  intro l hl
  obtain ⟨-, hpath, rfl⟩ := mem_membersAt.1 hl
  simp [occurrence, hpath]

theorem occurrences_wrapper {path : String} {c : Clause}
    (hprimary : (inner ls path).primary? = some c) :
    (Query.nested path (.bool (inner ls path))).occurrences.map (Occurrence.inBucket c) =
      (Clause.all.flatMap (membersAt ls (some path))).map (occurrence ls) := by
  rw [Query.occurrences, Query.occurrences_bool, List.map_flatMap, List.map_flatMap,
    List.map_flatMap]
  apply List.flatMap_congr
  intro d _
  rw [inner, BoolQuery.bucket_ofBuckets, occurrences_queriesAt hleaf, List.map_map, List.map_map]
  apply List.map_congr_left
  intro l hl
  obtain ⟨-, hpath, rfl⟩ := mem_membersAt.1 hl
  simp [occurrence, hpath, hprimary, Occurrence.inBucket, Occurrence.underPath]

theorem occurrences_wrappers (c : Clause) :
    ((wrappers ls c).flatMap fun q => q.occurrences.map (Occurrence.inBucket c)) =
      (wrappedAt ls c).map (occurrence ls) := by
  rw [wrappers, wrappedAt, List.flatMap_map, List.map_flatMap]
  apply List.flatMap_congr
  intro path hmem
  exact occurrences_wrapper hleaf (by simpa using (List.mem_filter.1 hmem).2)

end Occurrences

theorem exists_primary {ls : List Leaf} {path : String} (h : path ∈ paths ls) :
    ∃ c, (inner ls path).primary? = some c := by
  obtain ⟨l, hl, hpath⟩ := mem_paths.1 h
  apply Option.ne_none_iff_exists'.1
  intro hnone
  have hempty := (BoolQuery.primary?_eq_none_iff _).1 hnone l.clause
  rw [inner, BoolQuery.bucket_ofBuckets, queriesAt, List.map_eq_nil_iff] at hempty
  exact List.not_mem_nil (hempty ▸ mem_membersAt.2 ⟨hl, hpath, rfl⟩)

theorem flatMap_filter_primary_perm (ls : List Leaf) :
    (Clause.all.flatMap fun c =>
      (paths ls).filter fun path => (inner ls path).primary? = some c).Perm (paths ls) := by
  have hnodup : (Clause.all.map some).Nodup := Clause.nodup_all.map (Option.some_injective _)
  have h := flatMap_filter_perm (fun path => (inner ls path).primary?) hnodup (paths ls)
    fun path hmem => by
      obtain ⟨c, hc⟩ := exists_primary hmem
      simpa [hc] using c.mem_all
  simpa [List.flatMap_map] using h

/-- The leaves that go straight to a bucket and those under its wrappers are all leaves. -/
theorem flatMap_direct_wrapped_perm (ls : List Leaf) :
    (Clause.all.flatMap fun c => membersAt ls none c ++ wrappedAt ls c).Perm ls := by
  have hwrapped : (Clause.all.flatMap (wrappedAt ls)).Perm
      ((paths ls).flatMap fun path => ls.filter fun l => l.path = some path) := by
    simp only [funext (wrappedAt.eq_1 ls), ← List.flatMap_assoc]
    exact (flatMap_filter_primary_perm ls).flatMap fun path _ => flatMap_membersAt_perm ls _
  have hsplit := List.flatMap_append_perm Clause.all (membersAt ls none) (wrappedAt ls)
  exact hsplit.symm.trans
    (((flatMap_membersAt_perm ls none).append hwrapped).trans (flatMap_filter_path_perm ls))

/-- Every leaf stands in the outer node exactly once, and so does the timeframe. -/
theorem occurrences_outer_perm {ls : List Leaf} {range : Option Query}
    (hleaf : ∀ l ∈ ls, l.query.occurrences = [⟨[], [], l.query⟩])
    (hrange : ∀ r, range = some r → r.occurrences = [⟨[], [], r⟩]) :
    (Query.bool (outer ls range)).occurrences.Perm
      (ls.map (occurrence ls) ++ range.toList.map fun r => ⟨[.filter], [], r⟩) := by
  let last := fun c : Clause => if c = .filter then
    range.toList.map fun r => (⟨[.filter], [], r⟩ : Occurrence) else []
  have hlast : Clause.all.flatMap last = range.toList.map fun r => ⟨[.filter], [], r⟩ := by
    simp [Clause.all, last]
  have hbucket : ∀ c, (((outer ls range).bucket c).flatMap fun q =>
      q.occurrences.map (Occurrence.inBucket c)) =
        (membersAt ls none c ++ wrappedAt ls c).map (occurrence ls) ++ last c := by
    intro c
    rw [outer, BoolQuery.bucket_ofBuckets, List.flatMap_append, List.flatMap_append,
      occurrences_direct hleaf, occurrences_wrappers hleaf, List.map_append]
    congr 1
    by_cases hc : c = .filter
    · cases hr : range with
      | none => simp [last, hr]
      | some r => simp [last, hc, hr, hrange r hr, Occurrence.inBucket]
    · simp [last, hc]
  rw [Query.occurrences_bool, funext hbucket, ← hlast]
  refine (List.flatMap_append_perm _ _ _).symm.trans (List.Perm.append_right _ ?_)
  rw [← List.map_flatMap]
  exact (flatMap_direct_wrapped_perm ls).map _

end Placement

namespace FilterForm

open Placement

/-- The range of the timeframe of a form, if it makes one. -/
def range? (f : FilterForm) : Option Query := f.timeframe.bind Timeframe.query?

/-- The outer node of a form, bucket by bucket. -/
def placement (f : FilterForm) (catalog : Option Catalog) : BoolQuery Query :=
  outer (f.leaves catalog) f.range?

/-- The form with other conditions. -/
def withConditions (f : FilterForm) (cs : List Condition) : FilterForm :=
  { f with conditions := cs }

@[simp] theorem leaves_withConditions (f : FilterForm) (cs : List Condition)
    (catalog : Option Catalog) :
    (f.withConditions cs).leaves catalog = cs.filterMap fun c => c.leaf? catalog := rfl

@[simp] theorem range?_withConditions (f : FilterForm) (cs : List Condition) :
    (f.withConditions cs).range? = f.range? := rfl

@[simp] theorem size_withConditions (f : FilterForm) (cs : List Condition) :
    (f.withConditions cs).size = f.size := rfl

theorem mem_leaves {f : FilterForm} {catalog : Option Catalog} {l : Leaf} :
    l ∈ f.leaves catalog ↔ ∃ c ∈ f.conditions, c.leaf? catalog = some l := by
  simp [leaves]

theorem compile_query (f : FilterForm) (catalog : Option Catalog) :
    (f.compile catalog).query = if (f.placement catalog).isEmpty then .matchAll
      else .bool { f.placement catalog with adjustPureNegative := true } := by
  simp only [compile, placement, range?, (Draft.holds_foldl (f.leaves catalog)).assemble]
  rfl

/-- Two forms make the same request iff they ask for the same size and place the same leaves. -/
theorem compile_eq_iff {f g : FilterForm} {catalog : Option Catalog} :
    f.compile catalog = g.compile catalog ↔
      f.size.getD 0 = g.size.getD 0 ∧ f.placement catalog = g.placement catalog := by
  have hrequest : f.compile catalog = g.compile catalog ↔ f.size.getD 0 = g.size.getD 0 ∧
      (f.compile catalog).query = (g.compile catalog).query := by
    simp [compile]
  rw [hrequest, compile_query, compile_query]
  refine and_congr_right fun _ => ⟨fun h => ?_, fun h => by rw [h]⟩
  have hadjust : (f.placement catalog).adjustPureNegative =
      (g.placement catalog).adjustPureNegative := rfl
  by_cases hf : (f.placement catalog).isEmpty = true <;>
    by_cases hg : (g.placement catalog).isEmpty = true
  · have hnil := (BoolQuery.isEmpty_iff _).1 hf
    have hnil' := (BoolQuery.isEmpty_iff _).1 hg
    exact BoolQuery.ext_bucket (fun c => (hnil c).trans (hnil' c).symm) hadjust
  · simp [hf, hg] at h
  · simp [hf, hg] at h
  · simp only [if_neg hf, if_neg hg, Query.bool.injEq] at h
    refine BoolQuery.ext_bucket (fun c => ?_) hadjust
    have hbucket := congrArg (fun b : BoolQuery Query => b.bucket c) h
    simpa using hbucket

theorem occurrences_placement (f : FilterForm) (catalog : Option Catalog) :
    (f.compile catalog).query.occurrences = (Query.bool (f.placement catalog)).occurrences := by
  rw [compile_query]
  split
  · rename_i h
    simp only [Query.occurrences_bool, (BoolQuery.isEmpty_iff _).1 h]
    rfl
  · simp [Query.occurrences_bool]

/-- Every leaf of a form stands in the request exactly once, in its own place. -/
theorem occurrences_compile_perm (f : FilterForm) (catalog : Option Catalog) :
    (f.compile catalog).query.occurrences.Perm
      ((f.leaves catalog).map (occurrence (f.leaves catalog)) ++
        f.range?.toList.map fun r => ⟨[.filter], [], r⟩) := by
  rw [occurrences_placement]
  apply occurrences_outer_perm
  · intro l hl
    obtain ⟨c, -, hc⟩ := mem_leaves.1 hl
    exact Condition.leaf?_occurrences hc
  · intro r hr
    obtain ⟨t, -, ht⟩ := Option.bind_eq_some_iff.1 hr
    exact (Timeframe.query?_eq_some ht).2.2.2

/-- The request of a form is given by the placement of its leaves, none of which is lost, repeated
or changed. -/
theorem compile_placement (f : FilterForm) (catalog : Option Catalog) :
    ((f.compile catalog).query = .matchAll ∧ (∀ c, (f.placement catalog).bucket c = []) ∨
      (f.compile catalog).query = .bool { f.placement catalog with adjustPureNegative := true } ∧
        ∃ c, (f.placement catalog).bucket c ≠ []) ∧
    (f.compile catalog).size = f.size.getD 0 ∧
    (f.compile catalog).aggregations = none ∧
    (f.compile catalog).query.occurrences.Perm
      ((f.leaves catalog).map (occurrence (f.leaves catalog)) ++
        f.range?.toList.map fun r => ⟨[.filter], [], r⟩) := by
  refine ⟨?_, rfl, rfl, occurrences_compile_perm f catalog⟩
  rw [compile_query]
  cases h : (f.placement catalog).isEmpty with
  | true => exact Or.inl ⟨rfl, (BoolQuery.isEmpty_iff _).1 h⟩
  | false =>
    refine Or.inr ⟨rfl, not_forall.1 fun hall => ?_⟩
    simp [(BoolQuery.isEmpty_iff _).2 hall] at h

end FilterForm
end SearchQuery
