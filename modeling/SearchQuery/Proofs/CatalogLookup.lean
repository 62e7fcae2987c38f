import SearchQuery.Catalog
import SearchQuery.Proofs.DistinctNames
import Mathlib.Data.List.Basic
import Mathlib.Data.List.Perm.Basic

/-! # Looking up fields

A catalog is known by its look-up: what each operation does to it is said here in terms of `get?`.
Fields that are put only when their name is new leave the first one of each name. -/
namespace SearchQuery.Catalog

theorem lookup_insertEntry (key k : String) (f : Field) (es : List Entry) :
    (insertEntry key f es).lookup k = if k = key then some f else es.lookup k := by
  induction es with
  | nil => exact Json.lookup_cons_eq_ite k (key, f) []
  | cons e es ih =>
    obtain ⟨k', g⟩ := e
    rw [insertEntry]
    split
    · exact Json.lookup_cons_eq_ite k (key, f) _
    · split
      · subst key
        by_cases hk : k = k' <;> simp [Json.lookup_cons_eq_ite, hk]
      · rename_i hne
        rw [Json.lookup_cons_eq_ite, Json.lookup_cons_eq_ite, ih]
        by_cases hk : k = k'
        · simp [hk, Ne.symm hne]
        · simp [hk]

@[simp] theorem get?_empty (k : String) : empty.get? k = none := rfl

@[simp] theorem get?_put (c : Catalog) (key k : String) (f : Field) :
    (c.put key f).get? k = if k = key then some f else c.get? k :=
  lookup_insertEntry key k f c.entries

/-- A field that is put does not hide one that is there. -/
theorem get?_insertNew (c : Catalog) (f : Field) (k : String) :
    (c.insertNew f).get? k = (c.get? k).or (if f.name = k then some f else none) := by
  unfold insertNew contains
  by_cases hk : f.name = k
  · subst hk
    cases hget : c.get? f.name <;> simp [hget, insert]
  · split <;> simp [insert, Ne.symm hk]

/-- Of the fields of one name the first one counts. -/
theorem get?_foldl_insertNew (fs : List Field) (c : Catalog) (k : String) :
    (fs.foldl insertNew c).get? k = (c.get? k).or (fs.find? fun f => f.name = k) := by
  induction fs generalizing c with
  | nil => simp
  | cons f fs ih =>
    rw [List.foldl_cons, ih, get?_insertNew, Option.or_assoc]
    by_cases hk : f.name = k <;> simp [hk]

theorem ext_entries {c c' : Catalog} (h : c.entries = c'.entries) : c = c' := by
  cases c
  cases c'
  cases h
  rfl

theorem nodup_keys (c : Catalog) : (c.entries.map Prod.fst).Nodup := by
  rw [List.Nodup, List.pairwise_map]
  exact c.sorted.imp String.ne_of_lt

theorem get?_eq_some_iff_mem {c : Catalog} {k : String} {f : Field} :
    c.get? k = some f ↔ (k, f) ∈ c.entries :=
  Json.lookup_eq_some_iff_mem c.nodup_keys

/-- Two catalogs with the same look-up have the same entries, and both have them in the one order
of the keys. -/
theorem ext_get? {c c' : Catalog} (h : ∀ k, c.get? k = c'.get? k) : c = c' := by
  have hmem : ∀ e, e ∈ c.entries ↔ e ∈ c'.entries := by
    rintro ⟨k, f⟩
    rw [← get?_eq_some_iff_mem, ← get?_eq_some_iff_mem, h]
  have hperm : c.entries.Perm c'.entries :=
    (List.perm_ext_iff_of_nodup (.of_map _ c.nodup_keys) (.of_map _ c'.nodup_keys)).2 hmem
  refine ext_entries (hperm.eq_of_pairwise ?_ c.sorted c'.sorted)
  intro a b _ _ hab hba
  exact absurd hba (String.lt_asymm hab)

theorem hasKeyPrefix_of_get? {c : Catalog} {k path : String} {f : Field}
    (hget : c.get? k = some f) (hstarts : path.toList <+: k.toList) :
    c.hasKeyPrefix path = true := by
  rw [hasKeyPrefix, List.any_eq_true]
  exact ⟨(k, f), get?_eq_some_iff_mem.1 hget, List.isPrefixOf_iff_prefix.2 hstarts⟩

end SearchQuery.Catalog
