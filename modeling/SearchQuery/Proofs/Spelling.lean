import SearchQuery.Catalog.Mapping
import Mathlib.Data.List.DropRight

/-! # Spelling a chain of properties

A field is named by the chain of property names that leads to it, joined with dots; empty names in
front are dropped. The nested objects on the chain make the scope of the field: the innermost one
counts, whatever plain objects lie below it. -/
namespace SearchQuery.Catalog

/-- A property with inner properties, on the way to a field. -/
structure Ancestor where
  name : String
  nested : Bool

def spelling (names : List String) : String := ".".intercalate (names.dropWhile (· = ""))

/-- The path of the innermost nested ancestor. -/
def nestedAncestor? (as : List Ancestor) : Option String :=
  match as.rdropWhile fun a => !a.nested with
  | [] => none
  | inner => some (spelling (inner.map Ancestor.name))

theorem spelling_eq_empty_iff (names : List String) :
    spelling names = "" ↔ ∀ name ∈ names, name = "" := by
  rw [spelling, ← String.toList_inj, String.toList_intercalate]
  cases hkept : names.dropWhile (· = "") with
  | nil => simpa using List.dropWhile_eq_nil_iff.1 hkept
  | cons name rest =>
    have hname : name ≠ "" := by
      have h := List.head?_dropWhile_not (· = "") names
      simpa [hkept] using h
    have hmem : name ∈ names := (List.dropWhile_sublist _).subset (hkept ▸ List.mem_cons_self)
    constructor
    · intro h
      cases rest with
      | nil => exact absurd (by simpa using h) hname
      | cons name' rest =>
        rw [List.map_cons, List.map_cons, List.intercalate_cons_cons] at h
        simp at h
    · intro h
      exact absurd (h name hmem) hname

/-- A name is appended with a dot, unless only empty names are before it. -/
theorem spelling_concat (names : List String) (name : String) : spelling (names ++ [name]) =
    if spelling names = "" then name else spelling names ++ "." ++ name := by
  by_cases hempty : ∀ n ∈ names, n = ""
  · rw [if_pos ((spelling_eq_empty_iff names).2 hempty), spelling,
      List.dropWhile_append_of_pos (by simpa using hempty)]
    by_cases hname : name = ""
    · subst hname
      rfl
    · rw [List.dropWhile_cons_of_neg (by simpa using hname)]
      exact String.intercalate_singleton
  · rw [if_neg (mt (spelling_eq_empty_iff names).1 hempty)]
    have hkept : names.dropWhile (· = "") ≠ [] := by
      simpa [List.dropWhile_eq_nil_iff] using hempty
    rw [spelling, List.dropWhile_append, if_neg (by simpa using hkept),
      String.intercalate_append_of_ne_nil hkept (List.cons_ne_nil name []),
      String.intercalate_singleton]
    rfl

theorem nestedAncestor?_concat (as : List Ancestor) (a : Ancestor) :
    nestedAncestor? (as ++ [a]) =
      if a.nested then some (spelling ((as ++ [a]).map Ancestor.name)) else nestedAncestor? as := by
  unfold nestedAncestor?
  by_cases hnested : a.nested = true
  · rw [List.rdropWhile_concat_neg _ _ _ (by simpa using hnested), if_pos hnested]
    split
    · simp_all
    · rfl
  · rw [List.rdropWhile_concat_pos _ _ _ (by simpa using hnested), if_neg hnested]

theorem nestedAncestor?_eq_some {as : List Ancestor} {path : String}
    (h : nestedAncestor? as = some path) :
    ∃ outer, outer ≠ [] ∧ outer <+: as ∧ path = spelling (outer.map Ancestor.name) := by
  unfold nestedAncestor? at h
  split at h
  · cases h
  · rename_i hne
    exact ⟨_, hne, List.rdropWhile_prefix _ _, (Option.some.inj h).symm⟩

/-- The scope inside a chain. -/
def scopeOf (as : List Ancestor) : Scope := ⟨spelling (as.map Ancestor.name), nestedAncestor? as⟩

theorem join_scopeOf (as : List Ancestor) (name : String) :
    (scopeOf as).join name = spelling (as.map Ancestor.name ++ [name]) := by
  rw [spelling_concat]
  rfl

theorem enter_scopeOf (as : List Ancestor) (name : String) (parts : List (String × Json)) :
    (scopeOf as).enter name parts =
      scopeOf (as ++ [⟨name, (parts.lookup "type").bind Json.text? = some "nested"⟩]) := by
  simp only [Scope.enter, join_scopeOf]
  simp only [scopeOf, nestedAncestor?_concat, List.map_append, List.map_singleton,
    decide_eq_true_eq]

end SearchQuery.Catalog
