import SearchQuery.Proofs.Spelling
import SearchQuery.Proofs.Trim
import Mathlib.Data.List.Induction

/-! # Chains of plain names

A plain name is not empty, has no blank at its ends and no dot in it. The spelling of a chain of
plain names tells the chain, and is itself trimmed. -/
namespace SearchQuery.Catalog

structure IsPlainName (name : String) : Prop where
  ne_empty : name ≠ ""
  trim_eq : Text.trim name = name
  no_dot : '.' ∉ name.toList

variable {names names' : List String}

theorem spelling_eq_intercalate (h : ∀ name ∈ names, name ≠ "") :
    spelling names = ".".intercalate names := by
  have hkept : names.dropWhile (· = "") = names := by
    rw [List.dropWhile_eq_self_iff]
    intro hlen
    simpa using h _ (List.getElem_mem hlen)
  rw [spelling, hkept]

theorem splitOn_spelling (hne : names ≠ []) (h : ∀ name ∈ names, IsPlainName name) :
    (spelling names).toList.splitOn '.' = names.map String.toList := by
  rw [spelling_eq_intercalate fun name hname => (h name hname).ne_empty, String.toList_intercalate]
  refine List.splitOn_intercalate '.' ?_ (by simpa using hne)
  intro chars hchars
  obtain ⟨name, hname, rfl⟩ := List.mem_map.1 hchars
  exact (h name hname).no_dot

theorem eq_nil_of_spelling_eq_empty (h : ∀ name ∈ names, IsPlainName name)
    (hempty : spelling names = "") : names = [] := by
  have hall := (spelling_eq_empty_iff names).1 hempty
  refine List.eq_nil_iff_forall_not_mem.2 fun name hname => ?_
  exact (h name hname).ne_empty (hall name hname)

theorem spelling_inj (h : ∀ name ∈ names, IsPlainName name)
    (h' : ∀ name ∈ names', IsPlainName name) (heq : spelling names = spelling names') :
    names = names' := by
  by_cases hne : names = []
  · subst hne
    exact (eq_nil_of_spelling_eq_empty h' heq.symm).symm
  · by_cases hne' : names' = []
    · subst hne'
      exact eq_nil_of_spelling_eq_empty h heq
    · have hchars : names.map String.toList = names'.map String.toList := by
        rw [← splitOn_spelling hne h, ← splitOn_spelling hne' h', heq]
      exact List.map_injective_iff.2 (fun _ _ => String.toList_inj.1) hchars

/-- What is spelled first comes first in the text. -/
theorem spelling_prefix (names more : List String) :
    (spelling names).toList <+: (spelling (names ++ more)).toList := by
  induction more using List.reverseRecOn with
  | nil => simp
  | append_singleton more name ih =>
    refine ih.trans ?_
    rw [← List.append_assoc, spelling_concat]
    split
    · rename_i hempty
      simp [hempty]
    · simp [List.append_assoc]

/-- What is spelled behind a text that is not empty is kept apart from it by a dot. -/
theorem spelling_append {more : List String} (hnames : spelling names ≠ "") (hmore : more ≠ []) :
    ∃ rest, spelling (names ++ more) = spelling names ++ "." ++ rest := by
  induction more using List.reverseRecOn with
  | nil => exact absurd rfl hmore
  | append_singleton more name ih =>
    rw [← List.append_assoc, spelling_concat]
    by_cases hnil : more = []
    · subst hnil
      exact ⟨name, by rw [List.append_nil, if_neg hnames]⟩
    · obtain ⟨rest, hrest⟩ := ih hnil
      have hsome : spelling (names ++ more) ≠ "" := by simp [hrest]
      exact ⟨rest ++ "." ++ name, by rw [if_neg hsome, hrest]; simp only [String.append_assoc]⟩

theorem trim_spelling (h : ∀ name ∈ names, IsPlainName name) :
    Text.trim (spelling names) = spelling names := by
  induction names using List.reverseRecOn with
  | nil => rfl
  | append_singleton names name ih =>
    obtain ⟨hnames, hname⟩ := List.forall_mem_append.1 h
    obtain ⟨hne, htrim, -⟩ := hname name List.mem_cons_self
    rw [spelling_concat]
    split
    · exact htrim
    · rename_i hsome
      obtain ⟨hfirst, -⟩ := (Text.trim_eq_self_iff _).1 (ih hnames)
      obtain ⟨-, hlast⟩ := (Text.trim_eq_self_iff _).1 htrim
      have hchars : (spelling names).toList ≠ [] := mt String.toList_eq_nil_iff.1 hsome
      have hchars' : name.toList ≠ [] := mt String.toList_eq_nil_iff.1 hne
      rw [Text.trim_eq_self_iff, String.toList_append, String.toList_append]
      constructor
      · rwa [List.append_assoc, List.head?_append_of_ne_nil _ hchars]
      · rwa [List.getLast?_append_of_ne_nil _ hchars']

end SearchQuery.Catalog
