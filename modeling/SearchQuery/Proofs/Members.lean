import SearchQuery.Json.Value
import Mathlib.Data.List.Basic
import Mathlib.Data.List.Forall2

/-! # Members of objects

Looking up a member of a value leads to a part of it, which is smaller. -/
namespace SearchQuery.Json

theorem member?_eq_some_iff_lookup {body value : Json} {name : String} :
    body.member? name = some value ↔
      ∃ parts, body = .obj parts ∧ parts.lookup name = some value := by
  cases body <;> simp [Json.member?]

theorem members?_eq_some {body : Json} {parts : List (String × Json)} :
    body.members? = some parts ↔ body = .obj parts := by
  cases body <;> simp [Json.members?]

theorem text?_eq_some {body : Json} {text : String} :
    body.text? = some text ↔ body = .str text := by
  cases body <;> simp [Json.text?]

theorem mem_of_lookup_eq_some {α : Type} {parts : List (String × α)} {name : String} {value : α}
    (h : parts.lookup name = some value) : (name, value) ∈ parts := by
  obtain ⟨before, after, rfl, -⟩ := List.lookup_eq_some_iff.1 h
  exact List.mem_append_cons_self

theorem lookup_cons_eq_ite {α : Type} (key : String) (m : String × α) (ms : List (String × α)) :
    (m :: ms).lookup key = if key = m.1 then some m.2 else ms.lookup key := by
  obtain ⟨name, v⟩ := m
  by_cases hkey : key = name
  · simp [hkey]
  · simp [List.lookup_cons, hkey, beq_false_of_ne hkey]

theorem map_fst_eq {α β : Type} {R : String × α → String × β → Prop} {ms : List (String × α)}
    {ns : List (String × β)} (h : List.Forall₂ (fun m n => m.1 = n.1 ∧ R m n) ms ns) :
    ms.map Prod.fst = ns.map Prod.fst := by
  induction h with
  | nil => rfl
  | cons hmn h ih => rw [List.map_cons, List.map_cons, hmn.1, ih]

/-- What stands under a name in members that are related one by one is related. -/
theorem rel_lookup {α β : Type} {R : String → α → β → Prop} {ms : List (String × α)}
    {ns : List (String × β)} (h : List.Forall₂ (fun m n => m.1 = n.1 ∧ R m.1 m.2 n.2) ms ns)
    (name : String) : Option.Rel (R name) (ms.lookup name) (ns.lookup name) := by
  induction h with
  | nil => exact .none
  | @cons m n ms ns hmn h ih =>
    obtain ⟨hname, hvalue⟩ := hmn
    rw [List.lookup_cons, List.lookup_cons, ← hname]
    split
    · rename_i heq
      obtain rfl := beq_iff_eq.1 heq
      exact .some hvalue
    · exact ih

theorem lookup_filter {α : Type} {p : String → Bool} {name : String} (hname : p name = true)
    (ms : List (String × α)) : (ms.filter fun m => p m.1).lookup name = ms.lookup name := by
  induction ms with
  | nil => rfl
  | cons m ms ih =>
    rw [List.filter_cons, lookup_cons_eq_ite]
    by_cases hkey : name = m.1
    · rw [← hkey, if_pos hname, lookup_cons_eq_ite]
      simp [hkey]
    · split <;> simp [lookup_cons_eq_ite, hkey, ih]

theorem sizeOf_lt_of_mem {parts : List (String × Json)} {name : String} {value : Json}
    (h : (name, value) ∈ parts) : sizeOf value < sizeOf parts := by
  have hpart := List.sizeOf_lt_of_mem h
  simp only [Prod.mk.sizeOf_spec] at hpart
  omega

/-- An object in a member of a member is smaller than the members around both. -/
theorem sizeOf_inner_lt {ps parts inner : List (String × Json)} {name key : String}
    (hmem : (name, .obj parts) ∈ ps) (hinner : parts.lookup key = some (.obj inner)) :
    sizeOf inner < sizeOf ps := by
  have hmember := sizeOf_lt_of_mem hmem
  have hpart := sizeOf_lt_of_mem (mem_of_lookup_eq_some hinner)
  simp only [Json.obj.sizeOf_spec] at hmember hpart
  omega

theorem sizeOf_member?_lt {body value : Json} {name : String} (h : body.member? name = some value) :
    sizeOf value < sizeOf body := by
  obtain ⟨parts, rfl, hlookup⟩ := member?_eq_some_iff_lookup.1 h
  have hpart := sizeOf_lt_of_mem (mem_of_lookup_eq_some hlookup)
  simp only [Json.obj.sizeOf_spec]
  omega

end SearchQuery.Json
