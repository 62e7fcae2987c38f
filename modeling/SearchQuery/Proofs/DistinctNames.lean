import SearchQuery.Json.Parser
import SearchQuery.Proofs.Members
import Mathlib.Data.List.Nodup

/-! # Objects without repeated names

An object that is built from a list of members has each name once, however often the list repeats
it. So has every object in a value that is read from a document, where repeated members may stand.
With distinct names a member is known by its name. -/
namespace SearchQuery

/-- A list with at most one member has no other order. -/
theorem eq_of_perm_of_length_le_one {α : Type} {xs ys : List α} (h : xs.Perm ys)
    (hlength : xs.length ≤ 1) : xs = ys := by
  match xs with
  | [] => exact h.nil_eq
  | [x] => exact List.singleton_perm.1 h
  | _ :: _ :: _ => simp at hlength

namespace Json

/-- No object in a value has two members of one name. -/
inductive DistinctNames : Json → Prop
  | null : DistinctNames .null
  | bool (b) : DistinctNames (.bool b)
  | num (n) : DistinctNames (.num n)
  | str (s) : DistinctNames (.str s)
  | arr {xs} (hitems : ∀ x ∈ xs, DistinctNames x) : DistinctNames (.arr xs)
  | obj {ms} (hnodup : (ms.map Prod.fst).Nodup) (hmembers : ∀ m ∈ ms, DistinctNames m.2) :
      DistinctNames (.obj ms)

attribute [simp] DistinctNames.null DistinctNames.bool DistinctNames.num DistinctNames.str

@[simp] theorem distinctNames_arr {xs : List Json} :
    DistinctNames (.arr xs) ↔ ∀ x ∈ xs, x.DistinctNames := by
  constructor
  · rintro ⟨⟩
    assumption
  · exact .arr

@[simp] theorem distinctNames_obj {ms : List (String × Json)} :
    DistinctNames (.obj ms) ↔ (ms.map Prod.fst).Nodup ∧ ∀ m ∈ ms, m.2.DistinctNames := by
  constructor
  · rintro ⟨⟩
    constructor <;> assumption
  · rintro ⟨hnodup, hmembers⟩
    exact .obj hnodup hmembers

theorem DistinctNames.of_mem {ms : List (String × Json)} {m : String × Json}
    (h : DistinctNames (.obj ms)) (hmem : m ∈ ms) : m.2.DistinctNames :=
  (distinctNames_obj.1 h).2 m hmem

theorem DistinctNames.of_member? {body value : Json} {name : String} (h : body.DistinctNames)
    (hmember : body.member? name = some value) : value.DistinctNames := by
  obtain ⟨parts, rfl, hlookup⟩ := member?_eq_some_iff_lookup.1 hmember
  exact h.of_mem (mem_of_lookup_eq_some hlookup)

/-- A member is known by its name. -/
theorem DistinctNames.getElem?_inj {ms : List (String × Json)} (h : DistinctNames (.obj ms))
    {i j : Nat} {name : String} {v w : Json} (hi : ms[i]? = some (name, v))
    (hj : ms[j]? = some (name, w)) : i = j ∧ v = w := by
  have hnodup := (distinctNames_obj.1 h).1
  have hi' : (ms.map Prod.fst)[i]? = some name := by simp [hi]
  have hj' : (ms.map Prod.fst)[j]? = some name := by simp [hj]
  obtain ⟨hlt, -⟩ := List.getElem?_eq_some_iff.1 hi'
  obtain rfl : i = j := (List.getElem?_inj hlt hnodup).1 (hi'.trans hj'.symm)
  exact ⟨rfl, (Prod.mk.inj (Option.some.inj (hi.symm.trans hj))).2⟩

/-- With distinct names a member is found by its name. -/
theorem lookup_eq_some_iff_mem {α : Type} {ms : List (String × α)} (h : (ms.map Prod.fst).Nodup)
    {name : String} {v : α} : ms.lookup name = some v ↔ (name, v) ∈ ms := by
  rw [List.lookup_eq_some_iff]
  constructor
  · rintro ⟨before, after, rfl, -⟩
    exact List.mem_append_cons_self
  · intro hmem
    obtain ⟨before, after, rfl⟩ := List.append_of_mem hmem
    refine ⟨before, after, rfl, fun m hm => bne_iff_ne.2 fun hname => ?_⟩
    rw [List.map_append, List.map_cons] at h
    exact (List.nodup_append.1 h).2.2 _ (List.mem_map_of_mem hm) _ List.mem_cons_self hname.symm

theorem lookup_perm {α : Type} {ms ms' : List (String × α)} (h : ms.Perm ms')
    (hnodup : (ms.map Prod.fst).Nodup) (name : String) : ms.lookup name = ms'.lookup name := by
  refine Option.ext fun v => ?_
  rw [lookup_eq_some_iff_mem hnodup, lookup_eq_some_iff_mem ((h.map _).nodup_iff.1 hnodup),
    h.mem_iff]

theorem lookup_setMember (ms : List (String × Json)) (name key : String) (value : Json) :
    (setMember ms name value).lookup key = if key = name then some value else ms.lookup key := by
  induction ms with
  | nil => exact lookup_cons_eq_ite key (name, value) []
  | cons m ms ih =>
    obtain ⟨other, v⟩ := m
    rw [setMember]
    split
    · subst other
      by_cases hkey : key = name <;> simp [lookup_cons_eq_ite, hkey]
    · rename_i hne
      rw [lookup_cons_eq_ite, lookup_cons_eq_ite, ih]
      by_cases hkey : key = other
      · simp [hkey, hne]
      · simp [hkey]

/-- Of a repeated name the last value is found. -/
theorem member?_ofMembers (vs : List (String × Json)) (key : String) :
    (ofMembers vs).member? key = vs.reverse.lookup key := by
  suffices hfrom : ∀ done, (vs.foldl (fun acc m => setMember acc m.1 m.2) done).lookup key =
      (vs.reverse.lookup key).or (done.lookup key) by
    rw [ofMembers, member?, hfrom]
    simp
  intro done
  induction vs generalizing done with
  | nil => simp
  | cons v vs ih =>
    rw [List.foldl_cons, ih, lookup_setMember, List.reverse_cons, List.lookup_append,
      Option.or_assoc, lookup_cons_eq_ite]
    split <;> rfl

theorem map_fst_setMember (ms : List (String × Json)) (name : String) (value : Json) :
    (setMember ms name value).map Prod.fst =
      if name ∈ ms.map Prod.fst then ms.map Prod.fst else ms.map Prod.fst ++ [name] := by
  induction ms with
  | nil => simp [setMember]
  | cons m ms ih =>
    obtain ⟨key, v⟩ := m
    rw [setMember]
    by_cases hkey : key = name
    · simp [hkey]
    · rw [if_neg hkey, List.map_cons, ih]
      by_cases hmem : name ∈ ms.map Prod.fst <;> simp_all [eq_comm]

theorem nodup_names_setMember {ms : List (String × Json)} (name : String) (value : Json)
    (h : (ms.map Prod.fst).Nodup) : ((setMember ms name value).map Prod.fst).Nodup := by
  rw [map_fst_setMember]
  split
  · exact h
  · simpa using h.concat ‹_›

theorem mem_setMember {ms : List (String × Json)} {name : String} {value : Json}
    {m : String × Json} (h : m ∈ setMember ms name value) : m ∈ ms ∨ m = (name, value) := by
  induction ms with
  | nil => exact .inr (List.mem_singleton.1 h)
  | cons m' ms ih =>
    obtain ⟨key, v⟩ := m'
    rw [setMember] at h
    split at h
    · rename_i hkey
      rcases List.mem_cons.1 h with rfl | hmem
      · exact .inr (by rw [hkey])
      · exact .inl (List.mem_cons_of_mem _ hmem)
    · rcases List.mem_cons.1 h with rfl | hmem
      · exact .inl List.mem_cons_self
      · exact (ih hmem).imp_left (List.mem_cons_of_mem _)

theorem distinctNames_setMember {ms : List (String × Json)} {name : String} {value : Json}
    (h : DistinctNames (.obj ms)) (hvalue : value.DistinctNames) :
    DistinctNames (.obj (setMember ms name value)) := by
  obtain ⟨hnodup, hmembers⟩ := distinctNames_obj.1 h
  refine .obj (nodup_names_setMember name value hnodup) fun m hm => ?_
  rcases mem_setMember hm with hm | rfl
  · exact hmembers m hm
  · exact hvalue

theorem distinctNames_ofMembers {ms : List (String × Json)}
    (h : ∀ m ∈ ms, m.2.DistinctNames) : (ofMembers ms).DistinctNames := by
  suffices hfrom : ∀ done, DistinctNames (.obj done) →
      DistinctNames (.obj (ms.foldl (fun acc m => setMember acc m.1 m.2) done)) from
    hfrom [] (by simp)
  intro done hdone
  induction ms generalizing done with
  | nil => exact hdone
  | cons m ms ih =>
    obtain ⟨hm, hrest⟩ := List.forall_mem_cons.1 h
    exact ih hrest _ (distinctNames_setMember hdone hm)

end Json

namespace Document

mutual

/-- A value that is read has distinct names. -/
theorem distinctNames_of_value? {depth : Nat} {doc : Document} {v : Json}
    (h : doc.value? depth = some v) : v.DistinctNames := by
  cases doc with
  | null | bool b =>
    obtain rfl := Option.some.inj h
    simp
  | num n | str s =>
    obtain ⟨_, -, rfl⟩ := Option.map_eq_some_iff.1 h
    simp
  | arr xs =>
    cases depth with
    | zero => cases h
    | succ depth =>
      obtain ⟨vs, hvs, rfl⟩ := Option.map_eq_some_iff.1 h
      exact .arr (distinctNames_of_values? hvs)
  | obj ms =>
    cases depth with
    | zero => cases h
    | succ depth =>
      obtain ⟨vs, hvs, rfl⟩ := Option.map_eq_some_iff.1 h
      exact Json.distinctNames_ofMembers (distinctNames_of_memberValues? hvs)

theorem distinctNames_of_values? {depth : Nat} {xs : List Document} {vs : List Json}
    (h : values? depth xs = some vs) : ∀ v ∈ vs, v.DistinctNames := by
  cases xs with
  | nil =>
    obtain rfl := Option.some.inj h
    simp
  | cons x xs =>
    rw [values?] at h
    split at h
    · rename_i v rest hv hrest
      obtain rfl := Option.some.inj h
      exact List.forall_mem_cons.2 ⟨distinctNames_of_value? hv, distinctNames_of_values? hrest⟩
    · cases h

theorem distinctNames_of_memberValues? {depth : Nat} {ms : List (Option String × Document)}
    {vs : List (String × Json)} (h : memberValues? depth ms = some vs) :
    ∀ m ∈ vs, m.2.DistinctNames := by
  cases ms with
  | nil =>
    obtain rfl := Option.some.inj h
    simp
  | cons m ms =>
    obtain ⟨name, x⟩ := m
    unfold memberValues? at h
    split at h
    · rename_i key v rest hkey hv hrest
      obtain rfl := Option.some.inj h
      exact List.forall_mem_cons.2
        ⟨distinctNames_of_value? hv, distinctNames_of_memberValues? hrest⟩
    · cases h

end

end Document

/-- Whatever a text says, the value that is read from it has distinct names. -/
theorem Json.distinctNames_of_read? {text : String} {v : Json}
    (h : Json.read? .json text = some v) : v.DistinctNames := by
  obtain ⟨doc, -, hv⟩ := Option.bind_eq_some_iff.1 h
  exact Document.distinctNames_of_value? hv

end SearchQuery
