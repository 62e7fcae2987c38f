import SearchQuery.Proofs.WrittenValues

/-! # The parts of records

A record is given as an object or as a list. Of an object the members that the record knows are
read, whatever stands around them and in whatever order; of a list a member is known by its
position. -/
namespace SearchQuery

namespace Json

/-- A value that can be a record with so many members: an object, or a list that is not longer. -/
inductive IsRecord (size : Nat) : Json → Prop
  | obj (ms) : IsRecord size (.obj ms)
  | arr {items} (hlength : items.length ≤ size) : IsRecord size (.arr items)

/-- The member of a record with a given name. -/
def part? (v : Json) (names : List String) (name : String) : Option Json :=
  match v with
  | .obj ms => ms.lookup name
  | .arr items => (names.zip items).lookup name
  | _ => none

end Json

namespace Document

/-- A document that is read as a value, with so many levels. -/
abbrev HasValue (depth : Nat) (doc : Document) (v : Json) : Prop := doc.value? depth = some v

/-- The members of an object that have a name. -/
def named (ms : List (Option String × Document)) : List (String × Document) :=
  ms.filterMap fun m => m.1.map fun name => (name, m.2)

/-- The members of an object that a record with some names looks at. -/
def known (names : List String) (ms : List (Option String × Document)) : List (String × Document) :=
  (named ms).filter fun m => names.contains m.1

/-- If a document is an object, it has none of the names more than once. -/
def NoRepeats (names : List String) (doc : Document) : Prop :=
  ∀ ms, doc = .obj ms → ((known names ms).map Prod.fst).Nodup

/-- What comes of a part: something that is described where the part is accepted, and nothing
elsewhere. -/
inductive Reads {α : Type} (accepted : Prop) (gives : α → Prop) : Option α → Prop
  | accept {a} (h : accepted) (ha : gives a) : Reads accepted gives (some a)
  | reject (h : ¬ accepted) : Reads accepted gives none

/-- A record whose members have the values of the parts of a value. -/
def Record.Holds (r : Record) (names : List String) (v : Json) : Prop :=
  ∀ name ∈ names,
    Option.Rel (HasValue r.dialect.depth) (r.members.lookup name) (v.part? names name)

variable {names : List String} {name : String} {d : Dialect} {depth : Nat} {doc doc' : Document}
  {ms ms' : List (Option String × Document)} {v : Json} {vs : List (String × Json)}

/-- What is made of something that is described is accepted where this is. -/
theorem Reads.bind {α β : Type} {accepted : Prop} {gives : α → Prop} {gives' : β → Prop}
    {a? : Option α} {f : α → Option β} (h : Reads accepted gives a?)
    (hf : ∀ {a}, gives a → ∃ b, f a = some b ∧ gives' b) : Reads accepted gives' (a?.bind f) := by
  cases h with
  | reject hrejected => exact .reject hrejected
  | accept haccepted ha =>
    obtain ⟨b, hb, hgives⟩ := hf ha
    rw [Option.bind_some, hb]
    exact .accept haccepted hgives

section Values

theorem forall₂_of_values? {xs : List Document} {vs : List Json} (h : values? depth xs = some vs) :
    List.Forall₂ (HasValue depth) xs vs := by
  induction xs generalizing vs with
  | nil =>
    obtain rfl := Option.some.inj h
    exact .nil
  | cons x xs ih =>
    rw [values?] at h
    split at h
    · rename_i v rest hv hrest
      obtain rfl := Option.some.inj h
      exact .cons hv (ih hrest)
    · cases h

theorem forall₂_of_memberValues? (h : memberValues? depth ms = some vs) :
    (∀ m ∈ ms, m.1.isSome = true) ∧
      List.Forall₂ (fun m w => m.1 = w.1 ∧ HasValue depth m.2 w.2) (named ms) vs := by
  induction ms generalizing vs with
  | nil =>
    obtain rfl := Option.some.inj h
    exact ⟨by simp, .nil⟩
  | cons m ms ih =>
    obtain ⟨key?, x⟩ := m
    unfold memberValues? at h
    split at h
    · rename_i key v rest hkey hv hrest
      obtain rfl := Option.some.inj h
      obtain ⟨hnames, hvalues⟩ := ih hrest
      exact ⟨List.forall_mem_cons.2 ⟨rfl, hnames⟩, .cons ⟨rfl, hv⟩ hvalues⟩
    · cases h

theorem forall₂_zip {α β : Type} {R : α → β → Prop} {xs : List α} {ys : List β}
    (names : List String) (h : List.Forall₂ R xs ys) :
    List.Forall₂ (fun m n => m.1 = n.1 ∧ R m.2 n.2) (names.zip xs) (names.zip ys) := by
  induction h generalizing names with
  | nil => simp
  | cons hxy h ih =>
    cases names with
    | nil => exact .nil
    | cons name names => exact .cons ⟨rfl, hxy⟩ (ih names)

/-- A name that stands once is found from either end. -/
theorem lookup_reverse {α : Type} {ms : List (String × α)}
    (h : ((ms.map Prod.fst).filter names.contains).Nodup) (hname : name ∈ names) :
    ms.reverse.lookup name = ms.lookup name := by
  have hcontains : names.contains name = true := List.contains_iff_mem.2 hname
  rw [List.filter_map] at h
  rw [← Json.lookup_filter hcontains ms, ← Json.lookup_filter hcontains ms.reverse,
    List.filter_reverse]
  exact (Json.lookup_perm (List.reverse_perm _).symm h name).symm

theorem mem_of_lookup_known (h : (known names ms).lookup name = some doc) :
    (some name, doc) ∈ ms := by
  have hknown := Json.mem_of_lookup_eq_some h
  obtain ⟨m, hm, hmember⟩ := List.mem_filterMap.1 (List.mem_of_mem_filter hknown)
  obtain ⟨key, hkey, heq⟩ := Option.map_eq_some_iff.1 hmember
  obtain ⟨rfl, rfl⟩ := Prod.mk.inj heq
  exact hkey ▸ hm

theorem lookup_known (hname : name ∈ names) :
    (known names ms).lookup name = (named ms).lookup name :=
  Json.lookup_filter (List.contains_iff_mem.2 hname) (named ms)

/-- The members that a record looks at have the values of the members of the object. -/
theorem rel_lookup_known (h : memberValues? depth ms = some vs)
    (hrepeats : NoRepeats names (.obj ms)) (hname : name ∈ names) :
    Option.Rel (HasValue depth) ((known names ms).lookup name)
      ((Json.ofMembers vs).member? name) := by
  obtain ⟨-, hvalues⟩ := forall₂_of_memberValues? h
  have hkeys : (named ms).map Prod.fst = vs.map Prod.fst := Json.map_fst_eq hvalues
  have honce : ((vs.map Prod.fst).filter names.contains).Nodup := by
    rw [← hkeys, List.filter_map]
    exact hrepeats ms rfl
  rw [Json.member?_ofMembers, lookup_reverse honce hname, lookup_known hname]
  exact Json.rel_lookup (R := fun _ => HasValue depth) hvalues name

end Values

section Records

theorem record?_obj (hnames : ∀ m ∈ ms, m.1.isSome = true) :
    record? names d (.obj ms) = d.enter?.bind fun inner =>
      if ((known names ms).map Prod.fst).Nodup then some ⟨inner, known names ms⟩ else none := by
  have hnamed : ms.mapM (fun m => m.1.map fun name => (name, m.2)) = some (named ms) := by
    induction ms with
    | nil => rfl
    | cons m ms ih =>
      obtain ⟨hm, hms⟩ := List.forall_mem_cons.1 hnames
      obtain ⟨name, hname⟩ := Option.isSome_iff_exists.1 hm
      rw [List.mapM_cons, ih hms, hname]
      simp [named, hname]
  simp only [record?, hnamed, Option.bind_eq_bind, Option.bind_some]
  rfl

/-- An object is read as the record of the members that are known. -/
theorem record?_obj_of_value? (hdepth : d.depth = depth + 1) (hv : HasValue d.depth (.obj ms) v)
    (hrepeats : NoRepeats names (.obj ms)) : ∃ vs, v = .obj vs ∧
      record? names d (.obj ms) = some ⟨{ d with depth }, known names ms⟩ ∧
      Record.Holds ⟨{ d with depth }, known names ms⟩ names v := by
  rw [hdepth] at hv
  obtain ⟨vs, hvs, rfl⟩ := Option.map_eq_some_iff.1 hv
  have hnames := (forall₂_of_memberValues? hvs).1
  refine ⟨_, rfl, ?_, fun name hname => rel_lookup_known hvs hrepeats hname⟩
  rw [record?_obj hnames, Dialect.enter?_eq hdepth, Option.bind_some, if_pos (hrepeats ms rfl)]

/-- A document is read as a record when its value can be one, and then member by member. -/
theorem record?_reads (hdepth : d.depth = depth + 1) (hsurplus : d.surplus = false)
    (hv : HasValue d.depth doc v) (hrepeats : doc.NoRepeats names) :
    Reads (v.IsRecord names.length) (fun r => r.dialect = { d with depth } ∧ r.Holds names v)
      (record? names d doc) := by
  cases doc with
  | arr xs =>
    rw [hdepth] at hv
    obtain ⟨vs, hvs, rfl⟩ := Option.map_eq_some_iff.1 hv
    have hvalues := forall₂_of_values? hvs
    have hlength := hvalues.length_eq
    by_cases hfits : xs.length ≤ names.length
    · have hread : record? names d (.arr xs) = some ⟨{ d with depth }, names.zip xs⟩ := by
        simp [record?, Dialect.enter?_eq hdepth, hfits]
      rw [hread]
      refine .accept (.arr (hlength ▸ hfits)) ⟨rfl, fun name _ => ?_⟩
      exact Json.rel_lookup (R := fun _ => HasValue depth) (forall₂_zip names hvalues) name
    · have hread : record? names d (.arr xs) = none := by
        simp [record?, Dialect.enter?_eq hdepth, hfits, hsurplus]
      rw [hread]
      refine .reject fun h => ?_
      cases h with
      | arr hle => exact hfits (hlength ▸ hle)
  | obj ms =>
    obtain ⟨vs, rfl, hread, hholds⟩ := record?_obj_of_value? hdepth hv hrepeats
    rw [hread]
    exact .accept (.obj vs) ⟨rfl, hholds⟩
  | null | bool b =>
    obtain rfl := Option.some.inj hv
    exact .reject (by rintro ⟨⟩)
  | num n | str s =>
    obtain ⟨_, -, rfl⟩ := Option.map_eq_some_iff.1 hv
    exact .reject (by rintro ⟨⟩)

variable {r : Record}

theorem Record.Holds.getD_map {α : Type} (h : r.Holds names v) (hname : name ∈ names)
    (fallback : α) (f : Json → α) : r.getD name fallback (Reader.json.map f) =
      some ((v.part? names name).elim fallback f) := by
  have hpart := h name hname
  rw [Record.getD]
  generalize r.members.lookup name = doc?, v.part? names name = w? at hpart
  cases hpart with
  | none => rfl
  | some hw => exact congrArg (Option.map f) hw

/-- A member is read as its part is, and takes its default when there is none. -/
theorem Record.Holds.getD_reads {α : Type} {fallback : α} {read : Reader α}
    {accepted : Json → Prop} (gives : Option Json → α → Prop) (h : r.Holds names v)
    (hname : name ∈ names) (hfallback : gives none fallback)
    (hread : ∀ doc w, r.members.lookup name = some doc → HasValue r.dialect.depth doc w →
      Reads (accepted w) (gives (some w)) (read r.dialect doc)) :
    Reads (∀ w ∈ v.part? names name, accepted w) (gives (v.part? names name))
      (r.getD name fallback read) := by
  have hpart := h name hname
  rw [Record.getD]
  generalize hdoc : r.members.lookup name = doc?, v.part? names name = w? at hpart
  cases hpart with
  | none => exact .accept (by simp) hfallback
  | @some doc w hw =>
    have hreads := hread doc w hdoc hw
    simpa using hreads

end Records

section Unknown

/-- Two objects that agree on the members that a record looks at, up to a relation between these and
in another order. -/
inductive SameParts (names : List String) (R : String → Document → Document → Prop) :
    Document → Document → Prop
  | obj {ms ms' parts} (hnames : ∀ m ∈ ms, m.1.isSome = true)
      (hnames' : ∀ m ∈ ms', m.1.isSome = true)
      (horder : (known names ms).Perm parts)
      (hparts : List.Forall₂ (fun m m' => m.1 = m'.1 ∧ R m.1 m.2 m'.2) parts (known names ms')) :
      SameParts names R (.obj ms) (.obj ms')

variable {R : String → Document → Document → Prop}

/-- Two records in which related members stand under each name. -/
structure Record.Related (R : String → Document → Document → Prop) (r r' : Record) : Prop where
  dialect : r.dialect = r'.dialect
  lookup : ∀ name, Option.Rel (R name) (r.members.lookup name) (r'.members.lookup name)

theorem SameParts.rel_record? (h : SameParts names R doc doc') (d : Dialect) :
    Option.Rel (Record.Related R) (record? names d doc) (record? names d doc') := by
  cases h with
  | @obj ms ms' parts hnames hnames' horder hparts =>
    have hkeys : ((known names ms).map Prod.fst).Perm ((known names ms').map Prod.fst) :=
      Json.map_fst_eq hparts ▸ horder.map Prod.fst
    rw [record?_obj hnames, record?_obj hnames']
    cases d.enter? with
    | none => exact .none
    | some inner =>
      by_cases hnodup : ((known names ms).map Prod.fst).Nodup
      · rw [Option.bind_some, Option.bind_some, if_pos hnodup, if_pos (hkeys.nodup_iff.1 hnodup)]
        refine .some ⟨rfl, fun name => ?_⟩
        rw [Json.lookup_perm horder hnodup name]
        exact Json.rel_lookup hparts name
      · rw [Option.bind_some, Option.bind_some, if_neg hnodup,
          if_neg (mt hkeys.nodup_iff.2 hnodup)]
        exact .none

theorem Record.Related.getD_eq {α : Type} {r r' : Record} (h : r.Related R r') {name : String}
    (fallback : α) {read : Reader α}
    (hread : ∀ doc doc', R name doc doc' → read r'.dialect doc = read r'.dialect doc') :
    r.getD name fallback read = r'.getD name fallback read := by
  have hparts := h.lookup name
  rw [Record.getD, Record.getD, h.dialect]
  generalize r.members.lookup name = doc?, r'.members.lookup name = doc?' at hparts
  cases hparts with
  | none => rfl
  | some hdoc => exact hread _ _ hdoc

theorem Record.Related.getD_of_eq {α : Type} {r r' : Record} (h : r.Related (fun _ => Eq) r')
    (name : String) (fallback : α) (read : Reader α) :
    r.getD name fallback read = r'.getD name fallback read :=
  h.getD_eq fallback fun _ _ hdoc => congrArg _ hdoc

/-- What is made of related records alike is made of the objects alike. -/
theorem SameParts.bind_eq {α : Type} {f : Record → Option α} (h : SameParts names R doc doc')
    (hf : ∀ {r r'}, Record.Related R r r' → f r = f r') (d : Dialect) :
    (record? names d doc).bind f = (record? names d doc').bind f := by
  have hrecord := h.rel_record? d
  generalize record? names d doc = r?, record? names d doc' = r?' at hrecord
  cases hrecord with
  | none => rfl
  | some hr => exact hf hr

end Unknown

end Document
end SearchQuery
