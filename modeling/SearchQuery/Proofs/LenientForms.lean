import SearchQuery.Proofs.FormRoundTrip
import SearchQuery.Proofs.RecordParts

/-! # Lenient reading

A form is rejected only for a list or a record that is none. Whatever else stands in it is read,
and a member of the wrong type counts as a missing one. -/
namespace SearchQuery

open Document (Dialect HasValue NoRepeats Reader Reads Record SameParts)

/-- The choice that a text names, spaces around it apart, or a default when it names none. -/
def Chosen {α : Type} (name : α → String) (fallback : α) (text? : Option String) (a : α) : Prop :=
  (∀ s ∈ text?, ∀ b, name b = Text.trim s → a = b) ∧
    ((∀ s ∈ text?, ∀ b, name b ≠ Text.trim s) → a = fallback)

/-- The condition that a value spells. -/
structure Condition.ReadFrom (v : Json) (c : Condition) : Prop where
  clause : Chosen Clause.name .must ((v.part? members "clause").bind Json.text?) c.clause
  field : c.field = ((v.part? members "field").bind Json.text?).getD ""
  operator : Chosen Operator.name .unknown ((v.part? members "operator").bind Json.text?) c.operator
  value : c.value = nonNull? (v.part? members "value")
  value2 : c.value2 = nonNull? (v.part? members "value2")
  nestedPath : c.nestedPath = (v.part? members "nestedPath").bind Json.text?
  slop : c.slop = (v.part? members "slop").bind Json.slop?

/-- The timeframe that a value spells. -/
structure Timeframe.ReadFrom (v : Json) (t : Timeframe) : Prop where
  field : t.field = ((v.part? members "field").bind Json.text?).getD ""
  gte : t.gte = nonNull? (v.part? members "gte")
  lte : t.lte = nonNull? (v.part? members "lte")

namespace FilterForm

/-- The form that an object spells, with as many conditions as it lists and in their order. -/
structure ReadFrom (v : Json) (f : FilterForm) : Prop where
  conditions : List.Forall₂ Condition.ReadFrom
    (((v.member? "conditions").bind Json.items?).getD []) f.conditions
  timeframe : Option.Rel Timeframe.ReadFrom (nonNull? (v.member? "timeframe")) f.timeframe
  size : f.size = (v.member? "size").bind Json.size?

/-- What an object must be like to be read as a form. -/
structure IsReadable (v : Json) : Prop where
  conditions : ∀ w ∈ v.member? "conditions",
    w = .null ∨ ∃ items, w = .arr items ∧ ∀ item ∈ items, item.IsRecord 7
  timeframe : ∀ w ∈ v.member? "timeframe", w = .null ∨ w.IsRecord 3

/-- An object that repeats no member that is read, neither its own nor those of a condition or of
the timeframe. -/
structure Unrepeated (ms : List (Option String × Document)) : Prop where
  form : NoRepeats members (.obj ms)
  conditions : ∀ items, (some "conditions", .arr items) ∈ ms →
    ∀ item ∈ items, item.NoRepeats Condition.members
  timeframe : ∀ t, (some "timeframe", t) ∈ ms → t.NoRepeats Timeframe.members

/-- Members of forms that differ at most in members that are not read and in the order of those
that are. -/
inductive SameMember (name : String) : Document → Document → Prop
  | same (doc) : SameMember name doc doc
  | conditions {xs ys} (hname : name = "conditions")
      (h : List.Forall₂ (fun x y => x = y ∨ x.SameParts Condition.members (fun _ => Eq) y) xs ys) :
      SameMember name (.arr xs) (.arr ys)
  | timeframe {t t'} (hname : name = "timeframe")
      (h : t.SameParts Timeframe.members (fun _ => Eq) t') : SameMember name t t'

end FilterForm

variable {d : Dialect} {depth : Nat} {doc doc' : Document} {v w : Json} {r : Record}
  {names : List String} {name : String}

/-! ### Members -/

theorem Naming.chosen {α : Type} (n : Naming α) (part? : Option Json) :
    Chosen n.name n.fallback (part?.bind Json.text?)
      ((part?.bind fun j => j.text?.map n.ofName).getD n.fallback) := by
  have hmap : (part?.bind fun j => j.text?.map n.ofName) = (part?.bind Json.text?).map n.ofName := by
    cases part? <;> rfl
  rw [hmap]
  cases part?.bind Json.text? with
  | none => exact ⟨nofun, fun _ => rfl⟩
  | some s =>
    constructor
    · rintro _ ⟨⟩ b hb
      exact ofName_of_name_eq hb
    · intro h
      exact ofName_eq_fallback (h s rfl)

namespace Document.Record.Holds

theorem getD_bind {α : Type} (h : r.Holds names v) (hname : name ∈ names) (f : Json → Option α) :
    r.getD name none (Reader.json.map f) = some ((v.part? names name).bind f) := by
  rw [h.getD_map hname]
  cases v.part? names name <;> rfl

/-- A part of which nothing can be made counts as a missing one. -/
theorem getD_bind_getD {α : Type} (h : r.Holds names v) (hname : name ∈ names) (fallback : α)
    (f : Json → Option α) : r.getD name fallback (Reader.json.map fun j => (f j).getD fallback) =
      some (((v.part? names name).bind f).getD fallback) := by
  rw [h.getD_map hname]
  cases v.part? names name <;> rfl

/-- A free value is carried as it is, and null is read as absence. -/
theorem getD_nullable (h : r.Holds names v) (hname : name ∈ names) :
    r.getD name none (.nullable .json) = some (nonNull? (v.part? names name)) := by
  have hpart := h name hname
  rw [Record.getD]
  generalize r.members.lookup name = doc?, v.part? names name = w? at hpart
  cases hpart with
  | none => rfl
  | @some doc w hw =>
    by_cases hdoc : doc = .null
    · subst hdoc
      obtain rfl := Option.some.inj hw
      rfl
    · simp only
      rw [Reader.nullable]
      · rw [Reader.json, hw]
        simp [nonNull?, Option.filter_some, isNull_of_value? hdoc hw]
      · exact hdoc

end Document.Record.Holds

/-! ### Conditions -/

namespace Condition

/-- A condition is read from whatever can be a record. -/
theorem read_reads (hdepth : d.depth = depth + 1) (hsurplus : d.surplus = false)
    (hv : HasValue d.depth doc v) (hrepeats : doc.NoRepeats members) :
    Reads (v.IsRecord 7) (ReadFrom v) (read d doc) := by
  refine (Document.record?_reads hdepth hsurplus hv hrepeats).bind fun {r} hrecord => ?_
  obtain ⟨-, hr⟩ := hrecord
  have hclause : r.getD "clause" .must Clause.read = _ :=
    hr.getD_bind_getD (by decide) .must fun j => j.text?.map Clause.ofName
  have hoperator : r.getD "operator" .unknown Operator.read = _ :=
    hr.getD_bind_getD (by decide) .unknown fun j => j.text?.map Operator.ofName
  have hfield := hr.getD_bind_getD (show "field" ∈ members by decide) "" Json.text?
  have hvalue := hr.getD_nullable (show "value" ∈ members by decide)
  have hvalue2 := hr.getD_nullable (show "value2" ∈ members by decide)
  have hpath := hr.getD_bind (show "nestedPath" ∈ members by decide) Json.text?
  have hslop := hr.getD_bind (show "slop" ∈ members by decide) Json.slop?
  simp only [Option.bind_eq_bind, Option.bind_some, hclause, hfield, hoperator, hvalue, hvalue2,
    hpath, hslop]
  exact ⟨_, rfl,
    { clause := Clause.naming.chosen _
      field := rfl
      operator := Operator.naming.chosen _
      value := rfl
      value2 := rfl
      nestedPath := rfl
      slop := rfl }⟩

/-- The list of the conditions of a form, empty for null. -/
abbrev readAll : Reader (List Condition) := (Reader.nullable (.list read)).map fun cs => cs.getD []

theorem mapM_reads {items : List Document} {vs : List Json} (hdepth : d.depth = depth + 1)
    (hsurplus : d.surplus = false) (h : List.Forall₂ (HasValue d.depth) items vs)
    (hrepeats : ∀ item ∈ items, item.NoRepeats members) :
    Reads (∀ w ∈ vs, w.IsRecord 7) (List.Forall₂ ReadFrom vs) (items.mapM (read d)) := by
  induction h with
  | nil => exact .accept nofun .nil
  | @cons item w items vs hw h ih =>
    obtain ⟨hitem, hitems⟩ := List.forall_mem_cons.1 hrepeats
    have hread := read_reads hdepth hsurplus hw hitem
    have hrest := ih hitems
    rw [List.mapM_cons]
    generalize read d item = c?, items.mapM (read d) = cs? at hread hrest
    -- the list is accepted when its first item is and the rest of it is
    cases hread with
    | reject hrejected =>
      exact .reject fun haccepted => hrejected (List.forall_mem_cons.1 haccepted).1
    | accept haccepted hc =>
      cases hrest with
      | reject hrejected =>
        exact .reject fun haccepted => hrejected (List.forall_mem_cons.1 haccepted).2
      | accept haccepted' hcs =>
        exact .accept (List.forall_mem_cons.2 ⟨haccepted, haccepted'⟩) (.cons hc hcs)

theorem readAll_arr (hdepth : d.depth = depth + 1) (items : List Document) :
    readAll d (.arr items) = items.mapM (read { d with depth }) := by
  simp only [Reader.map, Reader.nullable, Reader.list, Dialect.enter?_eq hdepth,
    Option.bind_eq_bind, Option.bind_some]
  cases items.mapM (read { d with depth }) <;> rfl

/-- Conditions are read from null and from a list of what can be records. -/
theorem readAll_reads (hdepth : d.depth = depth + 2) (hsurplus : d.surplus = false)
    (hw : HasValue d.depth doc w)
    (hrepeats : ∀ items, doc = .arr items → ∀ item ∈ items, item.NoRepeats members) :
    Reads (w = .null ∨ ∃ items, w = .arr items ∧ ∀ item ∈ items, item.IsRecord 7)
      (List.Forall₂ ReadFrom (w.items?.getD []))
      (readAll d doc) := by
  rw [hdepth] at hw
  cases doc with
  | null =>
    obtain rfl := Option.some.inj hw
    exact .accept (.inl rfl) .nil
  | arr items =>
    obtain ⟨vs, hvs, rfl⟩ := Option.map_eq_some_iff.1 hw
    have hitems := mapM_reads (d := { d with depth := depth + 1 }) rfl hsurplus
      (Document.forall₂_of_values? hvs) (hrepeats items rfl)
    rw [readAll_arr hdepth]
    generalize items.mapM (read { d with depth := depth + 1 }) = cs? at hitems
    cases hitems with
    | reject hrejected =>
      refine .reject fun haccepted => hrejected ?_
      rcases haccepted with hnull | ⟨_, ⟨rfl⟩, hitems⟩
      · cases hnull
      · exact hitems
    | accept haccepted hcs => exact .accept (.inr ⟨vs, rfl, haccepted⟩) hcs
  | bool b =>
    obtain rfl := Option.some.inj hw
    exact .reject nofun
  | num n | str s | obj ms =>
    obtain ⟨_, -, rfl⟩ := Option.map_eq_some_iff.1 hw
    exact .reject nofun

end Condition

/-! ### Timeframes -/

namespace Timeframe

theorem read_reads (hdepth : d.depth = depth + 1) (hsurplus : d.surplus = false)
    (hv : HasValue d.depth doc v) (hrepeats : doc.NoRepeats members) :
    Reads (v.IsRecord 3) (ReadFrom v) (read d doc) := by
  refine (Document.record?_reads hdepth hsurplus hv hrepeats).bind fun {r} hrecord => ?_
  obtain ⟨-, hr⟩ := hrecord
  have hfield := hr.getD_bind_getD (show "field" ∈ members by decide) "" Json.text?
  have hgte := hr.getD_nullable (show "gte" ∈ members by decide)
  have hlte := hr.getD_nullable (show "lte" ∈ members by decide)
  simp only [Option.bind_eq_bind, Option.bind_some, hfield, hgte, hlte]
  exact ⟨_, rfl, { field := rfl, gte := rfl, lte := rfl }⟩

/-- A timeframe is read from null and from what can be a record. -/
theorem nullable_reads (hdepth : d.depth = depth + 1) (hsurplus : d.surplus = false)
    (hw : HasValue d.depth doc w) (hrepeats : doc.NoRepeats members) :
    Reads (w = .null ∨ w.IsRecord 3) (Option.Rel ReadFrom (nonNull? (some w)))
      (Reader.nullable read d doc) := by
  by_cases hdoc : doc = .null
  · subst hdoc
    obtain rfl := Option.some.inj hw
    exact .accept (.inl rfl) .none
  · have hnull := Document.isNull_of_value? hdoc hw
    have hpart : nonNull? (some w) = some w := by simp [nonNull?, Option.filter_some, hnull]
    have hread := read_reads hdepth hsurplus hw hrepeats
    rw [Reader.nullable, hpart]
    · generalize read d doc = t? at hread
      cases hread with
      | reject hrejected =>
        refine .reject fun haccepted => ?_
        rcases haccepted with rfl | haccepted
        · cases hnull
        · exact hrejected haccepted
      | accept haccepted ht => exact .accept (.inr haccepted) (.some ht)
    · exact hdoc

end Timeframe

/-! ### Forms -/

namespace FilterForm

/-- A form is read from every object in which the conditions and the timeframe are readable. -/
theorem read_reads {ms : List (Option String × Document)} (hdepth : d.depth = depth + 3)
    (hsurplus : d.surplus = false) (hv : HasValue d.depth (.obj ms) v) (hrepeats : Unrepeated ms) :
    Reads (IsReadable v) (ReadFrom v) (read d (.obj ms)) := by
  obtain ⟨vs, rfl, hrecord, hr⟩ := Document.record?_obj_of_value? hdepth hv hrepeats.form
  have hconditions : Reads _ (List.Forall₂ Condition.ReadFrom _)
      (Record.getD _ "conditions" [] Condition.readAll) :=
    hr.getD_reads (fun w? => List.Forall₂ Condition.ReadFrom ((w?.bind Json.items?).getD []))
      (by decide) .nil fun doc w hdoc hw =>
        Condition.readAll_reads rfl hsurplus hw fun items hitems =>
          hrepeats.conditions items (hitems ▸ Document.mem_of_lookup_known hdoc)
  have htimeframe : Reads _ (Option.Rel Timeframe.ReadFrom _)
      (Record.getD _ "timeframe" none (.nullable Timeframe.read)) :=
    hr.getD_reads (fun w? => Option.Rel Timeframe.ReadFrom (nonNull? w?))
      (by decide) .none fun doc w hdoc hw =>
        Timeframe.nullable_reads rfl hsurplus hw
          (hrepeats.timeframe doc (Document.mem_of_lookup_known hdoc))
  have hsize := hr.getD_bind (show "size" ∈ members by decide) Json.size?
  simp only [read, hrecord, Option.bind_eq_bind, Option.bind_some, hsize]
  generalize Record.getD _ "conditions" _ _ = cs?, Record.getD _ "timeframe" _ _ = t?
    at hconditions htimeframe
  cases hconditions with
  | reject hrejected => exact .reject fun haccepted => hrejected haccepted.conditions
  | accept hconditions hcs =>
    cases htimeframe with
    | reject hrejected => exact .reject fun haccepted => hrejected haccepted.timeframe
    | accept htimeframe ht => exact .accept ⟨hconditions, htimeframe⟩ ⟨hcs, ht, rfl⟩

end FilterForm

/-! ### What is not read -/

theorem Condition.read_sameParts (h : doc.SameParts members (fun _ => Eq) doc') (d : Dialect) :
    read d doc = read d doc' :=
  h.bind_eq (fun hr => by simp only [hr.getD_of_eq]) d

theorem Timeframe.read_sameParts (h : doc.SameParts members (fun _ => Eq) doc') (d : Dialect) :
    read d doc = read d doc' :=
  h.bind_eq (fun hr => by simp only [hr.getD_of_eq]) d

namespace Condition

theorem mapM_sameParts {xs ys : List Document}
    (h : List.Forall₂ (fun x y => x = y ∨ x.SameParts members (fun _ => Eq) y) xs ys)
    (d : Dialect) : xs.mapM (read d) = ys.mapM (read d) := by
  induction h with
  | nil => rfl
  | @cons x y xs ys hxy h ih =>
    have hread : read d x = read d y := hxy.elim (congrArg (read d)) (read_sameParts · d)
    rw [List.mapM_cons, List.mapM_cons, hread, ih]

theorem readAll_sameMember (h : FilterForm.SameMember "conditions" doc doc') (d : Dialect) :
    readAll d doc = readAll d doc' := by
  cases h with
  | same => rfl
  | conditions _ hitems =>
    simp only [Reader.map, Reader.nullable, Reader.list, mapM_sameParts hitems]
  | timeframe hname => exact absurd hname (by decide)

end Condition

theorem Timeframe.nullable_sameMember (h : FilterForm.SameMember "timeframe" doc doc')
    (d : Dialect) : Reader.nullable read d doc = Reader.nullable read d doc' := by
  cases h with
  | same => rfl
  | conditions hname => exact absurd hname (by decide)
  | timeframe _ ht =>
    have hread := read_sameParts ht d
    cases ht with
    | obj => exact congrArg (Option.map some) hread

namespace FilterForm

theorem SameMember.eq_of_ne (h : SameMember name doc doc') (hconditions : name ≠ "conditions")
    (htimeframe : name ≠ "timeframe") : doc = doc' := by
  cases h with
  | same => rfl
  | conditions hname => exact absurd hname hconditions
  | timeframe hname => exact absurd hname htimeframe

/-- Forms that differ in what is not read are read alike. -/
theorem read_sameParts (h : doc.SameParts members SameMember doc') (d : Dialect) :
    read d doc = read d doc' := by
  refine h.bind_eq (fun {r r'} hr => ?_) d
  have hconditions : r.getD "conditions" [] Condition.readAll = r'.getD "conditions" [] _ :=
    hr.getD_eq [] fun _ _ hmember => Condition.readAll_sameMember hmember r'.dialect
  have htimeframe : r.getD "timeframe" none (.nullable Timeframe.read) =
      r'.getD "timeframe" none _ :=
    hr.getD_eq none fun _ _ hmember => Timeframe.nullable_sameMember hmember r'.dialect
  have hsize : r.getD "size" none (Reader.json.map Json.size?) =
      r'.getD "size" none (Reader.json.map Json.size?) :=
    hr.getD_eq none fun _ _ hmember => congrArg _ (hmember.eq_of_ne (by decide) (by decide))
  simp only [hconditions, htimeframe, hsize]

/-- An object without repeated members is read as a form just when its conditions and its timeframe
are readable, and the form is the one that it spells. What is not read has no influence on this,
nor has the order of what is read. -/
theorem read_lenient :
    (∀ ms v, Reader.json Json.dialect (.obj ms) = some v → Unrepeated ms →
      ((∃ f, read Json.dialect (.obj ms) = some f) ↔ IsReadable v) ∧
      ∀ f, read Json.dialect (.obj ms) = some f → ReadFrom v f) ∧
    ∀ doc doc', doc.SameParts members SameMember doc' →
      read Json.dialect doc = read Json.dialect doc' := by
  refine ⟨fun ms v hv hrepeats => ?_, fun doc doc' h => read_sameParts h _⟩
  have hreads := read_reads (d := Json.dialect) rfl rfl hv hrepeats
  generalize read Json.dialect (.obj ms) = f? at hreads
  cases hreads with
  | reject hrejected => exact ⟨iff_of_false nofun hrejected, nofun⟩
  | @accept f haccepted hf =>
    refine ⟨iff_of_true ⟨f, rfl⟩ haccepted, ?_⟩
    rintro _ ⟨⟩
    exact hf

/-- A condition with two members of the wrong type, one given as a list, and a size that is none. -/
def looseMembers : List (Option String × Document) :=
  [(some "size", .bool true),
    (some "conditions", .arr [
      .obj [(some "operator", .str (some " equals ")), (some "field", .num (some (.int 7))),
        (some "clause", .str (some "sometimes"))],
      .arr [.str (some "filter"), .str (some "sku"), .str (some "in"), .null]]),
    (some "timeframe", .arr [.str (some "at")])]

def looseValue : Json :=
  .obj [("size", .bool true),
    ("conditions", .arr [
      .obj [("operator", .str " equals "), ("field", .num (.int 7)), ("clause", .str "sometimes")],
      .arr [.str "filter", .str "sku", .str "in", .null]]),
    ("timeframe", .arr [.str "at"])]

/-- The same members in another order, among others that have no value. -/
def shuffledMembers : List (Option String × Document) :=
  [(some "note", .num none),
    (some "conditions", .arr [
      .obj [(some "field", .num (some (.int 7))), (some "clause", .str (some "sometimes")),
        (some "note", .str none), (some "operator", .str (some " equals "))],
      .arr [.str (some "filter"), .str (some "sku"), .str (some "in"), .null]]),
    (some "timeframe", .arr [.str (some "at")]),
    (some "size", .bool true)]

/-- A list with one member more than a condition has. -/
def longMembers : List (Option String × Document) :=
  [(some "conditions", .arr [.arr (List.replicate 8 .null)])]

theorem unrepeated_looseMembers : Unrepeated looseMembers := by
  constructor
  · rintro _ ⟨⟩
    decide
  · intro items hitems item hitem ms hms
    obtain rfl : items = _ := by simpa [looseMembers] using hitems
    obtain rfl : ms = _ := by simpa [hms] using hitem
    decide
  · intro t ht ms hms
    simp [looseMembers, hms] at ht

theorem unrepeated_longMembers : Unrepeated longMembers := by
  constructor
  · rintro _ ⟨⟩
    decide
  · intro items hitems item hitem ms hms
    obtain rfl : items = _ := by simpa [longMembers] using hitems
    simp [hms] at hitem
  · intro t ht
    simp [longMembers] at ht

theorem sameParts_looseMembers :
    (Document.obj looseMembers).SameParts members SameMember (.obj shuffledMembers) := by
  have hcondition : (Document.obj
      [(some "operator", .str (some " equals ")), (some "field", .num (some (.int 7))),
        (some "clause", .str (some "sometimes"))]).SameParts Condition.members (fun _ => Eq) (.obj
      [(some "field", .num (some (.int 7))), (some "clause", .str (some "sometimes")),
        (some "note", .str none), (some "operator", .str (some " equals "))]) :=
    .obj (by simp) (by simp) (List.perm_append_singleton _ [_, _]).symm
      (List.forall₂_same.2 fun _ _ => ⟨rfl, rfl⟩)
  exact .obj (by simp [looseMembers]) (by simp [shuffledMembers])
    (List.perm_append_singleton _ [_, _]).symm
    (.cons ⟨rfl, .conditions rfl (.cons (.inr hcondition) (.cons (.inl rfl) .nil))⟩
      (.cons ⟨rfl, .same _⟩ (.cons ⟨rfl, .same _⟩ .nil)))

/-- Members of the wrong type take their defaults, while a list that is too long is rejected. -/
theorem looseMembers_read : ∃ f,
    (Reader.json Json.dialect (.obj looseMembers) = some looseValue ∧ Unrepeated looseMembers) ∧
    (read Json.dialect (.obj looseMembers) = some f ∧ IsReadable looseValue ∧
      ReadFrom looseValue f) ∧
    f.conditions.map (fun c => (c.clause, c.field, c.operator)) =
      [(.must, "", .equals), (.filter, "sku", .in)] ∧
    read Json.dialect (.obj shuffledMembers) = some f ∧
    Unrepeated longMembers ∧ ¬ ∃ f, read Json.dialect (.obj longMembers) = some f := by
  obtain ⟨hreads, hsame⟩ := read_lenient
  obtain ⟨hiff, hform⟩ := hreads looseMembers looseValue rfl unrepeated_looseMembers
  have hlong := (hreads longMembers (.keyed "conditions" (.arr [.arr (List.replicate 8 .null)])) rfl
    unrepeated_longMembers).1
  refine ⟨_, ⟨rfl, unrepeated_looseMembers⟩, ⟨rfl, hiff.1 ⟨_, rfl⟩, hform _ rfl⟩, by decide,
    (hsame _ _ sameParts_looseMembers).symm, unrepeated_longMembers, ?_⟩
  rw [hlong]
  intro haccepted
  obtain hnull | ⟨_, ⟨rfl⟩, hitems⟩ := haccepted.conditions _ rfl
  · cases hnull
  · cases hitems _ List.mem_cons_self with
    | arr hlength => simp at hlength

end FilterForm

end SearchQuery
