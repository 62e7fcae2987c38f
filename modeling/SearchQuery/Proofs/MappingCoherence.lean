import SearchQuery.Proofs.DistinctNames
import SearchQuery.Proofs.MappingFields
import SearchQuery.Proofs.PlainNames

/-! # Coherent catalogs

A catalog is coherent when the companion of a field is a keyword field of the same nested object and
every nested path leads to a field. The catalog of a mapping need not be so, because one definition
may hide another of the same name. With one object of properties and plain names no two definitions
have one name, and the catalog is coherent. -/
namespace SearchQuery

structure Catalog.Coherent (c : Catalog) : Prop where
  companion : ∀ {name f key}, c.get? name = some f → f.keywordField = some key →
    ∃ g, c.get? key = some g ∧ g.type = .keyword ∧ g.nested? = f.nested?
  known_path : ∀ {name f path}, c.get? name = some f → f.nested? = some path →
    c.hasKeyPrefix path = true

namespace Catalog

/-- The names of properties and of the members of their `fields`, at every depth. -/
inductive Named : List (String × Json) → String → Prop
  | property {ps name property} (hmem : (name, property) ∈ ps) : Named ps name
  | sub {ps name parts subs subName sub} (hmem : (name, .obj parts) ∈ ps)
      (hfields : parts.lookup "fields" = some (.obj subs)) (hsub : (subName, sub) ∈ subs) :
      Named ps subName
  | inside {ps name parts inner below} (hmem : (name, .obj parts) ∈ ps)
      (hinner : parts.lookup "properties" = some (.obj inner)) (h : Named inner below) :
      Named ps below

/-- The names of the ancestors of some properties and all names in these are plain. -/
structure PlainBelow (as : List Ancestor) (ps : List (String × Json)) : Prop where
  above : ∀ name ∈ as.map Ancestor.name, IsPlainName name
  below : ∀ name, Named ps name → IsPlainName name

variable {as : List Ancestor} {ps parts inner : List (String × Json)} {name : String}
  {place : List Nat} {f : Field}

theorem PlainBelow.inside (h : PlainBelow as ps) (hmem : (name, .obj parts) ∈ ps)
    (hinner : parts.lookup "properties" = some (.obj inner)) :
    PlainBelow (as ++ [⟨name, isNested parts⟩]) inner := by
  constructor
  · intro other hother
    rw [List.map_append, List.mem_append] at hother
    rcases hother with hother | hother
    · exact h.above other hother
    · obtain rfl : other = name := by simpa using hother
      exact h.below other (.property hmem)
  · intro other hother
    exact h.below other (.inside hmem hinner hother)

theorem mem_multiFields {i : Nat} {m : String × Json} (h : (multiFields parts)[i]? = some m) :
    ∃ subs, parts.lookup "fields" = some (.obj subs) ∧ subs[i]? = some m := by
  unfold multiFields at h
  cases hfields : (parts.lookup "fields").bind Json.members? with
  | none => simp [hfields] at h
  | some subs =>
    obtain ⟨value, hvalue, hmembers⟩ := Option.bind_eq_some_iff.1 hfields
    obtain rfl := Json.members?_eq_some.1 hmembers
    exact ⟨subs, hvalue, by simpa [hfields] using h⟩

theorem chainPath_ne_empty (as : List Ancestor) (hname : name ≠ "") : chainPath as name ≠ "" := by
  intro h
  exact hname ((spelling_eq_empty_iff _).1 h name (by simp))

theorem append_dot_ne (path sub : String) : path ++ "." ++ sub ≠ path := by
  intro h
  have hlength := congrArg (fun s => s.toList.length) h
  simp at hlength

section Names

/-- What a property gives is spelled by its chain and at most one name more. -/
theorem Gives.exists_names {j : Nat} (h : Gives as name parts j f) (hplain : PlainBelow as ps)
    (hmem : (name, .obj parts) ∈ ps) : ∃ more, (∀ n ∈ more, IsPlainName n) ∧
      f.name = spelling (as.map Ancestor.name ++ name :: more) := by
  have hname := hplain.below name (.property hmem)
  cases h with
  | @sub type i subName sub hfield hsub =>
    obtain ⟨subs, hfields, hget⟩ := mem_multiFields hsub
    have hsubName := hplain.below subName (.sub hmem hfields (List.mem_of_getElem? hget))
    refine ⟨[subName], by simpa using hsubName, ?_⟩
    have hsplit : as.map Ancestor.name ++ [name, subName] =
        as.map Ancestor.name ++ [name] ++ [subName] := by simp
    have hpath : spelling (as.map Ancestor.name ++ [name]) ≠ "" :=
      chainPath_ne_empty as hname.ne_empty
    rw [hsplit, spelling_concat, if_neg hpath]
    rfl
  | own hfield => exact ⟨[], by simp, rfl⟩

theorem Defines.exists_names (h : Defines as ps place f) (hplain : PlainBelow as ps) :
    ∃ more, (∀ n ∈ more, IsPlainName n) ∧ f.name = spelling (as.map Ancestor.name ++ more) := by
  induction h with
  | @here as ps i name parts j f hprop hgives =>
    have hmem := List.mem_of_getElem? hprop
    obtain ⟨more, hmore, hname⟩ := hgives.exists_names hplain hmem
    exact ⟨name :: more,
      List.forall_mem_cons.2 ⟨hplain.below name (.property hmem), hmore⟩, hname⟩
  | @inside as ps i name parts inner place f hprop hinner h ih =>
    have hmem := List.mem_of_getElem? hprop
    obtain ⟨more, hmore, hname⟩ := ih (hplain.inside hmem hinner)
    exact ⟨name :: more,
      List.forall_mem_cons.2 ⟨hplain.below name (.property hmem), hmore⟩, by simpa using hname⟩

theorem DefinedBy.exists_names (h : DefinedBy as (name, property) place f)
    (hplain : PlainBelow as ps) (hmem : (name, property) ∈ ps) :
    ∃ more, (∀ n ∈ more, IsPlainName n) ∧
      f.name = spelling (as.map Ancestor.name ++ name :: more) := by
  obtain ⟨parts, rfl, ⟨j, -, hgives⟩ | ⟨inner, hinner, h⟩⟩ := h
  · exact hgives.exists_names hplain hmem
  · obtain ⟨more, hmore, hname⟩ := h.exists_names (hplain.inside hmem hinner)
    exact ⟨more, hmore, by simpa using hname⟩

/-- The name of a field tells the property that defines it. -/
theorem DefinedBy.name_eq {property property' : Json} {name' : String} {place' : List Nat}
    {f' : Field} (h : DefinedBy as (name, property) place f)
    (h' : DefinedBy as (name', property') place' f') (hplain : PlainBelow as ps)
    (hmem : (name, property) ∈ ps) (hmem' : (name', property') ∈ ps) (hf : f.name = f'.name) :
    name = name' := by
  obtain ⟨more, hmore, hspelled⟩ := h.exists_names hplain hmem
  obtain ⟨more', hmore', hspelled'⟩ := h'.exists_names hplain hmem'
  have hall {n : String} {rest : List String} (hn : IsPlainName n)
      (hrest : ∀ m ∈ rest, IsPlainName m) :
      ∀ m ∈ as.map Ancestor.name ++ n :: rest, IsPlainName m :=
    List.forall_mem_append.2 ⟨hplain.above, List.forall_mem_cons.2 ⟨hn, hrest⟩⟩
  have hchains := spelling_inj (hall (hplain.below name (.property hmem)) hmore)
    (hall (hplain.below name' (.property hmem')) hmore')
    (hspelled.symm.trans (hf.trans hspelled'))
  exact (List.cons.inj (List.append_cancel_left hchains)).1

/-- One property gives no two fields of one name. -/
theorem Gives.unique {j j' : Nat} {f' : Field} (h : Gives as name parts j f)
    (h' : Gives as name parts j' f') (hdistinct : Json.DistinctNames (.obj parts))
    (hf : f.name = f'.name) : f = f' := by
  cases h with
  | @sub type i subName sub hfield hsub =>
    cases h' with
    | @sub type' i' subName' sub' hfield' hsub' =>
      obtain rfl : subName = subName' := by simpa using hf
      obtain ⟨subs, hfields, hget⟩ := mem_multiFields hsub
      obtain ⟨subs', hfields', hget'⟩ := mem_multiFields hsub'
      obtain rfl := Json.obj.inj (Option.some.inj (hfields.symm.trans hfields'))
      have hsubs : Json.DistinctNames (.obj subs) :=
        hdistinct.of_mem (Json.mem_of_lookup_eq_some hfields)
      obtain ⟨-, rfl⟩ := hsubs.getElem?_inj hget hget'
      rfl
    | own => exact absurd hf (append_dot_ne _ _)
  | @own type hfield =>
    cases h' with
    | sub => exact absurd hf.symm (append_dot_ne _ _)
    | @own type' hfield' =>
      obtain rfl : type = type' := by simpa using hfield.type_eq.symm.trans hfield'.type_eq
      rfl

/-- What has the name of a field comes from the property that defines the field. -/
theorem Defines.definedBy_of_name_eq {i : Nat} {property : Json} {place' : List Nat} {f' : Field}
    (h' : Defines as ps place' f') (hprop : ps[i]? = some (name, property))
    (h : DefinedBy as (name, property) place f) (hdistinct : Json.DistinctNames (.obj ps))
    (hplain : PlainBelow as ps) (hf : f.name = f'.name) :
    ∃ rest, DefinedBy as (name, property) rest f' := by
  obtain ⟨i', ⟨name', property'⟩, rest, hprop', rfl, hby⟩ := defines_iff.1 h'
  obtain rfl := h.name_eq hby hplain (List.mem_of_getElem? hprop) (List.mem_of_getElem? hprop') hf
  obtain ⟨-, rfl⟩ := hdistinct.getElem?_inj hprop hprop'
  exact ⟨rest, hby⟩

/-- Among plain names no two definitions have one name. -/
theorem Defines.unique {place' : List Nat} {f' : Field} (h : Defines as ps place f)
    (h' : Defines as ps place' f') (hdistinct : Json.DistinctNames (.obj ps))
    (hplain : PlainBelow as ps) (hf : f.name = f'.name) : f = f' := by
  -- the name tells the property, and a property that gives fields has no inner properties
  induction h generalizing place' with
  | @here as ps i name parts j f hprop hgives =>
    have hparts : Json.DistinctNames (.obj parts) := hdistinct.of_mem (List.mem_of_getElem? hprop)
    obtain ⟨rest, _, ⟨rfl⟩, ⟨j', -, hgives'⟩ | ⟨inner, hinner, -⟩⟩ := h'.definedBy_of_name_eq hprop
      ⟨parts, rfl, .inl ⟨j, rfl, hgives⟩⟩ hdistinct hplain hf
    · exact hgives.unique hgives' hparts hf
    · exact absurd hinner (hgives.no_properties inner)
  | @inside as ps i name parts inner place f hprop hinner h ih =>
    have hmem := List.mem_of_getElem? hprop
    have hparts : Json.DistinctNames (.obj parts) := hdistinct.of_mem hmem
    obtain ⟨rest, _, ⟨rfl⟩, ⟨j', -, hgives'⟩ | ⟨inner', hinner', h'⟩⟩ :=
      h'.definedBy_of_name_eq hprop ⟨parts, rfl, .inr ⟨inner, hinner, h⟩⟩ hdistinct hplain hf
    · exact absurd hinner (hgives'.no_properties inner)
    · obtain rfl := Json.obj.inj (Option.some.inj (hinner.symm.trans hinner'))
      exact ih h' (hparts.of_mem (Json.mem_of_lookup_eq_some hinner)) (hplain.inside hmem hinner) hf

end Names

section Coherence

/-- The companion of a field is one of the fields that its property gives. -/
theorem Gives.exists_companion {j : Nat} {key : String} (h : Gives as name parts j f)
    (hkey : f.keywordField = some key) : ∃ i g, Gives as name parts i g ∧ g.name = key ∧
      g.type = .keyword ∧ g.nestedPath = f.nestedPath := by
  cases h with
  | sub => cases hkey
  | @own type hfield =>
    obtain ⟨⟨subName, sub⟩, hfind, rfl⟩ := Option.map_eq_some_iff.1 hkey
    obtain ⟨i, hi⟩ := List.mem_iff_getElem?.1 (List.mem_of_find?_eq_some hfind)
    have hfamily := List.find?_some hfind
    exact ⟨i, _, .sub hfield hi, rfl,
      (ofName_eq_keyword_iff _).2 (List.contains_iff_mem.1 hfamily), rfl⟩

theorem Defines.exists_companion {key : String} (h : Defines as ps place f)
    (hkey : f.keywordField = some key) : ∃ place' g, Defines as ps place' g ∧ g.name = key ∧
      g.type = .keyword ∧ g.nestedPath = f.nestedPath := by
  induction h with
  | here hprop hgives =>
    obtain ⟨i, g, hgives', hg⟩ := hgives.exists_companion hkey
    exact ⟨_, g, .here hprop hgives', hg⟩
  | inside hprop hinner _ ih =>
    obtain ⟨place', g, hg, hspec⟩ := ih hkey
    exact ⟨_, g, .inside hprop hinner hg, hspec⟩

/-- The nested path of a field is that of an ancestor, with which the name of the field starts. -/
theorem Gives.nestedPath_spec {j : Nat} {path : String} (h : Gives as name parts j f)
    (hplain : PlainBelow as ps) (hmem : (name, .obj parts) ∈ ps)
    (hpath : f.nestedPath = some path) :
    Text.trim path = path ∧ path.toList <+: f.name.toList := by
  obtain ⟨more, -, hname⟩ := h.exists_names hplain hmem
  have hancestor : nestedAncestor? as = some path := by
    cases h with
    | sub | own => exact hpath
  obtain ⟨outer, -, ⟨between, rfl⟩, rfl⟩ := nestedAncestor?_eq_some hancestor
  have houter : ∀ n ∈ outer.map Ancestor.name, IsPlainName n := by
    intro n hn
    exact hplain.above n (by simp [List.mem_map.1 hn])
  refine ⟨trim_spelling houter, ?_⟩
  rw [hname, List.map_append, List.append_assoc]
  exact spelling_prefix _ _

theorem Defines.nestedPath_spec {path : String} (h : Defines as ps place f)
    (hplain : PlainBelow as ps) (hpath : f.nestedPath = some path) :
    Text.trim path = path ∧ path.toList <+: f.name.toList := by
  induction h with
  | here hprop hgives =>
    exact hgives.nestedPath_spec hplain (List.mem_of_getElem? hprop) hpath
  | inside hprop hinner _ ih =>
    exact ih (hplain.inside (List.mem_of_getElem? hprop) hinner) hpath

theorem Root.distinctNames {doc : Json} {i : Nat} (h : Root doc i ps) (hdoc : doc.DistinctNames) :
    Json.DistinctNames (.obj ps) := by
  cases h with
  | bare hps => exact hdoc.of_member? (properties?_eq_some.1 hps)
  | mappings _ hmapping hps =>
    exact (hdoc.of_member? hmapping).of_member? (properties?_eq_some.1 hps)
  | index _ _ hobj hindex hmapping hps =>
    subst hobj
    have hmember := hdoc.of_mem (List.mem_of_getElem? hindex)
    exact (hmember.of_member? hmapping).of_member? (properties?_eq_some.1 hps)

/-- The catalog of a mapping with one object of properties holds every field that these define. -/
theorem get?_ofMapping_iff {doc : Json} {c : Catalog} (h : ofMapping doc = .ok c)
    (hroots : roots doc = [ps]) (hdistinct : Json.DistinctNames (.obj ps))
    (hplain : PlainBelow [] ps) (key : String) :
    c.get? key = some f ↔ f.name = key ∧ ∃ place, Defines [] ps place f := by
  have hfields : InOrder (Defines [] ps) (propertyFields {} ps) := propertyFields_inOrder [] ps
  rw [get?_ofMapping h, hroots, List.flatMap_singleton]
  constructor
  · intro hfind
    have hmem := List.mem_of_find?_eq_some hfind
    have hname := List.find?_some hfind
    exact ⟨by simpa using hname, (hfields.exists_iff_mem f).2 hmem⟩
  · rintro ⟨rfl, place, hdefined⟩
    have hmem := (hfields.exists_iff_mem f).1 ⟨place, hdefined⟩
    have hsome : ((propertyFields {} ps).find? fun g => g.name = f.name).isSome = true :=
      List.find?_isSome.2 ⟨f, hmem, by simp⟩
    obtain ⟨g, hfind⟩ := Option.isSome_iff_exists.1 hsome
    obtain ⟨place', hdefined'⟩ :=
      (hfields.exists_iff_mem g).2 (List.mem_of_find?_eq_some hfind)
    have hname : g.name = f.name := by simpa using List.find?_some hfind
    rw [hfind, hdefined'.unique hdefined hdistinct hplain hname]

theorem coherent_ofMapping {doc : Json} {c : Catalog} (h : ofMapping doc = .ok c)
    (hroots : roots doc = [ps]) (hdoc : doc.DistinctNames)
    (hplain : ∀ name, Named ps name → IsPlainName name) : c.Coherent := by
  obtain ⟨i, hroot⟩ := mem_roots.1 (hroots ▸ List.mem_singleton_self ps)
  have hplain : PlainBelow [] ps := ⟨by simp, hplain⟩
  have hget {key : String} {f : Field} :
      c.get? key = some f ↔ f.name = key ∧ ∃ place, Defines [] ps place f :=
    get?_ofMapping_iff h hroots (hroot.distinctNames hdoc) hplain key
  constructor
  · intro name f key hf hkey
    obtain ⟨-, place, hdefined⟩ := hget.1 hf
    obtain ⟨place', g, hg, hname, htype, hnested⟩ := hdefined.exists_companion hkey
    exact ⟨g, hget.2 ⟨hname, place', hg⟩, htype, by rw [Field.nested?, hnested]; rfl⟩
  · intro name f path hf hpath
    obtain ⟨rfl, place, hdefined⟩ := hget.1 hf
    obtain ⟨given, hgiven, htrimmed⟩ := Option.bind_eq_some_iff.1 hpath
    obtain ⟨htrim, hstarts⟩ := hdefined.nestedPath_spec hplain hgiven
    obtain ⟨-, rfl⟩ := Text.trimmed?_eq_some htrimmed
    exact hasKeyPrefix_of_get? hf (htrim.symm ▸ hstarts)

/-- The catalog of a mapping that is read from a text is coherent. -/
theorem coherent_of_read? {text : String} {doc : Json} {c : Catalog}
    (hread : Json.read? .json text = some doc) (h : ofMapping doc = .ok c)
    (hroots : roots doc = [ps]) (hplain : ∀ name, Named ps name → IsPlainName name) : c.Coherent :=
  coherent_ofMapping h hroots (Json.distinctNames_of_read? hread) hplain

end Coherence

end Catalog

end SearchQuery
