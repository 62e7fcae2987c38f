import SearchQuery.Proofs.CatalogLookup
import SearchQuery.Proofs.Members
import SearchQuery.Proofs.Places
import SearchQuery.Proofs.Spelling

/-! # The fields that a mapping defines

Which fields the properties of a document define, and at which places of it, is said here by
relations on the document alone. The catalog of a mapping holds these fields, and where several
have one name, the one that is defined at the first place. -/
namespace SearchQuery.Catalog

/-- The names of the types of the keyword family. -/
def keywordNames : List String := ["keyword", "constant_keyword", "wildcard"]

/-- A property that is a field: it has no object of inner properties, and names a type that is no
object. -/
structure IsField (parts : List (String × Json)) (type : String) : Prop where
  no_properties : ∀ inner, parts.lookup "properties" ≠ some (.obj inner)
  type_eq : parts.lookup "type" = some (.str type)
  ne_nested : type ≠ "nested"
  ne_object : type ≠ "object"

/-- The members of the `fields` object of a property. -/
def multiFields (parts : List (String × Json)) : List (String × Json) :=
  ((parts.lookup "fields").bind Json.members?).getD []

def subType (sub : Json) : String := (typeName? sub).getD ""

def chainPath (as : List Ancestor) (name : String) : String :=
  spelling (as.map Ancestor.name ++ [name])

/-- What a property below some ancestors defines: the members of its `fields` object in their order,
and after them the field itself, which has the first of them that is of the keyword family as its
companion. -/
inductive Gives (as : List Ancestor) (name : String) (parts : List (String × Json)) :
    Nat → Field → Prop
  | sub {type i subName sub} (hfield : IsField parts type)
      (hsub : (multiFields parts)[i]? = some (subName, sub)) :
      Gives as name parts i
        { name := chainPath as name ++ "." ++ subName
          type := .ofName (subType sub)
          nestedPath := nestedAncestor? as
          searchable := some true
          aggregatable := some (FieldType.ofName (subType sub)).isAggregatable }
  | own {type} (hfield : IsField parts type) :
      Gives as name parts (multiFields parts).length
        { name := chainPath as name
          type := .ofName type
          keywordField := ((multiFields parts).find? fun m =>
            keywordNames.contains (subType m.2)).map fun m => chainPath as name ++ "." ++ m.1
          nestedPath := nestedAncestor? as
          searchable := some (((parts.lookup "index").bind Json.bool?).getD true)
          aggregatable := some (FieldType.ofName type).isAggregatable }

/-- Whether a property is of type nested. -/
def isNested (parts : List (String × Json)) : Bool :=
  (parts.lookup "type").bind Json.text? = some "nested"

/-- The fields that the properties below some ancestors define, each at its place. -/
inductive Defines : List Ancestor → List (String × Json) → List Nat → Field → Prop
  | here {as ps i name parts j f} (hprop : ps[i]? = some (name, .obj parts))
      (hgives : Gives as name parts j f) : Defines as ps [i, j] f
  | inside {as ps i name parts inner place f} (hprop : ps[i]? = some (name, .obj parts))
      (hinner : parts.lookup "properties" = some (.obj inner))
      (h : Defines (as ++ [⟨name, isNested parts⟩]) inner place f) : Defines as ps (i :: place) f

/-- The objects of properties in a document: its own, or that of its mappings, or those of the
mappings of each index in it. -/
inductive Root (doc : Json) : Nat → List (String × Json) → Prop
  | bare {ps} (hps : properties? doc = some ps) : Root doc 0 ps
  | mappings {mapping ps} (hbare : properties? doc = none)
      (hmapping : doc.member? "mappings" = some mapping) (hps : properties? mapping = some ps) :
      Root doc 0 ps
  | index {indices i name index mapping ps} (hbare : properties? doc = none)
      (hmappings : ∀ mapping, doc.member? "mappings" = some mapping → properties? mapping = none)
      (hdoc : doc = .obj indices) (hindex : indices[i]? = some (name, index))
      (hmapping : index.member? "mappings" = some mapping) (hps : properties? mapping = some ps) :
      Root doc i ps

/-- A field that a mapping document defines at a place. -/
inductive DefinedAt (doc : Json) : List Nat → Field → Prop
  | mk {i ps place f} (hroot : Root doc i ps) (h : Defines [] ps place f) :
      DefinedAt doc (i :: place) f

theorem properties?_eq_some {mapping : Json} {ps : List (String × Json)} :
    properties? mapping = some ps ↔ mapping.member? "properties" = some (.obj ps) := by
  simp [properties?, Option.bind_eq_some_iff, Json.members?_eq_some]

section Fields

theorem ofName_eq_keyword_iff (name : String) :
    FieldType.ofName name = .keyword ↔ name ∈ keywordNames := by
  constructor
  · intro h
    unfold FieldType.ofName at h
    split_ifs at h with htext hfamily
    · rcases hfamily with rfl | rfl <;> decide
    · cases hfind : FieldType.known.find? fun t => t.name = name with
      | none => simp [hfind] at h
      | some t =>
        obtain rfl : t = .keyword := by simpa [hfind] using h
        have hname := List.find?_some hfind
        obtain rfl : FieldType.keyword.name = name := by simpa using hname
        decide
  · intro h
    simp only [keywordNames, List.mem_cons, List.not_mem_nil, or_false] at h
    rcases h with rfl | rfl | rfl <;> decide

theorem subFields_eq_map (path : String) (nested : Option String) (parts : List (String × Json)) :
    subFields path nested parts = (multiFields parts).map fun m =>
      { name := path ++ "." ++ m.1
        type := .ofName (subType m.2)
        nestedPath := nested
        searchable := some true
        aggregatable := some (FieldType.ofName (subType m.2)).isAggregatable } := rfl

theorem leafFields_of_isField {parts : List (String × Json)} {type : String}
    (h : IsField parts type) (path : String) (nested : Option String) :
    leafFields path nested parts = subFields path nested parts ++ [{
      name := path
      type := .ofName type
      keywordField := ((multiFields parts).find? fun m =>
        keywordNames.contains (subType m.2)).map fun m => path ++ "." ++ m.1
      nestedPath := nested
      searchable := some (((parts.lookup "index").bind Json.bool?).getD true)
      aggregatable := some (FieldType.ofName type).isAggregatable }] := by
  have hcompanion :
      ((subFields path nested parts).find? fun f => f.type = .keyword).map Field.name =
        ((multiFields parts).find? fun m => keywordNames.contains (subType m.2)).map fun m =>
          path ++ "." ++ m.1 := by
    rw [subFields_eq_map, List.find?_map, Option.map_map]
    simp only [Function.comp_def, ofName_eq_keyword_iff, List.contains_eq_mem]
  rw [leafFields, h.type_eq]
  simp [Json.text?, h.ne_nested, h.ne_object, hcompanion]

theorem leafFields_of_not_isField {parts : List (String × Json)}
    (hno : ∀ inner, parts.lookup "properties" ≠ some (.obj inner))
    (h : ¬ ∃ type, IsField parts type) (path : String) (nested : Option String) :
    leafFields path nested parts = [] := by
  unfold leafFields
  split
  · rfl
  · rename_i type htype
    obtain ⟨value, hvalue, htext⟩ := Option.bind_eq_some_iff.1 htype
    obtain rfl := Json.text?_eq_some.1 htext
    split
    · rfl
    · rename_i hobject
      obtain ⟨hnested, hobject⟩ := not_or.1 hobject
      exact absurd ⟨type, hno, hvalue, hnested, hobject⟩ h

/-- What a property without inner properties gives is listed in this order. -/
theorem getElem?_leafFields_iff {as : List Ancestor} {name : String} {parts : List (String × Json)}
    (hno : ∀ inner, parts.lookup "properties" ≠ some (.obj inner)) {j : Nat} {f : Field} :
    (leafFields (chainPath as name) (nestedAncestor? as) parts)[j]? = some f ↔
      Gives as name parts j f := by
  constructor
  · intro h
    by_cases hfield : ∃ type, IsField parts type
    · obtain ⟨type, hfield⟩ := hfield
      rw [leafFields_of_isField hfield, subFields_eq_map, List.getElem?_append] at h
      split at h
      · rw [List.getElem?_map, Option.map_eq_some_iff] at h
        obtain ⟨m, hm, rfl⟩ := h
        exact .sub hfield hm
      · rename_i hlen
        rw [List.length_map] at h hlen
        rw [List.getElem?_singleton] at h
        split at h
        · obtain rfl : j = (multiFields parts).length := by omega
          obtain rfl := Option.some.inj h
          exact .own hfield
        · cases h
    · rw [leafFields_of_not_isField hno hfield] at h
      cases h
  · intro h
    cases h with
    | sub hfield hsub =>
      rw [leafFields_of_isField hfield, subFields_eq_map]
      have hj := (List.getElem?_eq_some_iff.1 hsub).1
      rw [List.getElem?_append_left (by simpa using hj), List.getElem?_map, hsub]
      rfl
    | own hfield =>
      rw [leafFields_of_isField hfield, subFields_eq_map]
      simp

end Fields

theorem propertyFields_eq_flatMap (s : Scope) (ps : List (String × Json)) :
    propertyFields s ps = ps.flatMap fun p => fieldsOf s p.1 p.2 := by
  induction ps with
  | nil => rw [propertyFields]; rfl
  | cons p ps ih => rw [propertyFields, ih, List.flatMap_cons]

theorem innerFields_eq (s : Scope) (parts : List (String × Json)) : innerFields s parts =
    ((parts.lookup "properties").bind Json.members?).map (propertyFields s) := by
  induction parts with
  | nil => rw [innerFields]; rfl
  | cons part parts ih =>
    obtain ⟨key, value⟩ := part
    by_cases hkey : key = "properties"
    · subst hkey
      cases value <;> simp [innerFields, Json.members?]
    · have hlookup : List.lookup "properties" ((key, value) :: parts) =
          parts.lookup "properties" := by
        simp [List.lookup_cons, beq_false_of_ne (Ne.symm hkey)]
      rw [hlookup, ← ih]
      cases value <;> simp [innerFields, hkey]

theorem fieldsOf_obj (s : Scope) (name : String) (parts : List (String × Json)) :
    fieldsOf s name (.obj parts) =
      match (parts.lookup "properties").bind Json.members? with
      | some inner => propertyFields (s.enter name parts) inner
      | none => leafFields (s.join name) s.nested parts := by
  rw [fieldsOf, innerFields_eq]
  cases (parts.lookup "properties").bind Json.members? <;> rfl

/-- What one property defines below some ancestors. -/
def DefinedBy (as : List Ancestor) (p : String × Json) (place : List Nat) (f : Field) : Prop :=
  ∃ parts, p.2 = .obj parts ∧
    ((∃ j, place = [j] ∧ Gives as p.1 parts j f) ∨
      ∃ inner, parts.lookup "properties" = some (.obj inner) ∧
        Defines (as ++ [⟨p.1, isNested parts⟩]) inner place f)

theorem defines_iff {as : List Ancestor} {ps : List (String × Json)} {place : List Nat}
    {f : Field} : Defines as ps place f ↔
      ∃ i p rest, ps[i]? = some p ∧ place = i :: rest ∧ DefinedBy as p rest f := by
  constructor
  · intro h
    cases h with
    | here hprop hgives =>
      exact ⟨_, _, _, hprop, rfl, _, rfl, .inl ⟨_, rfl, hgives⟩⟩
    | inside hprop hinner h =>
      exact ⟨_, _, _, hprop, rfl, _, rfl, .inr ⟨_, hinner, h⟩⟩
  · rintro ⟨i, ⟨name, property⟩, rest, hprop, rfl, parts, rfl, ⟨j, rfl, hgives⟩ |
      ⟨inner, hinner, h⟩⟩
    · exact .here hprop hgives
    · exact .inside hprop hinner h

theorem Gives.no_properties {as : List Ancestor} {name : String} {parts : List (String × Json)}
    {j : Nat} {f : Field} (h : Gives as name parts j f) (inner : List (String × Json)) :
    parts.lookup "properties" ≠ some (.obj inner) := by
  cases h with
  | sub hfield | own hfield => exact hfield.no_properties inner

/-- The fields of some properties are those that they define, in the order of the places. -/
theorem propertyFields_inOrder (as : List Ancestor) (ps : List (String × Json)) :
    InOrder (Defines as ps) (propertyFields (scopeOf as) ps) := by
  -- the inner properties are found by a look-up, so the induction is on the size
  induction hsize : sizeOf ps using Nat.strongRecOn generalizing as ps with
  | _ size ih =>
    rw [propertyFields_eq_flatMap]
    refine (InOrder.flatMap (S := DefinedBy as) ps fun p hp => ?_).congr fun place f =>
      defines_iff.symm
    obtain ⟨name, property⟩ := p
    cases property with
    | obj parts =>
      rw [fieldsOf_obj]
      cases hinner : (parts.lookup "properties").bind Json.members? with
      | some inner =>
        obtain ⟨value, hlookup, hvalue⟩ := Option.bind_eq_some_iff.1 hinner
        obtain rfl := Json.members?_eq_some.1 hvalue
        have hsmaller : sizeOf inner < size := hsize ▸ Json.sizeOf_inner_lt hp hlookup
        rw [enter_scopeOf]
        refine (ih _ hsmaller _ inner rfl).congr fun place f => ?_
        constructor
        · intro h
          exact ⟨parts, rfl, .inr ⟨inner, hlookup, h⟩⟩
        · rintro ⟨_, ⟨rfl⟩, ⟨j, -, hgives⟩ | ⟨inner', hinner', h⟩⟩
          · exact absurd hlookup (hgives.no_properties inner)
          · obtain rfl := Json.obj.inj (Option.some.inj (hlookup.symm.trans hinner'))
            exact h
      | none =>
        have hno (inner : List (String × Json)) :
            parts.lookup "properties" ≠ some (.obj inner) := by
          intro h
          simp [h, Json.members?] at hinner
        rw [join_scopeOf]
        refine (InOrder.indices _).congr fun place f => ?_
        constructor
        · rintro ⟨j, rfl, h⟩
          exact ⟨parts, rfl, .inl ⟨j, rfl, (getElem?_leafFields_iff hno).1 h⟩⟩
        · rintro ⟨_, ⟨rfl⟩, ⟨j, rfl, hgives⟩ | ⟨inner, hinner', -⟩⟩
          · exact ⟨j, rfl, (getElem?_leafFields_iff hno).2 hgives⟩
          · exact absurd hinner' (hno inner)
    | _ =>
      refine (InOrder.indices []).congr fun place f => ?_
      simp [DefinedBy]

/-- The objects of properties are found at these places of a document, some of which may have
none. -/
theorem exists_slots (doc : Json) : ∃ slots : List (Option (List (String × Json))),
    roots doc = slots.filterMap id ∧ ∀ i ps, slots[i]? = some (some ps) ↔ Root doc i ps := by
  unfold roots
  cases hbare : properties? doc with
  | some ps =>
    refine ⟨[some ps], rfl, fun i ps' => ?_⟩
    constructor
    · intro h
      obtain ⟨rfl, rfl⟩ : i = 0 ∧ ps = ps' := by simpa [List.getElem?_singleton] using h
      exact .bare hbare
    · intro h
      cases h with
      | bare hps => simp [← hbare, hps]
      | mappings hnone | index hnone => simp [hbare] at hnone
  | none =>
    cases hmappings : (doc.member? "mappings").bind properties? with
    | some ps =>
      obtain ⟨mapping, hmapping, hps⟩ := Option.bind_eq_some_iff.1 hmappings
      refine ⟨[some ps], rfl, fun i ps' => ?_⟩
      constructor
      · intro h
        obtain ⟨rfl, rfl⟩ : i = 0 ∧ ps = ps' := by simpa [List.getElem?_singleton] using h
        exact .mappings hbare hmapping hps
      · intro h
        cases h with
        | bare hps' => simp [hbare] at hps'
        | mappings _ hmapping' hps' => simp [← hmappings, hmapping', hps']
        | index _ hnone => simp [hnone mapping hmapping] at hps
    | none =>
      refine ⟨(doc.members?.getD []).map fun index =>
        (index.2.member? "mappings").bind properties?, ?_, fun i ps => ?_⟩
      · rw [List.filterMap_map]
        rfl
      · constructor
        · intro h
          rw [List.getElem?_map, Option.map_eq_some_iff] at h
          obtain ⟨⟨name, index⟩, hindex, hfound⟩ := h
          obtain ⟨mapping, hmapping, hps⟩ := Option.bind_eq_some_iff.1 hfound
          cases hmembers : doc.members? with
          | none => simp [hmembers] at hindex
          | some indices =>
            rw [hmembers] at hindex
            exact .index hbare (fun m hm => by simpa [hm] using hmappings)
              (Json.members?_eq_some.1 hmembers) hindex hmapping hps
        · intro h
          cases h with
          | bare hps => simp [hbare] at hps
          | mappings _ hmapping hps => simp [hmapping, hps] at hmappings
          | index _ _ hdoc hindex hmapping hps =>
            subst hdoc
            simp [Json.members?, hindex, hmapping, hps]

theorem flatMap_filterMap_id {α β : Type} (g : α → List β) (slots : List (Option α)) :
    (slots.filterMap id).flatMap g = slots.flatMap fun slot => (slot.map g).getD [] := by
  induction slots with
  | nil => rfl
  | cons slot slots ih =>
    rw [List.flatMap_cons, ← ih]
    cases slot <;> rfl

/-- The fields of a document are those that it defines, in the order of the places. -/
theorem rootFields_inOrder (doc : Json) :
    InOrder (DefinedAt doc) ((roots doc).flatMap (propertyFields {})) := by
  obtain ⟨slots, hroots, hslots⟩ := exists_slots doc
  rw [hroots, flatMap_filterMap_id]
  refine (InOrder.flatMap (S := fun slot place f => ∃ ps, slot = some ps ∧ Defines [] ps place f)
    slots fun slot _ => ?_).congr fun place f => ?_
  · cases slot with
    | none => exact (InOrder.indices []).congr (by simp)
    | some ps => exact (propertyFields_inOrder [] ps).congr (by simp)
  · constructor
    · rintro ⟨i, _, rest, hslot, rfl, ps, rfl, h⟩
      exact .mk ((hslots i ps).1 hslot) h
    · rintro ⟨hroot, h⟩
      exact ⟨_, _, _, (hslots _ _).2 hroot, rfl, _, rfl, h⟩

theorem ofMapping_eq_ok_iff {doc : Json} {c : Catalog} : ofMapping doc = .ok c ↔
    roots doc ≠ [] ∧ c = ((roots doc).flatMap (propertyFields {})).foldl insertNew empty := by
  unfold ofMapping
  cases roots doc with
  | nil => simp
  | cons ps rest => simp [eq_comm]

theorem mem_roots {doc : Json} {ps : List (String × Json)} :
    ps ∈ roots doc ↔ ∃ i, Root doc i ps := by
  obtain ⟨slots, hroots, hslots⟩ := exists_slots doc
  have hmem : ps ∈ slots.filterMap id ↔ some ps ∈ slots := by simp
  simp only [hroots, hmem, ← hslots, List.mem_iff_getElem?]

/-- A mapping has a catalog when it has properties somewhere. -/
theorem exists_ofMapping_iff (doc : Json) :
    (∃ c, ofMapping doc = .ok c) ↔ ∃ i ps, Root doc i ps := by
  have hsome : roots doc ≠ [] ↔ ∃ ps, ps ∈ roots doc := by
    cases roots doc <;> simp
  simp only [ofMapping_eq_ok_iff, exists_and_left, exists_eq, and_true, hsome, mem_roots]
  exact exists_comm

theorem get?_ofMapping {doc : Json} {c : Catalog} (h : ofMapping doc = .ok c) (k : String) :
    c.get? k = ((roots doc).flatMap (propertyFields {})).find? fun f => f.name = k := by
  obtain ⟨-, rfl⟩ := ofMapping_eq_ok_iff.1 h
  rw [get?_foldl_insertNew, get?_empty, Option.none_or]

/-- A catalog of a mapping has under each name a field of this name that the mapping defines. -/
theorem exists_definedAt_of_get? {doc : Json} {c : Catalog} (h : ofMapping doc = .ok c)
    {k : String} {f : Field} (hget : c.get? k = some f) :
    f.name = k ∧ ∃ place, DefinedAt doc place f := by
  rw [get?_ofMapping h] at hget
  have hname := List.find?_some hget
  exact ⟨by simpa using hname,
    ((rootFields_inOrder doc).exists_iff_mem f).2 (List.mem_of_find?_eq_some hget)⟩

theorem contains_of_definedAt {doc : Json} {c : Catalog} (h : ofMapping doc = .ok c)
    {place : List Nat} {f : Field} (hf : DefinedAt doc place f) : c.contains f.name = true := by
  rw [contains, get?_ofMapping h, List.find?_isSome]
  exact ⟨f, ((rootFields_inOrder doc).exists_iff_mem f).1 ⟨place, hf⟩, by simp⟩

/-- The catalog of a mapping has the names of the fields that the mapping defines. Under each name
it holds the field that is defined at the first place that defines one of that name. -/
theorem ofMapping_first_defined {doc : Json} {c : Catalog} (h : ofMapping doc = .ok c) :
    (∀ name, c.contains name = true ↔ ∃ place f, DefinedAt doc place f ∧ f.name = name) ∧
      ∀ name f, c.get? name = some f ↔ f.name = name ∧ ∃ place, DefinedAt doc place f ∧
        ∀ place' f', DefinedAt doc place' f' → f'.name = name → place ≤ place' := by
  have hfields := rootFields_inOrder doc
  constructor
  · intro name
    rw [contains, get?_ofMapping h, List.find?_isSome]
    constructor
    · rintro ⟨f, hmem, hname⟩
      obtain ⟨place, hdefined⟩ := (hfields.exists_iff_mem f).2 hmem
      exact ⟨place, f, hdefined, by simpa using hname⟩
    · rintro ⟨place, f, hdefined, hname⟩
      exact ⟨f, (hfields.exists_iff_mem f).1 ⟨place, hdefined⟩, by simpa using hname⟩
  · intro name f
    rw [get?_ofMapping h, hfields.find?_eq_some_iff]
    simp only [decide_eq_true_eq, not_lt]

/-- Two indices, in which a sub-field, a property with dots in its name and a property of the second
index have one name. -/
def shopIndices : Json :=
  let sku := Json.obj [("type", .str "text"),
    ("fields", .obj [("stem", .obj [("type", .str "text")]),
      ("raw", .obj [("type", .str "wildcard")])])]
  let items := Json.obj [("type", .str "nested"),
    ("properties", .obj [("meta", .obj [("properties", .obj [("sku", sku)])])])]
  let dotted := Json.keyed "type" (.str "long")
  let index (properties : List (String × Json)) :=
    Json.keyed "mappings" (.keyed "properties" (.obj properties))
  .obj [("first", index [("items", items), ("items.meta.sku.raw", dotted)]),
    ("second", index [("items.meta.sku.raw", dotted), ("", .keyed "type" (.str "date"))])]

theorem shopIndices_first_defined : ∃ c, ofMapping shopIndices = .ok c ∧
    c.entries.map Prod.fst = ["", "items.meta.sku", "items.meta.sku.raw", "items.meta.sku.stem"] ∧
    ∃ f, (f.type = .keyword ∧ f.nestedPath = some "items") ∧
      c.get? "items.meta.sku.raw" = some f ∧ f.name = "items.meta.sku.raw" ∧
      ∃ place, DefinedAt shopIndices place f ∧
        ∀ place' f', DefinedAt shopIndices place' f' → f'.name = "items.meta.sku.raw" →
          place ≤ place' :=
  ⟨_, rfl, by decide, _, ⟨rfl, rfl⟩, rfl, ((ofMapping_first_defined rfl).2 _ _).1 rfl⟩

end SearchQuery.Catalog
