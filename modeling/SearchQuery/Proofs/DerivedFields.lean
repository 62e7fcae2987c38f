import SearchQuery.Proofs.MappingCoherence

/-! # What holds of every derived field

Where several definitions have one name a mapping may send a field to a companion of another index,
but some things hold of every entry of its catalog. They hold of what a property gives, whatever
the other properties are, and the key of a companion is there even when another definition has
taken it. -/
namespace SearchQuery.Catalog

/-- A property at any depth below some ancestors, with all the ancestors of its own. -/
inductive PropertyBelow : List Ancestor → List (String × Json) →
    List Ancestor → String → List (String × Json) → Prop
  | here {as ps name parts} (hmem : (name, .obj parts) ∈ ps) : PropertyBelow as ps as name parts
  | inside {as ps name parts inner as' name' parts'} (hmem : (name, .obj parts) ∈ ps)
      (hinner : parts.lookup "properties" = some (.obj inner))
      (h : PropertyBelow (as ++ [⟨name, isNested parts⟩]) inner as' name' parts') :
      PropertyBelow as ps as' name' parts'

/-- A document has a property at this path with a sub-field of this name. -/
def HasSubField (doc : Json) (path sub : String) : Prop :=
  ∃ i ps as name parts, Root doc i ps ∧ PropertyBelow [] ps as name parts ∧
    chainPath as name = path ∧ sub ∈ (multiFields parts).map Prod.fst

/-- What holds of an entry of the catalog of a mapping document. -/
structure IsDerived (doc : Json) (c : Catalog) (key : String) (f : Field) : Prop where
  name_eq : f.name = key
  companion : ∀ k, f.keywordField = some k → c.contains k = true ∧
    ∃ sub, HasSubField doc f.name sub ∧ k = f.name ++ "." ++ sub
  nested : ∀ path, f.nestedPath = some path → path ≠ "" →
    c.hasKeyPrefix path = true ∧ ∃ rest, f.name = path ++ "." ++ rest
  searchable : f.searchable.isSome = true
  aggregatable : ∃ aggregatable, f.aggregatable = some aggregatable ∧
    (aggregatable = false ↔ f.type = .text ∨ f.type = .unknown)

variable {doc : Json} {c : Catalog} {as : List Ancestor} {ps parts : List (String × Json)}
  {name key path : String} {place : List Nat} {j : Nat} {f : Field}

theorem isAggregatable_eq_false_iff (t : FieldType) :
    t.isAggregatable = false ↔ t = .text ∨ t = .unknown := by
  cases t <;> decide

theorem Gives.companion_eq (h : Gives as name parts j f) (hkey : f.keywordField = some key) :
    ∃ sub ∈ (multiFields parts).map Prod.fst,
      f.name = chainPath as name ∧ key = f.name ++ "." ++ sub := by
  cases h with
  | sub => cases hkey
  | own =>
    obtain ⟨m, hfind, rfl⟩ := Option.map_eq_some_iff.1 hkey
    exact ⟨m.1, List.mem_map_of_mem (List.mem_of_find?_eq_some hfind), rfl, rfl⟩

theorem Gives.name_eq (h : Gives as name parts j f) :
    ∃ more, f.name = chainPath as name ++ more := by
  cases h with
  | @sub type i subName => exact ⟨"." ++ subName, String.append_assoc ..⟩
  | own => exact ⟨"", String.append_empty.symm⟩

/-- The name of a field is in the nested object of the field, unless this has an empty path. -/
theorem Gives.name_of_nestedPath (h : Gives as name parts j f) (hpath : f.nestedPath = some path)
    (hne : path ≠ "") : ∃ rest, f.name = path ++ "." ++ rest := by
  have hancestor : nestedAncestor? as = some path := by
    cases h with
    | sub | own => exact hpath
  obtain ⟨outer, -, ⟨between, rfl⟩, rfl⟩ := nestedAncestor?_eq_some hancestor
  have hbelow : between.map Ancestor.name ++ [name] ≠ [] := by simp
  obtain ⟨rest, hrest⟩ := spelling_append hne hbelow
  obtain ⟨more, hmore⟩ := h.name_eq
  refine ⟨rest ++ more, ?_⟩
  rw [hmore, chainPath, List.map_append, List.append_assoc, hrest, String.append_assoc]

theorem Gives.flags (h : Gives as name parts j f) : f.searchable.isSome = true ∧
    f.aggregatable = some f.type.isAggregatable := by
  cases h with
  | sub | own => exact ⟨rfl, rfl⟩

/-- Every field is given by a property. -/
theorem Defines.exists_gives (h : Defines as ps place f) :
    ∃ as' name parts j, PropertyBelow as ps as' name parts ∧ Gives as' name parts j f := by
  induction h with
  | here hprop hgives => exact ⟨_, _, _, _, .here (List.mem_of_getElem? hprop), hgives⟩
  | inside hprop hinner _ ih =>
    obtain ⟨as', name', parts', j, hbelow, hgives⟩ := ih
    exact ⟨as', name', parts', j, .inside (List.mem_of_getElem? hprop) hinner hbelow, hgives⟩

theorem DefinedAt.exists_gives (h : DefinedAt doc place f) : ∃ i ps as name parts j,
    Root doc i ps ∧ PropertyBelow [] ps as name parts ∧ Gives as name parts j f := by
  obtain ⟨hroot, hdefines⟩ := h
  obtain ⟨as, name, parts, j, hbelow, hgives⟩ := hdefines.exists_gives
  exact ⟨_, _, as, name, parts, j, hroot, hbelow, hgives⟩

theorem DefinedAt.contains_companion (h : DefinedAt doc place f) (hc : ofMapping doc = .ok c)
    (hkey : f.keywordField = some key) : c.contains key = true := by
  obtain ⟨hroot, hdefines⟩ := h
  obtain ⟨place', g, hg, rfl, -⟩ := hdefines.exists_companion hkey
  exact contains_of_definedAt hc (.mk hroot hg)

/-- Every entry of the catalog of a mapping is under its name. Its companion is a sub-field whose
key is in the catalog, its nested path is in front of its name, and its flags are there. All names
of the fields that the mapping defines are keys. -/
theorem isDerived_of_mem_ofMapping (h : ofMapping doc = .ok c) :
    (∀ e ∈ c.entries, IsDerived doc c e.1 e.2) ∧
      ∀ place f, DefinedAt doc place f → c.contains f.name = true := by
  refine ⟨?_, fun place f hf => contains_of_definedAt h hf⟩
  rintro ⟨key, f⟩ hmem
  have hget : c.get? key = some f := get?_eq_some_iff_mem.2 hmem
  obtain ⟨hname, place, hdefined⟩ := exists_definedAt_of_get? h hget
  obtain ⟨i, ps, as, name, parts, j, hroot, hbelow, hgives⟩ := hdefined.exists_gives
  obtain ⟨hsearchable, haggregatable⟩ := hgives.flags
  -- the companion need not be the entry under its key, but some definition has that name
  refine ⟨hname, fun k hkey => ⟨hdefined.contains_companion h hkey, ?_⟩, fun path hpath hne => ?_,
    hsearchable, _, haggregatable, isAggregatable_eq_false_iff _⟩
  · obtain ⟨sub, hsub, hspelled, rfl⟩ := hgives.companion_eq hkey
    exact ⟨sub, ⟨i, ps, as, name, parts, hroot, hbelow, hspelled.symm, hsub⟩, rfl⟩
  · obtain ⟨rest, hrest⟩ := hgives.name_of_nestedPath hpath hne
    refine ⟨hasKeyPrefix_of_get? hget ?_, rest, hrest⟩
    rw [← hname, hrest, String.append_assoc, String.toList_append]
    exact List.prefix_append _ _

/-- Two indices. A field of the first one has the name of a sub-field in the second one, where also
a nested object has an empty name. -/
def takenCompanion : Json :=
  let sku := Json.obj [("type", .str "text"),
    ("fields", .keyed "raw" (.keyed "type" (.str "keyword")))]
  let nested (inner : List (String × Json)) :=
    Json.obj [("type", .str "nested"), ("properties", .obj inner)]
  let index (properties : List (String × Json)) :=
    Json.keyed "mappings" (.keyed "properties" (.obj properties))
  .obj [("first", index [("items.sku.raw", .keyed "type" (.str "long"))]),
    ("second", index [("items", nested [("sku", sku)]),
      ("", nested [("id", .keyed "type" (.str "ip"))])])]

/-- The companion is there, though it is a number of another index. -/
theorem takenCompanion_isDerived : ∃ c f g, ofMapping takenCompanion = .ok c ∧
    (("items.sku", f) ∈ c.entries ∧ f.keywordField = some "items.sku.raw" ∧
      f.nestedPath = some "items" ∧ IsDerived takenCompanion c "items.sku" f) ∧
    (c.get? "items.sku.raw").map Field.type = some .long ∧
    ("id", g) ∈ c.entries ∧ g.nestedPath = some "" ∧ IsDerived takenCompanion c "id" g := by
  obtain ⟨c, hc⟩ : ∃ c, ofMapping takenCompanion = .ok c := ⟨_, rfl⟩
  obtain ⟨hderived, -⟩ := isDerived_of_mem_ofMapping hc
  cases hc
  exact ⟨_, _, _, rfl,
    ⟨get?_eq_some_iff_mem.1 rfl, rfl, rfl, hderived ("items.sku", _) (get?_eq_some_iff_mem.1 rfl)⟩,
    rfl, get?_eq_some_iff_mem.1 rfl, rfl, hderived ("id", _) (get?_eq_some_iff_mem.1 rfl)⟩

end SearchQuery.Catalog
