import SearchQuery.Proofs.CatalogRoundTrip
import SearchQuery.Proofs.MappingFields
import SearchQuery.Proofs.Survival

/-! # Leaves that name a field

A leaf queries the field of its condition or timeframe, which is not blank, or the companion that
the catalog gives for that field. A companion is used as it stands in the catalog, so a blank one
makes a leaf without a field. In the catalog of a mapping no companion is blank. -/
namespace SearchQuery

/-- A query names a field that is not blank. -/
def Query.NamesField (q : Query) : Prop := ∃ field, q.field? = some field ∧ Text.trim field ≠ ""

/-- Whether an operator goes to the companion of a field of some type. -/
def Operator.goesToCompanion (o : Operator) (type : FieldType) : Bool :=
  match o with
  | equals | exact | notExact => type = .keyword ∨ type = .text
  | .in => type ≠ .keyword
  | neq => true
  | _ => false

/-- The catalog has a blank companion for the field of a condition, and the operator goes there. -/
def Condition.QueriesBlank (c : Condition) (catalog : Option Catalog) : Prop :=
  ∃ info key, c.info? catalog = some info ∧ info.keywordField = some key ∧
    c.operator.goesToCompanion info.type = true ∧ Text.trim key = ""

theorem Operator.queriedField_eq (o : Operator) (field : String) (info : Field) :
    o.queriedField field (some info) =
      if o.goesToCompanion info.type = true then info.keywordField.getD field else field := by
  cases o <;> simp [queriedField, goesToCompanion]

namespace Condition

variable {c : Condition} {catalog : Option Catalog} {l : Leaf}

/-- The field that a condition queries is blank only as the companion of its own. -/
theorem trim_queriedField_eq_empty_iff (hfield : Text.trim c.field ≠ "") :
    Text.trim (c.operator.queriedField (Text.trim c.field) (c.info? catalog)) = "" ↔
      c.QueriesBlank catalog := by
  have hown : Text.trim (Text.trim c.field) ≠ "" := by rwa [Text.trim_trim]
  unfold QueriesBlank
  cases c.info? catalog with
  | none =>
    have hqueried : c.operator.queriedField (Text.trim c.field) none = Text.trim c.field := by
      simpa using c.operator.queriedField_eq_or (Text.trim c.field) none
    simp [hqueried, hown]
  | some info =>
    rw [Operator.queriedField_eq]
    cases hkey : info.keywordField with
    | none => simp [hown, hkey]
    | some key =>
      cases hgoes : c.operator.goesToCompanion info.type <;> simp [hown, hkey, hgoes]

theorem namesField_leaf_iff (h : c.leaf? catalog = some l) :
    l.query.NamesField ↔ ¬ c.QueriesBlank catalog := by
  rw [← trim_queriedField_eq_empty_iff (Survives.of_leaf? h).field, Query.NamesField,
    leaf?_field h]
  simp

end Condition

theorem Timeframe.namesField_query? {t : Timeframe} {q : Query} (h : t.query? = some q) :
    q.NamesField := by
  obtain ⟨-, -, hfield, -⟩ := query?_eq_some h
  refine ⟨_, hfield, ?_⟩
  obtain ⟨field, htrimmed, -⟩ := Option.map_eq_some_iff.1 h
  obtain ⟨hblank, -⟩ := Text.trimmed?_eq_some htrimmed
  rw [ne_eq, Text.trim_eq_empty_iff, Text.isBlank_trim, hblank]
  exact Bool.false_ne_true

namespace Catalog

/-- The companion of a field of a mapping has a dot in its name. -/
theorem Gives.trim_companion_ne_empty {as : List Ancestor} {name : String}
    {parts : List (String × Json)} {j : Nat} {f : Field} {key : String}
    (h : Gives as name parts j f) (hkey : f.keywordField = some key) : Text.trim key ≠ "" := by
  cases h with
  | sub => cases hkey
  | own =>
    obtain ⟨m, -, rfl⟩ := Option.map_eq_some_iff.1 hkey
    rw [ne_eq, Text.trim_eq_empty_iff, Text.isBlank, List.all_eq_true]
    intro hblank
    have hdot := hblank '.' (by simp)
    revert hdot
    decide

theorem Defines.trim_companion_ne_empty {as : List Ancestor} {ps : List (String × Json)}
    {place : List Nat} {f : Field} {key : String} (h : Defines as ps place f)
    (hkey : f.keywordField = some key) : Text.trim key ≠ "" := by
  induction h with
  | here _ hgives => exact hgives.trim_companion_ne_empty hkey
  | inside _ _ _ ih => exact ih hkey

theorem trim_companion_ofMapping_ne_empty {doc : Json} {cat : Catalog} {name key : String}
    {f : Field} (h : ofMapping doc = .ok cat) (hget : cat.get? name = some f)
    (hkey : f.keywordField = some key) : Text.trim key ≠ "" := by
  obtain ⟨-, _, ⟨_, hdefines⟩⟩ := exists_definedAt_of_get? h hget
  exact hdefines.trim_companion_ne_empty hkey

end Catalog

namespace FilterForm

/-- Every leaf of a request names a field when those of the conditions do. -/
theorem namesField_compile_iff (f : FilterForm) (catalog : Option Catalog) :
    (∀ o ∈ (f.compile catalog).query.occurrences, o.query.NamesField) ↔
      ∀ l ∈ f.leaves catalog, l.query.NamesField := by
  have hqueries := f.queries_compile_perm catalog
  constructor
  · intro h l hl
    obtain ⟨o, ho, hq⟩ := List.mem_map.1
      (hqueries.mem_iff.2 (List.mem_append_left _ (List.mem_map_of_mem hl)))
    exact hq ▸ h o ho
  · intro h o ho
    rcases List.mem_append.1 (hqueries.mem_iff.1 (List.mem_map_of_mem ho)) with hleaf | hrange
    · obtain ⟨l, hl, hq⟩ := List.mem_map.1 hleaf
      exact hq ▸ h l hl
    · obtain ⟨t, -, ht⟩ := Option.bind_eq_some_iff.1 (Option.mem_toList.1 hrange)
      exact Timeframe.namesField_query? ht

theorem namesField_leaves_iff (f : FilterForm) (catalog : Option Catalog) :
    (∀ l ∈ f.leaves catalog, l.query.NamesField) ↔
      ∀ c ∈ f.conditions, c.Survives → ¬ c.QueriesBlank catalog := by
  constructor
  · intro h c hc hsurvives
    obtain ⟨l, hl⟩ := hsurvives.exists_leaf catalog
    exact (Condition.namesField_leaf_iff hl).1 (h l (mem_leaves.2 ⟨c, hc, hl⟩))
  · intro h l hmem
    obtain ⟨c, hc, hl⟩ := mem_leaves.1 hmem
    exact (Condition.namesField_leaf_iff hl).2 (h c hc (.of_leaf? hl))

/-- Every leaf of a request names a field iff no condition with a leaf queries a blank companion.
Without a catalog, or with that of a mapping, none does. -/
theorem compile_named_fields (f : FilterForm) (catalog : Option Catalog) :
    ((∀ o ∈ (f.compile catalog).query.occurrences, o.query.NamesField) ↔
      ∀ c ∈ f.conditions, c.Survives → ¬ c.QueriesBlank catalog) ∧
    ((∀ cat, catalog = some cat → ∃ doc, Catalog.ofMapping doc = .ok cat) →
      ∀ o ∈ (f.compile catalog).query.occurrences, o.query.NamesField) := by
  have hiff := (f.namesField_compile_iff catalog).trans (f.namesField_leaves_iff catalog)
  refine ⟨hiff, fun hmapping => hiff.2 ?_⟩
  rintro c - - ⟨info, key, hinfo, hkey, -, hblank⟩
  obtain ⟨cat, hcat, hget⟩ := Option.bind_eq_some_iff.1 hinfo
  obtain ⟨doc, hdoc⟩ := hmapping cat hcat
  exact Catalog.trim_companion_ofMapping_ne_empty hdoc hget hkey hblank

/-- An article by its number. -/
def skuCondition : Condition := { field := "sku", operator := .equals, value := some (.str "x") }

def skuForm : FilterForm where
  conditions := [skuCondition]

/-- A catalog with a companion that is blank. -/
def blankCompanion : Catalog :=
  .ofFields [{ name := "sku", type := .keyword, keywordField := some " " }]

/-- The catalog is read from its own text, and sends the test to a field without a name. -/
theorem skuForm_blankCompanion :
    Catalog.ofJsonText blankCompanion.text = .ok blankCompanion ∧
      ∃ o ∈ (skuForm.compile (some blankCompanion)).query.occurrences,
        o.query = .term " " (.str "x") ∧ ¬ o.query.NamesField := by
  have hplace : (skuForm.compile (some blankCompanion)).query.occurrences =
      [⟨[.filter], [], .term " " (.str "x")⟩] := by rfl
  have hspace : Text.trim " " = "" := by decide
  refine ⟨(Catalog.allNamed_ofFields _).ofJsonText_text, _,
    hplace ▸ List.mem_singleton_self _, rfl, ?_⟩
  simp [Query.NamesField, Query.field?, hspace]

/-- Articles with a number that is also kept as one word. -/
def skuMapping : Json :=
  .keyed "properties" (.keyed "sku" (.obj [("type", .str "text"),
    ("fields", .keyed "raw" (.keyed "type" (.str "keyword")))]))

/-- The test names the companion that the mapping gives, and no field with the blank one. -/
theorem skuForm_named_fields :
    (∃ cat, Catalog.ofMapping skuMapping = .ok cat ∧
      (skuForm.compile (some cat)).query.occurrences.map Occurrence.query =
        [.term "sku.raw" (.str "x")] ∧
      ∀ o ∈ (skuForm.compile (some cat)).query.occurrences, o.query.NamesField) ∧
    (skuCondition.Survives ∧ skuCondition.QueriesBlank (some blankCompanion)) ∧
    ¬ ∀ o ∈ (skuForm.compile (some blankCompanion)).query.occurrences, o.query.NamesField := by
  have hsurvives : skuCondition.Survives :=
    ⟨by decide, by decide, .inr (.inr ⟨_, rfl, (Json.isFilled_iff _).2 rfl⟩), nofun⟩
  have hblank : skuCondition.QueriesBlank (some blankCompanion) :=
    ⟨_, " ", rfl, rfl, rfl, by decide⟩
  obtain ⟨cat, hcat⟩ : ∃ cat, Catalog.ofMapping skuMapping = .ok cat := ⟨_, rfl⟩
  refine ⟨⟨cat, hcat, ?_, ?_⟩, ⟨hsurvives, hblank⟩, fun hnamed => ?_⟩
  · cases hcat
    rfl
  · refine (compile_named_fields _ _).2 fun cat' hcat' => ?_
    exact ⟨skuMapping, Option.some.inj hcat' ▸ hcat⟩
  · exact (compile_named_fields _ _).1.1 hnamed _ List.mem_cons_self hsurvives hblank

end FilterForm
end SearchQuery
