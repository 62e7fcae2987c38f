import SearchQuery.Proofs.CatalogLookup
import SearchQuery.Proofs.Placement

/-! # What a form reads of a catalog

A condition reads the catalog at its own field alone, and of the entry there no more than a view:
whether its type is one of the two families, the companion, and the nested path. A field that is
missing, or a missing catalog, has the view of a field of some other type with neither. Forms do not
tell apart catalogs that agree in these views. -/
namespace SearchQuery

/-- The types that a condition tells apart. -/
inductive FieldType.Family
  | keyword
  | text
  | other
deriving DecidableEq

def FieldType.family : FieldType → Family
  | keyword => .keyword
  | text => .text
  | _ => .other

namespace Field

/-- What a condition reads of a field. -/
structure View where
  family : FieldType.Family := .other
  companion : Option String := none
  /-- The nested path, trimmed and not blank. -/
  path : Option String := none
deriving DecidableEq

def view (f : Field) : View := ⟨f.type.family, f.keywordField, f.nested?⟩

/-- The view of a field that may be missing. -/
def viewOf (info : Option Field) : View := (info.map view).getD {}

theorem family_viewOf (info : Option Field) :
    (viewOf info).family = ((info.map type).getD .unknown).family := by
  cases info <;> rfl

theorem companion_viewOf (info : Option Field) :
    (viewOf info).companion = info.bind keywordField := by
  cases info <;> rfl

theorem path_viewOf (info : Option Field) : (viewOf info).path = info.bind nested? := by
  cases info <;> rfl

end Field

theorem FieldType.eq_keyword_iff (t : FieldType) : t = .keyword ↔ t.family = .keyword := by
  cases t <;> simp [family]

theorem FieldType.eq_text_iff (t : FieldType) : t = .text ↔ t.family = .text := by
  cases t <;> simp [family]

/-- What a catalog shows of the field with a name. -/
def Catalog.view (catalog : Option Catalog) (name : String) : Field.View :=
  Field.viewOf (catalog.bind fun c => c.get? name)

/-- Two catalogs look the same to a form: they agree at the field of each condition. -/
def FilterForm.SeesAlike (f : FilterForm) (catalog catalog' : Option Catalog) : Prop :=
  ∀ c ∈ f.conditions,
    Catalog.view catalog (Text.trim c.field) = Catalog.view catalog' (Text.trim c.field)

namespace Condition

variable {info info' : Option Field}

theorem exactQuery_congr (field : String) (value : Json)
    (h : Field.viewOf info = Field.viewOf info') :
    exactQuery field info value = exactQuery field info' value := by
  have hfamily := congrArg Field.View.family h
  have hcompanion := congrArg Field.View.companion h
  rw [Field.family_viewOf, Field.family_viewOf] at hfamily
  rw [Field.companion_viewOf, Field.companion_viewOf] at hcompanion
  simp only [exactQuery_eq_ite, FieldType.eq_keyword_iff, FieldType.eq_text_iff, hfamily,
    hcompanion]

/-- What an operator makes of a value depends on the view of the field. -/
theorem leafQuery_congr (c : Condition) (field : String) (value : Json)
    (h : Field.viewOf info = Field.viewOf info') :
    c.leafQuery field info value = c.leafQuery field info' value := by
  have hfamily := congrArg Field.View.family h
  have hcompanion := congrArg Field.View.companion h
  rw [Field.family_viewOf, Field.family_viewOf] at hfamily
  rw [Field.companion_viewOf, Field.companion_viewOf] at hcompanion
  unfold leafQuery
  simp only [exactQuery_congr field value h, FieldType.eq_keyword_iff, hfamily, hcompanion]

theorem path?_congr (c : Condition) (h : Field.viewOf info = Field.viewOf info') :
    c.path? info = c.path? info' := by
  have hpath := congrArg Field.View.path h
  rw [Field.path_viewOf, Field.path_viewOf] at hpath
  rw [path?, path?, hpath]

theorem leaf?_congr (c : Condition) {catalog catalog' : Option Catalog}
    (h : Catalog.view catalog (Text.trim c.field) = Catalog.view catalog' (Text.trim c.field)) :
    c.leaf? catalog = c.leaf? catalog' := by
  unfold leaf?
  refine Option.bind_congr fun field hfield => ?_
  obtain ⟨-, rfl⟩ := Text.trimmed?_eq_some hfield
  simp only [c.leafQuery_congr _ _ h, c.path?_congr h]

end Condition

namespace FilterForm

variable {f : FilterForm} {catalog catalog' : Option Catalog}

theorem leaves_congr (h : f.SeesAlike catalog catalog') : f.leaves catalog = f.leaves catalog' :=
  List.filterMap_congr fun c hc => c.leaf?_congr (h c hc)

theorem compile_congr (h : f.SeesAlike catalog catalog') :
    f.compile catalog = f.compile catalog' := by
  rw [compile, compile, leaves_congr h]

/-- A form is compiled by the views of its fields alone. So what else a catalog says of a field, its
name in the catalog among it, leaves the request as it is; so do the fields that no condition is on,
and a catalog without the fields of the conditions is like none. -/
theorem compile_of_views (f : FilterForm) :
    (∀ catalog catalog' : Option Catalog, f.SeesAlike catalog catalog' →
      f.compile catalog = f.compile catalog') ∧
    (∀ (cat : Catalog) (key : String) (g : Field) (name : String)
      (searchable aggregatable : Option Bool),
      f.compile (some (cat.put key { g with name, searchable, aggregatable })) =
        f.compile (some (cat.put key g))) ∧
    (∀ (cat : Catalog) (key : String) (g : Field),
      (∀ c ∈ f.conditions, Text.trim c.field ≠ key) →
        f.compile (some (cat.put key g)) = f.compile (some cat)) ∧
    ∀ cat : Catalog, (∀ c ∈ f.conditions, cat.get? (Text.trim c.field) = none) →
      f.compile (some cat) = f.compile none := by
  refine ⟨fun _ _ h => compile_congr h, ?_, ?_, ?_⟩
  · intro cat key g name searchable aggregatable
    refine compile_congr fun c _ => ?_
    simp only [Catalog.view, Option.bind_some, Catalog.get?_put]
    split <;> rfl
  · intro cat key g hkey
    refine compile_congr fun c hc => ?_
    simp only [Catalog.view, Option.bind_some, Catalog.get?_put, if_neg (hkey c hc)]
  · intro cat hmissing
    refine compile_congr fun c hc => ?_
    simp only [Catalog.view, Option.bind_some, hmissing c hc, Option.bind_none]

/-- A title, the notes on its items, and a price. -/
def labelForm : FilterForm where
  conditions := [
    { field := " title ", operator := .equals, value := some (.str "cup") },
    { field := "items.note", operator := .notExact, value := some (.str "broken") },
    { field := "price", operator := .neq, value := some (.num (.int 3)) }]
  timeframe := some { field := "created" }

def labelCatalog : Catalog := .ofFields [
  { name := "title", type := .text, keywordField := some "title.raw" },
  { name := "title.raw", type := .keyword },
  { name := "items.note", type := .keyword, nestedPath := some "items" },
  { name := "price", type := .long }]

/-- Other names, no price, a nested path with spaces around it, and other entries for the companion
and for the timeframe. -/
def relabeledEntries : List Catalog.Entry := [
  ("title", { name := "headline", type := .text, keywordField := some "title.raw" }),
  ("title.raw", { nestedPath := some "log" }),
  ("items.note", { type := .keyword, nestedPath := some " items ", searchable := some false }),
  ("created", { type := .text, nestedPath := some "log" })]

def relabeledCatalog : Catalog := .ofRecord relabeledEntries

/-- The form has one request with both catalogs. To the first one a field for the timeframe can be
added, and a catalog of companions alone is like none. -/
theorem labelForm_views :
    labelForm.SeesAlike (some labelCatalog) (some relabeledCatalog) ∧
      labelForm.compile (some labelCatalog) = labelForm.compile (some relabeledCatalog) ∧
      (∀ c ∈ labelForm.conditions, Text.trim c.field ≠ "created") ∧
      labelForm.compile (some (labelCatalog.put "created" { nestedPath := some "log" })) =
        labelForm.compile (some labelCatalog) ∧
      (∀ c ∈ labelForm.conditions,
        (Catalog.ofFields [{ name := "title.raw" }]).get? (Text.trim c.field) = none) ∧
      labelForm.compile (some (.ofFields [{ name := "title.raw" }])) = labelForm.compile none := by
  have hsame : labelForm.SeesAlike (some labelCatalog) (some relabeledCatalog) := by
    unfold FilterForm.SeesAlike
    decide
  have hother : ∀ c ∈ labelForm.conditions, Text.trim c.field ≠ "created" := by decide
  have hmissing : ∀ c ∈ labelForm.conditions,
      (Catalog.ofFields [{ name := "title.raw" }]).get? (Text.trim c.field) = none := by decide
  obtain ⟨hviews, -, hput, hnone⟩ := compile_of_views labelForm
  exact ⟨hsame, hviews _ _ hsame, hother, hput _ _ _ hother, hmissing, hnone _ hmissing⟩

end FilterForm
end SearchQuery
