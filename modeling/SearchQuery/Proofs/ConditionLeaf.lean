import SearchQuery.Compile
import SearchQuery.Proofs.QueryTree
import SearchQuery.Proofs.Trim

/-! # The leaf of a condition

What a condition is compiled to, read off its operator: the bucket of the leaf, the field that the
leaf names, and its nested path. -/
namespace SearchQuery

theorem nonBlank?_eq_none_iff {v : Option Json} :
    nonBlank? v = none ↔ ∀ j ∈ v, j.isBlank = true := by
  simp [nonBlank?, Option.filter_eq_none_iff]

theorem nonBlank?_eq_some_iff {v : Option Json} {j : Json} :
    nonBlank? v = some j ↔ v = some j ∧ j.isBlank = false := by
  simp [nonBlank?, Option.filter_eq_some_iff]

namespace Query

/-- The field that a leaf names. -/
def field? : Query → Option String
  | fullText field _ | phrase field _ _ | term field _ | terms field _ | .exists field
  | range field _ => some field
  | queryString _ defaultField => defaultField
  | matchAll | bool _ | nested .. => none

/-- Whether the body of a leaf is keyed by its field. -/
def isKeyed : Query → Bool
  | fullText .. | phrase .. | term .. | terms .. | range .. => true
  | _ => false

end Query

namespace Operator

/-- Where an operator sends its leaf. -/
def target : Operator → Target
  | contains | phrase | queryString | unknown => .asGiven
  | equals | exact | .in | .exists | gt | gte | lt | lte | eq | between => .filtered
  | notContains | notPhrase | notExact | notExists | neq => .negated

/-- The field that an operator queries: exact tests prefer the companion, those for equality only
on fields of the text and keyword families, and sets only on fields that are no keywords. -/
def queriedField (o : Operator) (field : String) (info : Option Field) : String :=
  let type := (info.map Field.type).getD .unknown
  let companion := (info.bind Field.keywordField).getD field
  match o with
  | equals | exact | notExact => if type = .keyword ∨ type = .text then companion else field
  | .in => if type = .keyword then field else companion
  | neq => companion
  | _ => field

/-- An operator queries the field that it is given or the companion of this. -/
theorem queriedField_eq_or (o : Operator) (field : String) (info : Option Field) :
    o.queriedField field info = field ∨
      ∃ f, info = some f ∧ f.keywordField = some (o.queriedField field info) := by
  have hcompanion : (info.bind Field.keywordField).getD field = field ∨
      ∃ f, info = some f ∧
        f.keywordField = some ((info.bind Field.keywordField).getD field) := by
    cases hkey : info.bind Field.keywordField with
    | none => exact .inl rfl
    | some key =>
      obtain ⟨f, hinfo, hf⟩ := Option.bind_eq_some_iff.1 hkey
      exact .inr ⟨f, hinfo, hf⟩
  cases o with
  | equals | exact | notExact =>
    simp only [queriedField]
    split
    · exact hcompanion
    · exact .inl rfl
  | «in» =>
    simp only [queriedField]
    split
    · exact .inl rfl
    · exact hcompanion
  | neq => exact hcompanion
  | _ => exact .inl rfl

/-- The operators whose leaf names its field in a member of the body. -/
def namesFieldInBody : Operator → Bool
  | .exists | notExists | queryString => true
  | _ => false

end Operator

namespace Condition

/-- What the catalog says of the field of a condition. -/
def info? (c : Condition) (catalog : Option Catalog) : Option Field :=
  catalog.bind fun cat => cat.get? (Text.trim c.field)

/-- A condition with a leaf names a field and has what its operator makes of it. -/
theorem leaf?_eq_some {c : Condition} {catalog : Option Catalog} {l : Leaf}
    (h : c.leaf? catalog = some l) :
    Text.isBlank c.field = false ∧
      ∃ query target, c.leafQuery (Text.trim c.field) (c.info? catalog) (c.value.getD .null) =
          some (query, target) ∧
        l = ⟨target.clause c.clause, c.path? (c.info? catalog), query⟩ := by
  simp only [leaf?, Option.bind_eq_bind, Option.bind_eq_some_iff] at h
  obtain ⟨field, hfield, h⟩ := h
  obtain ⟨hblank, rfl⟩ := Text.trimmed?_eq_some hfield
  split at h
  · cases h
  · simp only [Option.bind_eq_some_iff, Prod.exists] at h
    obtain ⟨query, target, hq, hl⟩ := h
    exact ⟨hblank, query, target, hq, (Option.some.inj hl).symm⟩

/-- An exact test is a term when there is a keyword field for it, and a phrase otherwise. -/
theorem exactQuery_eq_ite (field : String) (info : Option Field) (value : Json) :
    exactQuery field info value =
      if (info.map Field.type).getD .unknown = .keyword ∨
          ((info.map Field.type).getD .unknown = .text ∧
            (info.bind Field.keywordField).isSome = true) then
        .term ((info.bind Field.keywordField).getD field) value
      else .phrase field value 0 := by
  unfold exactQuery
  cases htype : (info.map Field.type).getD .unknown <;>
    cases hkey : info.bind Field.keywordField <;> simp

theorem exactQuery_spec (field : String) (info : Option Field) (value : Json) :
    let query := exactQuery field info value
    query.isLeaf = true ∧ query ≠ .matchAll ∧ query.isKeyed = true ∧
      query.field? = some (Operator.equals.queriedField field info) := by
  cases hcompanion : info.bind Field.keywordField <;>
    cases htype : (info.map Field.type).getD .unknown <;>
    simp [exactQuery, Operator.queriedField, Query.isLeaf, Query.isKeyed, Query.field?, hcompanion,
      htype]

theorem leafQuery_eq_some {c : Condition} {field : String} {info : Option Field} {value : Json}
    {query : Query} {target : Target} (h : c.leafQuery field info value = some (query, target)) :
    target = c.operator.target ∧ query.isLeaf = true ∧ query ≠ .matchAll ∧
      query.isKeyed = !c.operator.namesFieldInBody ∧
      query.field? = some (c.operator.queriedField field info) := by
  unfold leafQuery at h
  cases hop : c.operator <;> simp only [hop] at h
  case equals | exact | notExact =>
    cases h
    obtain ⟨hleaf, hne, hkeyed, hfield⟩ := exactQuery_spec field info value
    exact ⟨rfl, hleaf, hne, hkeyed, hfield⟩
  case «in» =>
    split at h
    · cases h
    · cases h
      exact ⟨rfl, rfl, nofun, rfl, by simp [Query.field?, Operator.queriedField]⟩
  case unknown => cases h
  all_goals
    cases h
    exact ⟨rfl, rfl, nofun, rfl, rfl⟩

section Leaf

variable {c : Condition} {catalog : Option Catalog} {l : Leaf}

theorem leaf?_clause (h : c.leaf? catalog = some l) :
    l.clause = c.operator.target.clause c.clause := by
  obtain ⟨-, query, target, hq, rfl⟩ := leaf?_eq_some h
  rw [(leafQuery_eq_some hq).1]

theorem leaf?_path (h : c.leaf? catalog = some l) : l.path = c.path? (c.info? catalog) := by
  obtain ⟨-, query, target, hq, rfl⟩ := leaf?_eq_some h
  rfl

theorem leaf?_occurrences (h : c.leaf? catalog = some l) :
    l.query.occurrences = [⟨[], [], l.query⟩] := by
  obtain ⟨-, query, target, hq, rfl⟩ := leaf?_eq_some h
  obtain ⟨-, hleaf, hne, -⟩ := leafQuery_eq_some hq
  exact Query.occurrences_leaf hleaf hne

theorem leaf?_isKeyed (h : c.leaf? catalog = some l) :
    l.query.isKeyed = !c.operator.namesFieldInBody := by
  obtain ⟨-, query, target, hq, rfl⟩ := leaf?_eq_some h
  exact (leafQuery_eq_some hq).2.2.2.1

theorem leaf?_field (h : c.leaf? catalog = some l) :
    l.query.field? = some (c.operator.queriedField (Text.trim c.field) (c.info? catalog)) := by
  obtain ⟨-, query, target, hq, rfl⟩ := leaf?_eq_some h
  exact (leafQuery_eq_some hq).2.2.2.2

end Leaf

end Condition

namespace Timeframe

theorem query?_eq_some {t : Timeframe} {q : Query} (h : t.query? = some q) :
    q.isLeaf = true ∧ q.isKeyed = true ∧ q.field? = some (Text.trim t.field) ∧
      q.occurrences = [⟨[], [], q⟩] := by
  obtain ⟨field, hfield, rfl⟩ := Option.map_eq_some_iff.1 h
  obtain ⟨-, rfl⟩ := Text.trimmed?_eq_some hfield
  exact ⟨rfl, rfl, rfl, rfl⟩

end Timeframe
end SearchQuery
