import SearchQuery.Proofs.MappingCoherence
import SearchQuery.Proofs.NestingScope
import SearchQuery.Proofs.NodeTrails
import SearchQuery.Proofs.NormalForm

/-! # Linting with the catalog of the compiler

Compiled for a coherent catalog and linted with it, a request whose conditions leave the nested path
to the catalog stands in the right scopes, its nested nodes are known, and an exact test suits the
type of the field that it is made on. The catalog of a mapping with plain names is coherent. -/
namespace SearchQuery

open Lint

namespace Condition

/-- A condition leaves its nested path to the catalog: its own is missing or blank. -/
def HasNoPath (c : Condition) : Prop :=
  ∀ path, c.nestedPath = some path → Text.isBlank path = true

theorem HasNoPath.path?_eq {cond : Condition} (h : cond.HasNoPath)
    (info : Option Field) : cond.path? info = info.bind Field.nested? := by
  have hown : cond.nestedPath.bind Text.trimmed? = none := by
    refine Option.bind_eq_none_iff.2 fun path hpath => ?_
    simp [Text.trimmed?, h path hpath]
  rw [path?, hown, Option.none_or]

end Condition

namespace Catalog.Coherent

variable {c : Catalog} (hc : c.Coherent)

include hc

/-- The field that an operator queries is of the nested object of the field of its condition. -/
theorem nested?_queriedField {o : Operator} {field : String} {g : Field}
    (h : c.get? (o.queriedField field (c.get? field)) = some g) :
    (c.get? field).bind Field.nested? = g.nested? := by
  rcases o.queriedField_eq_or field (c.get? field) with hsame | ⟨f, hf, hkey⟩
  · rw [hsame] at h
    rw [h]
    rfl
  · obtain ⟨companion, hcompanion, -, hnested⟩ := hc.companion hf hkey
    obtain rfl := Option.some.inj (hcompanion.symm.trans h)
    rw [hf]
    exact hnested.symm

theorem not_outOfScope {cond : Condition} (hpath : cond.HasNoPath) : ¬ cond.OutOfScope c := by
  rintro ⟨-, g, path, hg, hnested, hscope⟩
  apply hscope
  rw [hpath.path?_eq, hc.nested?_queriedField hg, hnested]

/-- An exact test suits the type of the field that it is made on. -/
theorem typeProblems_exactQuery {field name : String} {value : Json} {g : Field}
    (hname : (Condition.exactQuery field (c.get? field) value).field? = some name)
    (hg : c.get? name = some g) :
    typeProblems (Condition.exactQuery field (c.get? field) value).kind name g = [] := by
  rw [Condition.exactQuery_eq_ite] at hname ⊢
  split at hname
  · rename_i hterm
    rw [if_pos hterm]
    -- the companion if there is one, else the field itself, which is then of the family
    have hkeyword : g.type = .keyword := by
      cases hkey : (c.get? field).bind Field.keywordField with
      | none =>
        obtain rfl : field = name := by simpa [Query.field?, hkey] using hname
        rw [hkey] at hterm
        rcases hterm with htype | ⟨-, hsome⟩
        · simpa [hg] using htype
        · cases hsome
      | some key =>
        obtain rfl : key = name := by simpa [Query.field?, hkey] using hname
        obtain ⟨f, hf, hcompanion⟩ := Option.bind_eq_some_iff.1 hkey
        obtain ⟨companion, hget, htype, -⟩ := hc.companion hf hcompanion
        obtain rfl := Option.some.inj (hget.symm.trans hg)
        exact htype
    simp [typeProblems, Query.kind, hkeyword]
  · rename_i hphrase
    rw [if_neg hphrase]
    obtain rfl : field = name := by simpa [Query.field?] using hname
    have hkeyword : g.type ≠ .keyword := by
      rw [hg] at hphrase
      exact (not_or.1 hphrase).1
    simp [typeProblems, Query.kind, hkeyword]

/-- The leaf of an exact test has no problem at all. -/
theorem leafProblems_exact {cond : Condition} {l : Leaf} (hpath : cond.HasNoPath)
    (hexact : cond.operator ∈ [.equals, .exact, .notExact]) (h : cond.leaf? (some c) = some l) :
    leafProblems (some c) l.path l.query = [] := by
  obtain ⟨-, query, target, hq, hl⟩ := Condition.leaf?_eq_some h
  have hquery : l.query =
      Condition.exactQuery (Text.trim cond.field) (c.get? (Text.trim cond.field))
        (cond.value.getD .null) := by
    simp only [List.mem_cons, List.not_mem_nil, or_false] at hexact
    rw [hl]
    unfold Condition.leafQuery at hq
    rcases hexact with hop | hop | hop <;> simp only [hop] at hq <;> cases hq <;> rfl
  obtain ⟨hleaf, -, hkeyed, hfield⟩ := Condition.exactQuery_spec (Text.trim cond.field)
    (c.get? (Text.trim cond.field)) (cond.value.getD .null)
  refine List.eq_nil_iff_forall_not_mem.2 fun problem hproblem => ?_
  rcases mem_leafProblems.1 hproblem with ⟨name, hname, hmem⟩ | ⟨hstring, -⟩
  · obtain ⟨_, g, ⟨rfl⟩, hg, hscope | htype⟩ := mem_fieldProblems.1 hmem
    · obtain ⟨path, hnested, hne, -⟩ := mem_scopeProblems.1 hscope
      exact hc.not_outOfScope hpath
        ((Condition.strays_leaf_iff h).1 ⟨name, path, hname, c, g, rfl, hg, hnested, hne⟩)
    · have hshown : l.query.field? = some name := (Option.filter_eq_some_iff.1 hname).1
      rw [hquery] at hshown htype
      rw [hc.typeProblems_exactQuery hshown hg] at htype
      cases htype
  · rw [hquery, Condition.exactQuery_eq_ite] at hstring
    split at hstring <;> simp [Query.kind] at hstring

/-- Every nested path of a compiled request leads to a field. -/
theorem hasKeyPrefix_of_mem_nestedPaths {f : FilterForm} {path : String}
    (hpaths : ∀ cond ∈ f.conditions, cond.HasNoPath)
    (h : path ∈ (f.compile (some c)).query.nestedPaths) : c.hasKeyPrefix path = true := by
  obtain ⟨l, hl, hpath⟩ :=
    Placement.mem_paths.1 ((f.nestedPaths_compile_perm (some c)).mem_iff.1 h)
  obtain ⟨cond, hcond, hleaf⟩ := FilterForm.mem_leaves.1 hl
  rw [Condition.leaf?_path hleaf, (hpaths cond hcond).path?_eq] at hpath
  obtain ⟨field, hfield, hnested⟩ := Option.bind_eq_some_iff.1 hpath
  exact hc.known_path hfield hnested

theorem lint_compile_ok {f : FilterForm} (hpaths : ∀ cond ∈ f.conditions, cond.HasNoPath)
    (htimeframe : ∀ t field, f.timeframe = some t → c.get? (Text.trim t.field) = some field →
      field.nested? = none) : ((f.compile (some c)).lint (some c)).ok = true := by
  rw [← Bool.not_eq_false, FilterForm.lint_compile_ok_eq_false_iff,
    FilterForm.strays_leaves_iff, FilterForm.strays_range?_iff]
  rintro (⟨cond, hcond, -, hscope⟩ | ⟨t, ht, -, -, field, path, hfield, hnested⟩)
  · exact hc.not_outOfScope (hpaths cond hcond) hscope
  · rw [htimeframe t field ht hfield] at hnested
    cases hnested

/-- No message says that a nested path is unknown. -/
theorem message_ne_unknownNestedPath {f : FilterForm}
    (hpaths : ∀ cond ∈ f.conditions, cond.HasNoPath) {m : Message}
    (hm : m ∈ ((f.compile (some c)).lint (some c)).messages) (path : String) :
    m.message ≠ (Problem.unknownNestedPath path).text := by
  obtain ⟨finding, hfinding, rfl⟩ := List.mem_map.1 hm
  cases mem_requestFindings_iff_due.1 hfinding with
  | missingQuery => exact Problem.missingQuery_text_ne path
  | @reached trail scope ms kind body problem hreached hmem hreports =>
    refine hreports.text_ne_unknownNestedPath (fun path' hproblem => ?_) path
    subst hproblem
    cases hreports with
    | unknownNestedPath hcatalog hpath hkeys =>
      obtain rfl := Option.some.inj hcatalog
      obtain ⟨q, hcontains, hq⟩ := hreached.exists_toJson
      obtain ⟨path, inner, rfl, rfl⟩ := Query.exists_nested_of_mem_toJson hq hmem
      obtain rfl : path = path' := by simpa [Json.member?, List.lookup_cons] using hpath
      have hknown := hc.hasKeyPrefix_of_mem_nestedPaths hpaths hcontains.mem_nestedPaths
      obtain ⟨e, he, hstarts⟩ := List.any_eq_true.1 hknown
      exact hkeys e he (List.isPrefixOf_iff_prefix.1 hstarts)

/-- The leaf of an exact test is reached in its own scope, and no message is about it. -/
theorem exact_reached {f : FilterForm} {cond : Condition} {l : Leaf}
    (hcond : cond ∈ f.conditions) (hpath : cond.HasNoPath)
    (hexact : cond.operator ∈ [.equals, .exact, .notExact]) (h : cond.leaf? (some c) = some l) :
    (∃ trail ms, Reached (f.compile (some c)).toJson trail l.path ms ∧ l.query.toJson = .obj ms) ∧
      ∀ trail ms, Reached (f.compile (some c)).toJson trail l.path ms → l.query.toJson = .obj ms →
        ∀ m ∈ ((f.compile (some c)).lint (some c)).messages,
          m.path ≠ Trail.text (trail ++ [.member l.query.kind]) := by
  have hl : l ∈ f.leaves (some c) := FilterForm.mem_leaves.2 ⟨cond, hcond, h⟩
  constructor
  · have hoccurs : Placement.occurrence (f.leaves (some c)) l ∈
        (f.compile (some c)).query.occurrences :=
      (f.occurrences_compile_perm (some c)).mem_iff.2
        (List.mem_append_left _ (List.mem_map_of_mem hl))
    obtain ⟨body, hjson⟩ := (f.compile (some c)).query.exists_toJson_kind
    obtain ⟨trail, ms, hreached, hms⟩ := Reached.of_mem_occurrences hoccurs hjson (.root hjson)
    rw [Placement.paths_occurrence] at hreached
    rw [Placement.query_occurrence] at hms
    have hscope : l.path.toList.getLast?.or none = l.path := by cases l.path <;> rfl
    exact ⟨trail, ms, hscope ▸ hreached, hms⟩
  · intro trail ms hreached hms m hm htext
    have hleaf : l.query.isLeaf = true := by
      obtain ⟨-, query, target, hq, rfl⟩ := Condition.leaf?_eq_some h
      exact (Condition.leafQuery_eq_some hq).2.1
    obtain ⟨problem, hproblem, -⟩ := hreached.exists_leafProblem hms hleaf hm htext
    rw [hc.leafProblems_exact hpath hexact h] at hproblem
    cases hproblem

end Catalog.Coherent

/-- Importing a mapping, compiling with its catalog and linting with it fit together when the
mapping has one object of properties and plain names: if the conditions leave the nested path to the
catalog and the timeframe is on a field of no nested object, the lint passes, knows every nested
path, and has nothing to say about exact tests. That names are distinct is true of every value that
is read from a text (`Json.distinctNames_of_read?`). -/
theorem ofMapping_compile_lint {doc : Json} {ps : List (String × Json)} (hdoc : doc.DistinctNames)
    (hroots : Catalog.roots doc = [ps])
    (hnames : ∀ name, Catalog.Named ps name → Catalog.IsPlainName name) :
    ∃ c, Catalog.ofMapping doc = .ok c ∧ ∀ f : FilterForm,
      (∀ cond ∈ f.conditions, cond.HasNoPath) →
      (∀ t field, f.timeframe = some t → c.get? (Text.trim t.field) = some field →
        field.nested? = none) →
      let request := f.compile (some c)
      let report := request.lint (some c)
      report.ok = true ∧
        (∀ m ∈ report.messages, ∀ path, m.message ≠ (Problem.unknownNestedPath path).text) ∧
        ∀ cond ∈ f.conditions, cond.operator ∈ [.equals, .exact, .notExact] →
          ∀ leaf, cond.leaf? (some c) = some leaf →
            (∃ trail ms, Reached request.toJson trail leaf.path ms ∧
              leaf.query.toJson = .obj ms) ∧
            ∀ trail ms, Reached request.toJson trail leaf.path ms → leaf.query.toJson = .obj ms →
              ∀ m ∈ report.messages, m.path ≠ Trail.text (trail ++ [.member leaf.query.kind]) := by
  obtain ⟨i, hroot⟩ := Catalog.mem_roots.1 (hroots ▸ List.mem_singleton_self ps)
  obtain ⟨c, hok⟩ := (Catalog.exists_ofMapping_iff doc).2 ⟨i, ps, hroot⟩
  have hc : c.Coherent := Catalog.coherent_ofMapping hok hroots hdoc hnames
  refine ⟨c, hok, fun f hpaths htimeframe => ⟨hc.lint_compile_ok hpaths htimeframe, ?_, ?_⟩⟩
  · intro m hm path
    exact hc.message_ne_unknownNestedPath hpaths hm path
  · intro cond hcond hexact leaf hleaf
    exact hc.exact_reached hcond (hpaths cond hcond) hexact hleaf

/-- A mapping with a text field in a nested object, and a form that tests it exactly. -/
def orderProperties : List (String × Json) :=
  [("created", .keyed "type" (.str "date")),
    ("items", .obj [("type", .str "nested"),
      ("properties", .obj [("sku", .obj [("type", .str "text"),
        ("fields", .keyed "raw" (.keyed "type" (.str "keyword")))])])])]

def orderForm : FilterForm where
  conditions := [{ field := "items.sku", operator := .equals, value := some (.str "A-1") }]
  timeframe := some { field := "created" }

theorem orderProperties_named {name : String} (h : Catalog.Named orderProperties name) :
    name ∈ ["created", "items", "sku", "raw"] := by
  have hbelow {inner : List (String × Json)} {n : String} (hn : Catalog.Named inner n)
      (hinner : inner = [("sku", .obj [("type", .str "text"),
        ("fields", .keyed "raw" (.keyed "type" (.str "keyword")))])]) : n = "sku" ∨ n = "raw" := by
    cases hn with
    | property hmem => simp_all
    | sub hmem hfields hsub =>
      subst hinner
      obtain ⟨rfl, rfl⟩ := by simpa using hmem
      obtain rfl := by simpa [List.lookup_cons, Json.keyed] using hfields
      simp_all
    | inside hmem hinner' => simp_all [List.lookup_cons]
  cases h with
  | property hmem =>
    simp only [orderProperties, List.mem_cons, Prod.mk.injEq] at hmem
    simp only [List.mem_cons]
    tauto
  | sub hmem hfields =>
    simp only [orderProperties, Json.keyed, List.mem_cons, Prod.mk.injEq, Json.obj.injEq,
      List.not_mem_nil, or_false] at hmem
    rcases hmem with ⟨-, rfl⟩ | ⟨-, rfl⟩ <;> simp [List.lookup_cons] at hfields
  | inside hmem hinner hn =>
    simp only [orderProperties, Json.keyed, List.mem_cons, Prod.mk.injEq, Json.obj.injEq,
      List.not_mem_nil, or_false] at hmem
    rcases hmem with ⟨-, rfl⟩ | ⟨-, rfl⟩
    · simp [List.lookup_cons] at hinner
    · have hsku := hbelow hn (by simpa [List.lookup_cons, Json.keyed] using hinner.symm)
      simp only [List.mem_cons]
      tauto

theorem orderForm_compile_lint :
    ∃ c, Catalog.ofMapping (.keyed "properties" (.obj orderProperties)) = .ok c ∧
      orderForm.leaves (some c) =
        [⟨.filter, some "items", .term "items.sku.raw" (.str "A-1")⟩] ∧
      ((orderForm.compile (some c)).lint (some c)).ok = true := by
  have hdoc : (Json.keyed "properties" (.obj orderProperties)).DistinctNames := by
    simp [orderProperties, Json.keyed]
  have hplain (name : String) (h : Catalog.Named orderProperties name) :
      Catalog.IsPlainName name := by
    have hmem := orderProperties_named h
    simp only [List.mem_cons, List.not_mem_nil, or_false] at hmem
    rcases hmem with rfl | rfl | rfl | rfl <;> exact ⟨by decide, by decide, by decide⟩
  obtain ⟨c, hok, hlint⟩ := ofMapping_compile_lint hdoc rfl hplain
  obtain rfl := Except.ok.inj hok
  refine ⟨_, rfl, rfl, (hlint orderForm ?_ ?_).1⟩
  · simp [orderForm, Condition.HasNoPath]
  · rintro t field ⟨⟩ ⟨⟩
    rfl

end SearchQuery
