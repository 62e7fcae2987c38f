import SearchQuery.Proofs.LintVisit
import SearchQuery.Proofs.Placement
import SearchQuery.Proofs.QueryWalk

/-! # Leaves outside their nested objects

A request fails its lint only by a leaf that names a field of a nested object outside a nested node
for it. In a compiled request each leaf stands in the nested node that its condition was resolved
to, so the conditions themselves tell whether the request passes. -/
namespace SearchQuery

namespace Lint

/-- A leaf in a scope names a field of a nested object that is not the one of the scope. -/
def Strays (catalog : Option Catalog) (scope : Option String) (q : Query) (name path : String) :
    Prop :=
  q.shownField? = some name ∧
    ∃ c f, catalog = some c ∧ c.get? name = some f ∧ f.nested? = some path ∧ scope ≠ some path

section Errors

variable {catalog : Option Catalog} {scope : Option String} {problem : Problem}

theorem level_typeProblem {kind name : String} {f : Field}
    (h : problem ∈ typeProblems kind name f) : problem.level = .warn := by
  rcases mem_typeProblems.1 h with ⟨-, -, -, rfl⟩ | ⟨-, -, rfl⟩ | ⟨-, -, rfl⟩ <;> rfl

theorem level_unknownPathProblem {path : String} (h : problem ∈ unknownPathProblems catalog path) :
    problem.level = .warn := by
  unfold unknownPathProblems at h
  split at h
  · split at h
    · cases h
    · obtain rfl := List.mem_singleton.1 h
      rfl
  · cases h

/-- The errors of a leaf. -/
theorem error_mem_leafProblems {q : Query} (hlevel : problem.level = .error) :
    problem ∈ leafProblems catalog scope q ↔
      ∃ name path, Strays catalog scope q name path ∧ problem = .outsideNested name path := by
  have hfield (name : String) : problem ∈ fieldProblems catalog scope q.kind name ↔
      ∃ c f path, catalog = some c ∧ c.get? name = some f ∧ f.nested? = some path ∧
        scope ≠ some path ∧ problem = .outsideNested name path := by
    rw [mem_fieldProblems]
    constructor
    · rintro ⟨c, f, hc, hf, hscope | htype⟩
      · obtain ⟨path, hpath⟩ := mem_scopeProblems.1 hscope
        exact ⟨c, f, path, hc, hf, hpath⟩
      · rw [level_typeProblem htype] at hlevel
        cases hlevel
    · rintro ⟨c, f, path, hc, hf, hpath⟩
      exact ⟨c, f, hc, hf, .inl (mem_scopeProblems.2 ⟨path, hpath⟩)⟩
  rw [mem_leafProblems]
  constructor
  · rintro (⟨name, hname, hmem⟩ | ⟨-, rfl⟩)
    · obtain ⟨c, f, path, hc, hf, hpath, hscope, hproblem⟩ := (hfield name).1 hmem
      exact ⟨name, path, ⟨hname, c, f, hc, hf, hpath, hscope⟩, hproblem⟩
    · cases hlevel
  · rintro ⟨name, path, ⟨hname, c, f, hc, hf, hpath, hscope⟩, hproblem⟩
    exact .inl ⟨name, hname, (hfield name).2 ⟨c, f, path, hc, hf, hpath, hscope, hproblem⟩⟩

/-- The errors in the document of a query come from its leaves, each taken in the scope of the
innermost nested node around it. -/
theorem error_mem_findings_toJson (hlevel : problem.level = .error) (q : Query) (trail : Trail) :
    (∃ finding ∈ findings catalog scope trail q.toJson, finding.problem = problem) ↔
      ∃ o ∈ q.occurrences, ∃ name path,
        Strays catalog (o.paths.getLast?.or scope) o.query name path ∧
          problem = .outsideNested name path := by
  induction q using Query.tree_induction generalizing scope trail with
  | leaf q hleaf =>
    rw [findings_leaf catalog scope trail hleaf]
    simp only [List.mem_map, exists_exists_and_eq_and, exists_eq_right,
      error_mem_leafProblems hlevel]
    by_cases hall : q = .matchAll
    · subst hall
      simp [Query.occurrences, Strays, Query.shownField?, Query.field?]
    · simp [Query.occurrences_leaf hleaf hall]
  | bool b ih =>
    simp only [findings_bool, Query.occurrences_bool, List.mem_flatMap, List.mem_map]
    constructor
    · rintro ⟨finding, ⟨c, hc, child, hchild, hfinding⟩, hproblem⟩
      have hmem := List.fst_mem_of_mem_zipIdx hchild
      obtain ⟨o, ho, hstrays⟩ := (ih c child.1 hmem _).1 ⟨finding, hfinding, hproblem⟩
      exact ⟨o.inBucket c, ⟨c, hc, child.1, hmem, o, ho, rfl⟩, hstrays⟩
    · rintro ⟨_, ⟨c, hc, q, hq, o, ho, rfl⟩, hstrays⟩
      obtain ⟨i, hi⟩ := List.getElem?_of_mem hq
      obtain ⟨finding, hfinding, hproblem⟩ := (ih c q hq _).2 ⟨o, ho, hstrays⟩
      exact ⟨finding, ⟨c, hc, (q, i), List.mk_mem_zipIdx_iff_getElem?.2 hi, hfinding⟩, hproblem⟩
  | nested path q ih =>
    have hpath : problem ∉ unknownPathProblems catalog path := by
      intro h
      rw [level_unknownPathProblem h] at hlevel
      cases hlevel
    simp only [findings_nested, List.mem_append, or_and_right, exists_or, ih, Query.occurrences,
      List.mem_map, exists_exists_and_eq_and, exists_eq_right, hpath, false_or,
      Occurrence.getLast?_underPath_or]
    rfl

end Errors

theorem lint_ok_eq_false_iff {catalog : Option Catalog} {r : Request} :
    (r.lint catalog).ok = false ↔
      ∃ finding ∈ requestFindings catalog r.toJson, finding.problem.level = .error := by
  simp only [Request.lint, lint, Report.ofMessages, Bool.not_eq_false', List.any_eq_true,
    List.mem_map, exists_exists_and_eq_and, Finding.message, decide_eq_true_eq]

end Lint

open Lint

namespace Condition

/-- The leaf of a condition names a field of a nested object other than the one that the condition
was resolved to. Unless it stands in a member of the body, a field spelled like a parameter is not
seen. -/
def OutOfScope (c : Condition) (catalog : Catalog) : Prop :=
  let info := catalog.get? (Text.trim c.field)
  let name := c.operator.queriedField (Text.trim c.field) info
  (name ∈ parameters → c.operator.namesFieldInBody = true) ∧
    ∃ f path, catalog.get? name = some f ∧ f.nested? = some path ∧ c.path? info ≠ some path

theorem strays_leaf_iff {c : Condition} {catalog : Catalog} {l : Leaf}
    (h : c.leaf? (some catalog) = some l) :
    (∃ name path, Strays (some catalog) l.path l.query name path) ↔ c.OutOfScope catalog := by
  have hshown (name : String) : l.query.shownField? = some name ↔
      c.operator.queriedField (Text.trim c.field) (catalog.get? (Text.trim c.field)) = name ∧
        (name ∈ parameters → c.operator.namesFieldInBody = true) := by
    rw [Query.shownField?, leaf?_field h, leaf?_isKeyed h, Option.filter_eq_some_iff]
    simp [info?]
    grind
  simp only [Strays, OutOfScope, hshown, leaf?_path h, info?, Option.some.injEq]
  grind

end Condition

/-- The range of a timeframe is on a field of a nested object; it never stands in a nested node. -/
def Timeframe.OutOfScope (t : Timeframe) (catalog : Catalog) : Prop :=
  Text.trim t.field ∉ parameters ∧
    ∃ f path, catalog.get? (Text.trim t.field) = some f ∧ f.nested? = some path

theorem Timeframe.strays_range_iff {t : Timeframe} {catalog : Catalog} {q : Query}
    (h : t.query? = some q) :
    (∃ name path, Strays (some catalog) none q name path) ↔ t.OutOfScope catalog := by
  obtain ⟨-, hkeyed, hfield, -⟩ := query?_eq_some h
  have hshown (name : String) : q.shownField? = some name ↔
      Text.trim t.field = name ∧ name ∉ parameters := by
    simp [Query.shownField?, hkeyed, hfield, Option.filter_eq_some_iff]
  simp only [Strays, OutOfScope, hshown, Option.some.injEq]
  grind

namespace FilterForm

open Placement

variable {f : FilterForm} {catalog linted : Option Catalog} {problem : Problem}

/-- The errors in a compiled request come from its leaves, each in the scope of its own path, and
from the range of the timeframe, in no scope. -/
theorem error_mem_compile (hlevel : problem.level = .error) :
    (∃ finding ∈ requestFindings linted (f.compile catalog).toJson, finding.problem = problem) ↔
      (∃ l ∈ f.leaves catalog, ∃ name path, Strays linted l.path l.query name path ∧
          problem = .outsideNested name path) ∨
        ∃ r, f.range? = some r ∧ ∃ name path, Strays linted none r name path ∧
          problem = .outsideNested name path := by
  have hscope (l : Leaf) : (occurrence (f.leaves catalog) l).paths.getLast?.or none = l.path := by
    rw [paths_occurrence]
    cases l.path <;> rfl
  simp only [requestFindings_toJson, error_mem_findings_toJson hlevel,
    (occurrences_compile_perm f catalog).mem_iff, List.mem_append, List.mem_map, or_and_right,
    exists_or, exists_exists_and_eq_and, hscope, query_occurrence, Option.mem_toList]
  rfl

theorem lint_compile_ok_eq_false_iff : ((f.compile catalog).lint linted).ok = false ↔
    (∃ l ∈ f.leaves catalog, ∃ name path, Strays linted l.path l.query name path) ∨
      ∃ r, f.range? = some r ∧ ∃ name path, Strays linted none r name path := by
  rw [lint_ok_eq_false_iff]
  constructor
  · rintro ⟨finding, hfinding, hlevel⟩
    rcases (error_mem_compile hlevel).1 ⟨finding, hfinding, rfl⟩ with
      ⟨l, hl, name, path, hstrays, -⟩ | ⟨r, hr, name, path, hstrays, -⟩
    · exact .inl ⟨l, hl, name, path, hstrays⟩
    · exact .inr ⟨r, hr, name, path, hstrays⟩
  · rintro (⟨l, hl, name, path, hstrays⟩ | ⟨r, hr, name, path, hstrays⟩)
    · have hlevel : (Problem.outsideNested name path).level = .error := rfl
      obtain ⟨finding, hfinding, hproblem⟩ :=
        (error_mem_compile hlevel).2 (.inl ⟨l, hl, name, path, hstrays, rfl⟩)
      exact ⟨finding, hfinding, hproblem ▸ hlevel⟩
    · have hlevel : (Problem.outsideNested name path).level = .error := rfl
      obtain ⟨finding, hfinding, hproblem⟩ :=
        (error_mem_compile hlevel).2 (.inr ⟨r, hr, name, path, hstrays, rfl⟩)
      exact ⟨finding, hfinding, hproblem ▸ hlevel⟩

/-- The leaves out of scope, told by the conditions that they come from. -/
theorem strays_leaves_iff {cat : Catalog} :
    (∃ l ∈ f.leaves (some cat), ∃ name path, Strays (some cat) l.path l.query name path) ↔
      ∃ c ∈ f.conditions, (c.leaf? (some cat)).isSome = true ∧ c.OutOfScope cat := by
  constructor
  · rintro ⟨l, hl, hstrays⟩
    obtain ⟨c, hc, hleaf⟩ := mem_leaves.1 hl
    exact ⟨c, hc, by simp [hleaf], (Condition.strays_leaf_iff hleaf).1 hstrays⟩
  · rintro ⟨c, hc, hsome, hscope⟩
    obtain ⟨l, hleaf⟩ := Option.isSome_iff_exists.1 hsome
    exact ⟨l, mem_leaves.2 ⟨c, hc, hleaf⟩, (Condition.strays_leaf_iff hleaf).2 hscope⟩

theorem strays_range?_iff {cat : Catalog} :
    (∃ r, f.range? = some r ∧ ∃ name path, Strays (some cat) none r name path) ↔
      ∃ t, f.timeframe = some t ∧ t.query?.isSome = true ∧ t.OutOfScope cat := by
  constructor
  · rintro ⟨r, hr, hstrays⟩
    obtain ⟨t, ht, hrange⟩ := Option.bind_eq_some_iff.1 hr
    exact ⟨t, ht, by simp [hrange], (Timeframe.strays_range_iff hrange).1 hstrays⟩
  · rintro ⟨t, ht, hsome, hscope⟩
    obtain ⟨r, hrange⟩ := Option.isSome_iff_exists.1 hsome
    exact ⟨r, Option.bind_eq_some_iff.2 ⟨t, ht, hrange⟩,
      (Timeframe.strays_range_iff hrange).2 hscope⟩

/-- Compiled for a catalog and linted with it, a request fails exactly when the leaf of some
condition or the range of the timeframe is out of scope. A compiled request never lacks its query
or a nested path, and without a catalog its lint always passes. -/
theorem compile_lint_ok_iff (f : FilterForm) :
    (∀ catalog : Catalog, ((f.compile (some catalog)).lint (some catalog)).ok = false ↔
        (∃ c ∈ f.conditions, (c.leaf? (some catalog)).isSome = true ∧ c.OutOfScope catalog) ∨
          ∃ t, f.timeframe = some t ∧ t.query?.isSome = true ∧ t.OutOfScope catalog) ∧
      (∀ catalog linted : Option Catalog,
        ∀ finding ∈ requestFindings linted (f.compile catalog).toJson,
          finding.problem ≠ .missingQuery ∧ finding.problem ≠ .nestedWithoutPath) ∧
      ∀ catalog : Option Catalog, ((f.compile catalog).lint none).ok = true := by
  refine ⟨fun catalog => ?_, fun catalog linted finding hfinding => ?_, fun catalog => ?_⟩
  · rw [lint_compile_ok_eq_false_iff, strays_leaves_iff, strays_range?_iff]
  · have houtside (hlevel : finding.problem.level = .error) :
        ∃ name path, finding.problem = .outsideNested name path := by
      rcases (error_mem_compile hlevel).1 ⟨finding, hfinding, rfl⟩ with
        ⟨l, -, name, path, -, hproblem⟩ | ⟨r, -, name, path, -, hproblem⟩
      · exact ⟨name, path, hproblem⟩
      · exact ⟨name, path, hproblem⟩
    constructor
    · intro hmissing
      obtain ⟨name, path, hproblem⟩ := houtside (hmissing ▸ rfl)
      cases hmissing.symm.trans hproblem
    · intro hmissing
      obtain ⟨name, path, hproblem⟩ := houtside (hmissing ▸ rfl)
      cases hmissing.symm.trans hproblem
  · rw [← Bool.not_eq_false, lint_compile_ok_eq_false_iff]
    simp [Strays]

end FilterForm

end SearchQuery
