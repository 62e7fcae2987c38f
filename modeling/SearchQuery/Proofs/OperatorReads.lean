import SearchQuery.Proofs.Placement
import Mathlib.Data.List.Forall2
import Mathlib.Logic.Relation

/-! # What an operator reads

An operator reads its own members of a condition and no others, and reads them up to spaces around
texts and up to what stands for an absent value. A change of the rest, in any of the conditions and
in the timeframe at once, is not seen in the request. -/
namespace SearchQuery

/-- One change of a condition that its operator does not see. -/
inductive Condition.Rewrite : Condition → Condition → Prop
  | trimField (c : Condition) : Rewrite c { c with field := Text.trim c.field }
  | trimPath (c : Condition) : Rewrite c { c with nestedPath := c.nestedPath.map Text.trim }
  | dropPath (c : Condition) (h : ∀ path ∈ c.nestedPath, Text.trim path = "") :
      Rewrite c { c with nestedPath := none }
  | dropValue (c : Condition) (h : ∀ v ∈ c.value, v.isBlank = true) :
      Rewrite c { c with value := none }
  | dropValue2 (c : Condition) (h : ∀ v ∈ c.value2, v.isBlank = true) :
      Rewrite c { c with value2 := none }
  | value (c : Condition) (v : Option Json) (h : c.operator = .exists ∨ c.operator = .notExists) :
      Rewrite c { c with value := v }
  | value2 (c : Condition) (v : Option Json) (h : c.operator ≠ .between) :
      Rewrite c { c with value2 := v }
  | upperNow (c : Condition) (hop : c.operator = .between)
      (h : ∀ v ∈ c.value2, v.isBlank = true) : Rewrite c { c with value2 := some (.str "now") }
  | slop (c : Condition) (n : Option UInt32)
      (h : ¬ (c.operator = .phrase ∨ c.operator = .notPhrase)) : Rewrite c { c with slop := n }
  | slopZero (c : Condition) (hop : c.operator = .phrase ∨ c.operator = .notPhrase)
      (h : c.slop = none) : Rewrite c { c with slop := some 0 }
  | negatedClause (c : Condition) (clause : Clause)
      (h : c.operator ∈ [.notContains, .notPhrase, .notExact, .notExists, .neq]) :
      Rewrite c { c with clause := clause }
  | filteredClause (c : Condition) (clause : Clause)
      (hop : c.operator ∈ [.equals, .exact, .in, .exists, .gt, .gte, .lt, .lte, .eq, .between])
      (h : c.clause ≠ .mustNot) (h' : clause ≠ .mustNot) : Rewrite c { c with clause := clause }

/-- One change of a timeframe that its range does not show. -/
inductive Timeframe.Rewrite : Timeframe → Timeframe → Prop
  | trimField (t : Timeframe) : Rewrite t { t with field := Text.trim t.field }
  | dropGte (t : Timeframe) (h : ∀ v ∈ t.gte, v.isBlank = true) : Rewrite t { t with gte := none }
  | upperNow (t : Timeframe) (h : ∀ v ∈ t.lte, v.isBlank = true) :
      Rewrite t { t with lte := some (.str "now") }

/-- Any of the conditions, the timeframe and the size of a form are rewritten, each as often as one
likes. -/
structure FilterForm.Rewritten (f g : FilterForm) : Prop where
  conditions : List.Forall₂ (Relation.ReflTransGen Condition.Rewrite) f.conditions g.conditions
  timeframe : Option.Rel (Relation.ReflTransGen Timeframe.Rewrite) f.timeframe g.timeframe
  size : g.size = f.size ∨ f.size = none ∧ g.size = some 0

namespace Operator

theorem target_eq_negated :
    ∀ o ∈ [notContains, notPhrase, notExact, notExists, neq], o.target = .negated := by
  simp [target]

theorem target_eq_filtered :
    ∀ o ∈ [equals, exact, .in, .exists, gt, gte, lt, lte, eq, between],
      o.target = .filtered := by
  simp [target]

end Operator

namespace Condition

/-- The upper bound that `between` reads. -/
def upperBound (c : Condition) : Json := (nonBlank? c.value2).getD (.str defaultUpperBound)

/-- Two conditions with one operator agree in the members that it reads. -/
structure Agrees (c d : Condition) : Prop where
  operator : c.operator = d.operator
  field : Text.trimmed? c.field = Text.trimmed? d.field
  nestedPath : c.nestedPath.bind Text.trimmed? = d.nestedPath.bind Text.trimmed?
  value : c.operator.requiresValue = true → nonBlank? c.value = nonBlank? d.value
  value2 : c.operator = .between → c.upperBound = d.upperBound
  slop : c.operator = .phrase ∨ c.operator = .notPhrase → c.slop.getD 0 = d.slop.getD 0
  clause : c.operator.target.clause c.clause = c.operator.target.clause d.clause

namespace Agrees

theorem refl (c : Condition) : Agrees c c :=
  ⟨rfl, rfl, rfl, fun _ => rfl, fun _ => rfl, fun _ => rfl, rfl⟩

variable {c d : Condition}

theorem leafQuery_eq (h : Agrees c d) (field : String) (info : Option Field) {v w : Json}
    (hv : c.operator.requiresValue = true → v = w) :
    c.leafQuery field info v = d.leafQuery field info w := by
  have hslop := h.slop
  have hupper := h.value2
  unfold upperBound at hupper
  unfold leafQuery
  rw [← h.operator]
  cases hop : c.operator with
  | «exists» | notExists => rfl
  | phrase | notPhrase =>
    obtain rfl := hv (by rw [hop]; rfl)
    simp only [hslop (by simp [hop])]
  | between =>
    obtain rfl := hv (by rw [hop]; rfl)
    simp only [hupper hop]
  | _ =>
    obtain rfl := hv (by rw [hop]; rfl)
    rfl

/-- Conditions that agree have the same leaf. -/
theorem leaf?_eq (h : Agrees c d) (catalog : Option Catalog) :
    c.leaf? catalog = d.leaf? catalog := by
  have hguard : (c.operator.requiresValue && (nonBlank? c.value).isNone) =
      (d.operator.requiresValue && (nonBlank? d.value).isNone) := by
    rw [← h.operator]
    cases hrequired : c.operator.requiresValue with
    | false => rfl
    | true => rw [h.value hrequired]
  have hpath (info : Option Field) : c.path? info = d.path? info := by
    rw [path?, path?, h.nestedPath]
  unfold leaf?
  rw [h.field, hguard]
  refine Option.bind_congr fun field _ => ?_
  split
  · rfl
  · next hvalue =>
    -- behind the guard a value that is needed is not blank, so the two values are equal
    have hread : c.operator.requiresValue = true → c.value.getD .null = d.value.getD .null := by
      intro hrequired
      have hsame := h.value hrequired
      rw [← h.operator, hrequired, Bool.true_and, Option.isNone_iff_eq_none] at hvalue
      obtain ⟨v, hv⟩ := Option.ne_none_iff_exists'.1 hvalue
      rw [(nonBlank?_eq_some_iff.1 hv).1, (nonBlank?_eq_some_iff.1 (hsame.trans hv)).1]
    simp only [Option.bind_eq_bind, h.leafQuery_eq field _ hread, hpath]
    refine Option.bind_congr fun ⟨query, target⟩ hq => ?_
    obtain rfl := (leafQuery_eq_some hq).1
    rw [← h.operator, h.clause]

end Agrees

/-- No single change is in what the operator reads. -/
theorem Rewrite.agrees {c d : Condition} (h : Rewrite c d) : Agrees c d := by
  have hrefl := Agrees.refl c
  cases h with
  | trimField => exact { hrefl with field := (Text.trimmed?_trim c.field).symm }
  | trimPath =>
    refine { hrefl with nestedPath := ?_ }
    cases c.nestedPath <;> simp
  | dropPath h =>
    refine { hrefl with nestedPath := Option.bind_eq_none_iff.2 fun path hpath => ?_ }
    exact (Text.trimmed?_eq_none_iff path).2 (h path hpath)
  | dropValue h => exact { hrefl with value := fun _ => nonBlank?_eq_none_iff.2 h }
  | dropValue2 h =>
    refine { hrefl with value2 := fun _ => ?_ }
    simp only [upperBound, nonBlank?_eq_none_iff.2 h]
    rfl
  | value v h =>
    refine { hrefl with value := fun hrequired => ?_ }
    rcases h with ho | ho <;> simp [ho, Operator.requiresValue] at hrequired
  | value2 v h => exact { hrefl with value2 := fun ho => absurd ho h }
  | upperNow hop h =>
    refine { hrefl with value2 := fun _ => ?_ }
    simp only [upperBound, nonBlank?_eq_none_iff.2 h]
    rfl
  | slop n h => exact { hrefl with slop := fun ho => absurd ho h }
  | slopZero hop h => exact { hrefl with slop := fun _ => by rw [h]; rfl }
  | negatedClause clause h =>
    refine { hrefl with clause := ?_ }
    rw [Operator.target_eq_negated c.operator h]
    rfl
  | filteredClause clause hop h h' =>
    refine { hrefl with clause := ?_ }
    rw [Operator.target_eq_filtered c.operator hop, Target.clause, Target.clause, if_neg h,
      if_neg h']

theorem leaf?_eq_of_rewrites {c d : Condition} (h : Relation.ReflTransGen Rewrite c d)
    (catalog : Option Catalog) : d.leaf? catalog = c.leaf? catalog := by
  induction h with
  | refl => rfl
  | tail _ step ih => rw [← step.agrees.leaf?_eq catalog, ih]

/-- Conditions rewritten one by one have the same leaves. -/
theorem filterMap_leaf?_of_rewrites {cs ds : List Condition}
    (h : List.Forall₂ (Relation.ReflTransGen Rewrite) cs ds) (catalog : Option Catalog) :
    (ds.filterMap fun c => c.leaf? catalog) = cs.filterMap fun c => c.leaf? catalog := by
  induction h with
  | nil => rfl
  | cons hc _ ih => rw [List.filterMap_cons, List.filterMap_cons, leaf?_eq_of_rewrites hc, ih]

end Condition

namespace Timeframe

theorem Rewrite.query?_eq {t u : Timeframe} (h : Rewrite t u) : u.query? = t.query? := by
  cases h with
  | trimField => simp [query?]
  | dropGte h =>
    have hnone := nonBlank?_eq_none_iff.2 h
    simp only [query?, hnone]
    rfl
  | upperNow h =>
    have hnone := nonBlank?_eq_none_iff.2 h
    simp only [query?, hnone]
    rfl

theorem query?_eq_of_rewrites {t u : Timeframe} (h : Relation.ReflTransGen Rewrite t u) :
    u.query? = t.query? := by
  induction h with
  | refl => rfl
  | tail _ step ih => rw [step.query?_eq, ih]

end Timeframe

namespace FilterForm

theorem Rewritten.range?_eq {f g : FilterForm} (h : f.Rewritten g) : g.range? = f.range? := by
  have htimeframe := h.timeframe
  rw [range?, range?]
  generalize f.timeframe = s, g.timeframe = t at htimeframe
  cases htimeframe with
  | none => rfl
  | some ht => exact Timeframe.query?_eq_of_rewrites ht

/-- Rewritten in what the operators do not read, a form makes the same request. -/
theorem compile_rewritten {f g : FilterForm} (h : f.Rewritten g) (catalog : Option Catalog) :
    g.compile catalog = f.compile catalog := by
  refine compile_eq_iff.2 ⟨?_, ?_⟩
  · rcases h.size with hsize | ⟨hf, hg⟩
    · rw [hsize]
    · rw [hf, hg]
      rfl
  · have hleaves := Condition.filterMap_leaf?_of_rewrites h.conditions catalog
    rw [placement, placement, h.range?_eq, leaves, hleaves, leaves]

/-- A form as it is filled in, with members that its operators do not read. -/
def filledForm : FilterForm where
  conditions := [
    { clause := .should, field := " title ", operator := .equals, value := some (.str "cup"),
      nestedPath := some " ", slop := some 2 },
    { field := "price", operator := .between, value := some (.num (.int 5)),
      value2 := some .null }]
  timeframe := some { field := "sold ", gte := some (.str " ") }

/-- The same form with nothing but what is read, and the defaults written out. -/
def tidyForm : FilterForm where
  conditions := [
    { clause := .filter, field := "title", operator := .equals, value := some (.str "cup") },
    { field := "price", operator := .between, value := some (.num (.int 5)),
      value2 := some (.str "now") }]
  timeframe := some { field := "sold", lte := some (.str "now") }
  size := some 0

theorem filledForm_rewritten : filledForm.Rewritten tidyForm := by
  have htitle : Text.trim " title " = "title" := by decide
  have hspace : Text.trim " " = "" := by decide
  have hsold : Text.trim "sold " = "sold" := by decide
  refine ⟨.cons ?_ (.cons ?_ .nil), .some ?_, .inr ⟨rfl, rfl⟩⟩
  · rw [← htitle]
    refine .head (.filteredClause _ .filter (by decide) nofun nofun) ?_
    refine .head (.slop _ none (by decide)) ?_
    refine .head (.dropPath _ (by simp [hspace])) ?_
    exact .single (.trimField _)
  · exact .single (.upperNow _ rfl (by simp [Json.isBlank]))
  · rw [← hsold]
    refine .head (.dropGte _ (by simp; decide)) ?_
    refine .head (.upperNow _ nofun) ?_
    exact .single (.trimField _)

theorem filledForm_compile : filledForm.Rewritten tidyForm ∧
    ∀ catalog, tidyForm.compile catalog = filledForm.compile catalog :=
  ⟨filledForm_rewritten, compile_rewritten filledForm_rewritten⟩

end FilterForm
end SearchQuery
