import SearchQuery.Proofs.Survival

/-! # Conditions in other words

A request shows the leaf of each of its conditions, so a condition can be replaced by another one
without a change of the request iff the two have the same leaf. This settles which operators say
the same: a negated test and its negation, two names of one test, a comparison and the range that
it stands for. The two operators that negate an equality are one on fields of the keyword family
and on texts with a companion, and on no others. -/
namespace SearchQuery

/-- The operator that finds what another one does not find. -/
def Operator.negation? : Operator → Option Operator
  | contains => some notContains
  | phrase => some notPhrase
  | equals | exact => some notExact
  | .exists => some notExists
  | _ => none

/-- A condition says what another one says, in other words. -/
inductive Condition.Restated : Condition → Condition → Prop
  | negated (c : Condition) (clause : Clause) {o : Operator} (hclause : c.clause = .mustNot)
      (ho : c.operator.negation? = some o) :
      Restated c { c with clause := clause, operator := o }
  | exact (c : Condition) (ho : c.operator = .equals) : Restated c { c with operator := .exact }
  | between (c : Condition) (ho : c.operator = .eq) :
      Restated c { c with operator := .between, value2 := c.value }

/-- What a place in a request shows of a leaf: its nested path, its own bucket and its query. -/
def Occurrence.shown (o : Occurrence) : Option String × Option Clause × Query :=
  (o.paths.head?, o.buckets.getLast?, o.query)

def Leaf.shown (l : Leaf) : Option String × Option Clause × Query :=
  (l.path, some l.clause, l.query)

theorem Leaf.shown_injective : Function.Injective Leaf.shown := by
  rintro ⟨clause, path, query⟩ ⟨clause', path', query'⟩ h
  simp only [shown, Prod.mk.injEq, Option.some.injEq] at h
  obtain ⟨rfl, rfl, rfl⟩ := h
  rfl

@[simp] theorem Occurrence.shown_direct (c : Clause) (q : Query) :
    (⟨[c], [], q⟩ : Occurrence).shown = (none, some c, q) := rfl

/-- The other leaves have no part in what is shown of one. -/
@[simp] theorem Placement.shown_occurrence (ls : List Leaf) (l : Leaf) :
    (occurrence ls l).shown = l.shown := by
  cases hpath : l.path <;> simp [occurrence, Occurrence.shown, Leaf.shown, hpath]

namespace FilterForm

/-- Equal requests come from the same leaves, perhaps in another order. -/
theorem leaves_perm_of_compile_eq {f g : FilterForm} {catalog catalog' : Option Catalog}
    (hrange : f.range? = g.range?) (h : f.compile catalog = g.compile catalog') :
    (f.leaves catalog).Perm (g.leaves catalog') := by
  have hshown (f : FilterForm) (catalog : Option Catalog) :
      ((f.compile catalog).query.occurrences.map Occurrence.shown).Perm
        ((f.leaves catalog).map Leaf.shown ++
          f.range?.toList.map fun r => (none, some .filter, r)) := by
    have hperm := (occurrences_compile_perm f catalog).map Occurrence.shown
    simpa [Function.comp_def] using hperm
  have hsame := (hshown f catalog).symm.trans (h ▸ hshown g catalog')
  rw [hrange, List.perm_append_right_iff] at hsame
  exact (List.map_perm_map_iff Leaf.shown_injective).1 hsame

/-- Replacing a condition changes the request iff it changes the leaf. -/
theorem compile_replace_iff (f : FilterForm) (catalog : Option Catalog)
    (before after : List Condition) (c d : Condition) :
    (f.withConditions (before ++ d :: after)).compile catalog =
        (f.withConditions (before ++ c :: after)).compile catalog ↔
      d.leaf? catalog = c.leaf? catalog := by
  have hleaves (c : Condition) : (f.withConditions (before ++ c :: after)).leaves catalog =
      (before.filterMap fun c => c.leaf? catalog) ++
        ((c.leaf? catalog).toList ++ after.filterMap fun c => c.leaf? catalog) := by
    cases hc : c.leaf? catalog <;> simp [hc]
  constructor
  · intro h
    -- what the other conditions add is the same on both sides and cancels
    have hperm := leaves_perm_of_compile_eq (by simp) h
    rw [hleaves, hleaves, List.perm_append_left_iff, List.perm_append_right_iff] at hperm
    cases hd : d.leaf? catalog <;> cases hc : c.leaf? catalog <;> simp_all
  · intro h
    refine compile_eq_iff.2 ⟨rfl, ?_⟩
    rw [placement, placement, hleaves, hleaves, h]
    rfl

end FilterForm

@[simp] theorem Target.clause_mustNot (t : Target) : t.clause .mustNot = .mustNot := by
  cases t <;> rfl

namespace Condition

/-- Two conditions that share field, path and value have the same leaf if their operators make one
query of the value, if it is there, and send it to one bucket. -/
theorem leaf?_eq_of_leafQuery {c d : Condition} {catalog : Option Catalog}
    (hfield : d.field = c.field) (hpath : d.nestedPath = c.nestedPath) (hvalue : d.value = c.value)
    (hrequired : d.operator.requiresValue = c.operator.requiresValue)
    (hquery : ∀ field info value,
      (c.operator.requiresValue = true → nonBlank? c.value = some value) →
        (d.leafQuery field info value).map (fun p => (p.1, p.2.clause d.clause)) =
          (c.leafQuery field info value).map fun p => (p.1, p.2.clause c.clause)) :
    d.leaf? catalog = c.leaf? catalog := by
  have hplaced (clause : Clause) (path : Option String) (q : Option (Query × Target)) :
      (q.bind fun p => some (⟨p.2.clause clause, path, p.1⟩ : Leaf)) =
        (q.map fun p => (p.1, p.2.clause clause)).map fun p => ⟨p.2, path, p.1⟩ := by
    cases q <;> rfl
  have hpaths (info : Option Field) : d.path? info = c.path? info := by rw [path?, path?, hpath]
  unfold leaf?
  rw [hfield, hvalue, hrequired]
  refine Option.bind_congr fun field _ => ?_
  split
  · rfl
  · next hlive =>
    have hread : c.operator.requiresValue = true →
        nonBlank? c.value = some (c.value.getD .null) := by
      intro hneeds
      rw [hneeds, Bool.true_and, Option.isNone_iff_eq_none] at hlive
      obtain ⟨v, hv⟩ := Option.ne_none_iff_exists'.1 hlive
      rw [hv, (nonBlank?_eq_some_iff.1 hv).1]
      rfl
    have h := hquery field (catalog.bind fun cat => cat.get? field) _ hread
    simp only [Option.bind_eq_bind, Option.pure_def, hplaced, hpaths, h]

theorem leafQuery_negation {c : Condition} {o : Operator} (ho : c.operator.negation? = some o)
    (clause : Clause) (field : String) (info : Option Field) (value : Json) :
    ({ c with clause := clause, operator := o } : Condition).leafQuery field info value =
      (c.leafQuery field info value).map fun p => (p.1, .negated) := by
  cases hop : c.operator <;> rw [hop] at ho <;> cases ho <;> simp only [leafQuery, hop] <;> rfl

theorem Restated.leaf?_eq {c d : Condition} (h : Restated c d) (catalog : Option Catalog) :
    d.leaf? catalog = c.leaf? catalog := by
  cases h with
  | @negated clause o hclause ho =>
    refine leaf?_eq_of_leafQuery rfl rfl rfl ?_ fun field info value _ => ?_
    · cases hop : c.operator <;> rw [hop] at ho <;> cases ho <;> rfl
    · rw [leafQuery_negation ho, Option.map_map, hclause]
      simp only [Target.clause_mustNot]
      rfl
  | exact ho =>
    refine leaf?_eq_of_leafQuery rfl rfl rfl ?_ fun field info value _ => ?_
    · rw [ho]
      rfl
    · simp only [leafQuery, ho]
  | between ho =>
    refine leaf?_eq_of_leafQuery rfl rfl rfl ?_ fun field info value hvalue => ?_
    · rw [ho]
      rfl
    · have hupper : nonBlank? c.value = some value := hvalue (by rw [ho]; rfl)
      simp only [leafQuery, ho, hupper]
      rfl

/-- An exact test is the term that tests for inequality when there is a keyword field for it. -/
theorem exactQuery_eq_term_iff (field : String) (info : Option Field) (value : Json) :
    exactQuery field info value = .term ((info.bind Field.keywordField).getD field) value ↔
      ∃ f, info = some f ∧
        (f.type = .keyword ∨ f.type = .text ∧ f.keywordField.isSome = true) := by
  rw [exactQuery_eq_ite]
  cases info with
  | none => simp
  | some f =>
    simp only [Option.map_some, Option.getD_some, Option.bind_some, Option.some.injEq,
      exists_eq_left']
    split
    · next hkeyword => exact iff_of_true rfl hkeyword
    · next hphrase => exact iff_of_false nofun hphrase

/-- The two negations of an equality have the same leaf when the exact test is a term. -/
theorem leaf?_notExact_eq_iff {c : Condition} (ho : c.operator = .neq) (hc : c.Survives)
    (catalog : Option Catalog) :
    ({ c with operator := .notExact } : Condition).leaf? catalog = c.leaf? catalog ↔
      ∃ f, c.info? catalog = some f ∧
        (f.type = .keyword ∨ f.type = .text ∧ f.keywordField.isSome = true) := by
  have hd : ({ c with operator := .notExact } : Condition).Survives := by
    have hvalue := hc.value
    simp only [ho, reduceCtorEq, false_or] at hvalue
    exact ⟨hc.field, by simp [Operator.known], .inr (.inr hvalue), nofun⟩
  rw [hc.leaf?_eq, hd.leaf?_eq, leafQuery, leafQuery, ho,
    ← exactQuery_eq_term_iff (Text.trim c.field) _ (c.value.getD .null)]
  simp [info?, path?]

end Condition

namespace FilterForm

/-- Restating a condition leaves the request as it is. A condition with a leaf that tests for
inequality can be given the other negation of equality iff its field is a keyword, or a text with a
companion. -/
theorem compile_restated (f : FilterForm) (catalog : Option Catalog)
    (before after : List Condition) :
    (∀ c d, Condition.Restated c d →
      (f.withConditions (before ++ d :: after)).compile catalog =
        (f.withConditions (before ++ c :: after)).compile catalog) ∧
    ∀ c : Condition, c.operator = .neq → c.Survives →
      ((f.withConditions (before ++ { c with operator := .notExact } :: after)).compile catalog =
          (f.withConditions (before ++ c :: after)).compile catalog ↔
        ∃ info, c.info? catalog = some info ∧
          (info.type = .keyword ∨ info.type = .text ∧ info.keywordField.isSome = true)) := by
  constructor
  · intro c d h
    exact (f.compile_replace_iff catalog before after c d).2 (h.leaf?_eq catalog)
  · intro c ho hc
    rw [compile_replace_iff, Condition.leaf?_notExact_eq_iff ho hc]

/-- A negated phrase on a nested object. -/
def brokenNote : Condition :=
  { clause := .mustNot, field := "items.note", operator := .phrase, value := some (.str "broken"),
    nestedPath := some "items", slop := some 2 }

def otherTitle : Condition := { field := "title", operator := .neq, value := some (.str "cup") }

/-- A title of type text, without a companion. -/
def titleCatalog : Catalog := .ofFields [{ name := "title", type := .text }]

/-- The negated phrase can be restated, and the title cannot be given the other negation. -/
theorem titleForm_restated :
    Condition.Restated brokenNote { brokenNote with clause := .should, operator := .notPhrase } ∧
      (({} : FilterForm).withConditions ([otherTitle] ++
          { brokenNote with clause := .should, operator := .notPhrase } :: [])).compile
            (some titleCatalog) =
        (({} : FilterForm).withConditions ([otherTitle] ++ brokenNote :: [])).compile
          (some titleCatalog) ∧
      (otherTitle.operator = .neq ∧ otherTitle.Survives) ∧
      (({} : FilterForm).withConditions ([] ++
          { otherTitle with operator := .notExact } :: [brokenNote])).compile
            (some titleCatalog) ≠
        (({} : FilterForm).withConditions ([] ++ otherTitle :: [brokenNote])).compile
          (some titleCatalog) := by
  have hnote : Condition.Restated brokenNote
      { brokenNote with clause := .should, operator := .notPhrase } :=
    .negated brokenNote .should rfl rfl
  have hsurvives : otherTitle.Survives :=
    ⟨by decide, by decide, .inr (.inr ⟨_, rfl, (Json.isFilled_iff _).2 rfl⟩), nofun⟩
  have htitle : otherTitle.info? (some titleCatalog) = some { name := "title", type := .text } := by
    decide
  refine ⟨hnote, (compile_restated _ _ _ _).1 _ _ hnote, ⟨rfl, hsurvives⟩, fun h => ?_⟩
  obtain ⟨info, hinfo, hfamily⟩ := ((compile_restated _ _ _ _).2 _ rfl hsurvives).1 h
  obtain rfl := Option.some.inj (htitle.symm.trans hinfo)
  simp at hfamily

end FilterForm
end SearchQuery
