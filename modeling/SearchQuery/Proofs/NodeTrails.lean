import SearchQuery.Proofs.QueryNodes
import SearchQuery.Proofs.TrailText

/-! # What a message is about

No two nodes of a request are reached by one trail, and the text of a trail tells the trail. So the
messages of a lint that carry the text of a leaf are about this leaf. -/
namespace SearchQuery.Lint

variable {scope inner : Option String} {kind : String} {body : Json} {steps trail : Trail}
  {ms : List (String × Json)}

section Steps

/-- A step down leads to a slot, or to an item of the list in it. -/
theorem Descends.steps_eq (h : Descends scope kind body steps inner ms) :
    ∃ slot, steps = [.member slot] ∨ ∃ i, steps = [.member slot, .index i] := by
  cases h with
  | bucketItem | disMax => exact ⟨_, .inr ⟨_, rfl⟩⟩
  | _ => exact ⟨_, .inl rfl⟩

theorem InSlot.unique {slot slot' : String × Slot} {ms' : List (String × Json)}
    (h : InSlot body slot steps ms) (h' : InSlot body slot' steps ms') : ms = ms' := by
  rcases h with ⟨-, items, i, hitems, hnode, rfl⟩ | ⟨-, hnode, rfl⟩
  · rcases h' with ⟨-, items', i', hitems', hnode', hsteps⟩ | ⟨-, -, hsteps⟩
    · obtain ⟨hslot, rfl⟩ : slot.1 = slot'.1 ∧ i = i' := by simpa using hsteps
      rw [← hslot, hitems] at hitems'
      obtain rfl := Json.arr.inj (Option.some.inj hitems')
      exact Json.obj.inj (Option.some.inj (hnode.symm.trans hnode'))
    · simp at hsteps
  · rcases h' with ⟨-, _, _, _, _, hsteps⟩ | ⟨-, hnode', hsteps⟩
    · simp at hsteps
    · obtain hslot : slot.1 = slot'.1 := by simpa using hsteps
      rw [← hslot, hnode] at hnode'
      exact Json.obj.inj (Option.some.inj hnode')

theorem Descends.unique {inner' : Option String} {ms' : List (String × Json)}
    (h : Descends scope kind body steps inner ms) (h' : Descends scope kind body steps inner' ms') :
    inner = inner' ∧ ms = ms' := by
  obtain ⟨hinner, slot, -, hin⟩ := mem_children.1 (mem_children_iff_descends.2 h)
  obtain ⟨hinner', slot', -, hin'⟩ := mem_children.1 (mem_children_iff_descends.2 h')
  exact ⟨Option.some.inj (hinner.symm.trans hinner'), hin.unique hin'⟩

/-- The end of a trail tells the last step down. -/
theorem Descends.append_inj {scope' inner' : Option String} {kind' : String} {body' : Json}
    {steps' trail' : Trail} {ms' : List (String × Json)}
    (h : Descends scope kind body steps inner ms)
    (h' : Descends scope' kind' body' steps' inner' ms')
    (heq : trail ++ .member kind :: steps = trail' ++ .member kind' :: steps') :
    trail = trail' ∧ kind = kind' ∧ steps = steps' := by
  have hlast := congrArg List.getLast? heq
  obtain ⟨slot, rfl | ⟨i, rfl⟩⟩ := h.steps_eq
  · obtain ⟨slot', rfl | ⟨i', rfl⟩⟩ := h'.steps_eq
    · obtain ⟨htrail, hsteps⟩ := List.append_inj' heq rfl
      exact ⟨htrail, by simpa using hsteps⟩
    · simp at hlast
  · obtain ⟨slot', rfl | ⟨i', rfl⟩⟩ := h'.steps_eq
    · simp at hlast
    · obtain ⟨htrail, hsteps⟩ := List.append_inj' heq rfl
      exact ⟨htrail, by simpa using hsteps⟩

theorem Descends.append_ne_singleton (h : Descends scope kind body steps inner ms) (step : Step) :
    trail ++ .member kind :: steps ≠ [step] := by
  intro heq
  have hlength := congrArg List.length heq
  obtain ⟨slot, rfl | ⟨i, rfl⟩⟩ := h.steps_eq
  · simp at hlength
  · simp at hlength

theorem Descends.isPlain (h : Descends scope kind body steps inner ms) :
    Trail.IsPlain (.member kind :: steps) := by
  cases h with
  | bucketItem hbucket | bucketNode hbucket =>
    simp only [List.mem_cons, List.not_mem_nil, or_false] at hbucket
    rcases hbucket with rfl | rfl | rfl | rfl <;>
      simp [Trail.IsPlain, Trail.IsPlainStep, Trail.isMark]
  | _ => simp [Trail.IsPlain, Trail.IsPlainStep, Trail.isMark]

theorem Reached.isPlain {request : Json} (h : Reached request trail scope ms) :
    trail.IsPlain := by
  induction h with
  | query => simp [Trail.IsPlain, Trail.IsPlainStep, Trail.isMark]
  | down _ _ hdescends ih =>
    intro step hstep
    rcases List.mem_append.1 hstep with hstep | hstep
    · exact ih step hstep
    · exact hdescends.isPlain step hstep

end Steps

theorem isPlainStep_kind (q : Query) : Trail.IsPlainStep (.member q.kind) := by
  cases q <;> simp [Query.kind, Trail.IsPlainStep, Trail.isMark]

section Requests

variable {r : Request} {catalog : Option Catalog}

/-- A node in the document of a request has one member, of the kind of its query. -/
theorem Reached.exists_singleton (h : Reached r.toJson trail scope ms) :
    ∃ (q : Query) (body : Json), ms = [(q.kind, body)] := by
  obtain ⟨q, -, hq⟩ := h.exists_toJson
  obtain ⟨body, hjson⟩ := q.exists_toJson_kind
  exact ⟨q, body, Json.obj.inj (hq.symm.trans hjson)⟩

/-- The trail to a node of a request tells the node. -/
theorem Reached.unique {scope' : Option String} {ms' : List (String × Json)}
    (h : Reached r.toJson trail scope ms) (h' : Reached r.toJson trail scope' ms') :
    scope = scope' ∧ ms = ms' := by
  -- the end of a trail tells the last step down, so the node above is told by the rest of it
  induction h generalizing scope' ms' with
  | query hquery =>
    generalize htrail : [Step.member "query"] = trail at h'
    cases h' with
    | query hquery' => exact ⟨rfl, Json.obj.inj (Option.some.inj (hquery.symm.trans hquery'))⟩
    | down _ _ hdescends => exact absurd htrail.symm (hdescends.append_ne_singleton _)
  | @down trail scope ms kind body steps inner below hreached hmem hdescends ih =>
    generalize htrail : trail ++ .member kind :: steps = whole at h'
    cases h' with
    | query => exact absurd htrail (hdescends.append_ne_singleton _)
    | down hreached' hmem' hdescends' =>
      obtain ⟨rfl, rfl, rfl⟩ := hdescends.append_inj hdescends' htrail
      obtain ⟨rfl, rfl⟩ := ih hreached'
      obtain ⟨q, qBody, rfl⟩ := hreached.exists_singleton
      obtain ⟨-, rfl⟩ : kind = q.kind ∧ body = qBody := by simpa using hmem
      obtain ⟨-, rfl⟩ : kind = q.kind ∧ _ = body := by simpa using hmem'
      exact hdescends.unique hdescends'

theorem Reached.isPlain_member (h : Reached r.toJson trail scope ms) (q : Query) :
    Trail.IsPlain (trail ++ [.member q.kind]) := by
  intro step hstep
  rcases List.mem_append.1 hstep with hstep | hstep
  · exact h.isPlain step hstep
  · obtain rfl := List.mem_singleton.1 hstep
    exact isPlainStep_kind q

/-- The messages with the text of a leaf are about the problems of the leaf. -/
theorem Reached.exists_leafProblem {q : Query} {m : Message}
    (h : Reached r.toJson trail scope ms) (hq : q.toJson = .obj ms) (hleaf : q.isLeaf = true)
    (hm : m ∈ (r.lint catalog).messages)
    (htext : m.path = Trail.text (trail ++ [.member q.kind])) :
    ∃ problem ∈ leafProblems catalog scope q, m.message = problem.text := by
  obtain ⟨finding, hfinding, rfl⟩ := List.mem_map.1 hm
  obtain ⟨body, hjson⟩ := q.exists_toJson_kind
  obtain rfl := Json.obj.inj (hq.symm.trans hjson)
  cases mem_requestFindings_iff_due.1 hfinding with
  | missingQuery hmissing =>
    obtain ⟨body, hobj⟩ := r.query.exists_toJson_kind
    cases hobj.symm.trans (hmissing _ (member?_query_toJson r))
  | @reached trail' scope' ms' kind body' problem hreached hmem hreports =>
    obtain ⟨q', qBody, rfl⟩ := hreached.exists_singleton
    obtain ⟨rfl, rfl⟩ : kind = q'.kind ∧ body' = qBody := by simpa using hmem
    have htrails : trail' ++ [.member q'.kind] = trail ++ [.member q.kind] :=
      Trail.text_inj (hreached.isPlain_member q') (h.isPlain_member q) htext
    obtain ⟨rfl, -⟩ := List.append_inj' htrails rfl
    obtain ⟨rfl, hms⟩ := h.unique hreached
    obtain ⟨hkind, rfl⟩ : q.kind = q'.kind ∧ body = body' := by simpa using hms
    have hproblem := mem_memberProblems_iff_reports.2 hreports
    rw [← hkind, memberProblems_leaf catalog scope hleaf hjson] at hproblem
    exact ⟨problem, hproblem, rfl⟩

end Requests

section Texts

theorem take_unknownNestedPath_text (path : String) :
    (Problem.unknownNestedPath path).text.toList.take 8 = "nested p".toList := by
  have htext : (Problem.unknownNestedPath path).text =
      "nested path '" ++ path ++ "' matches no catalog field" := rfl
  rw [htext, String.toList_append, String.toList_append, List.append_assoc,
    List.take_append_of_le_length (by decide)]
  decide

theorem head?_append_text {a : String} {c : Char} (h : a.toList.head? = some c) (b : String) :
    (a ++ b).toList.head? = some c := by
  rw [String.toList_append, List.head?_append, h, Option.some_or]

theorem Problem.missingQuery_text_ne (path : String) :
    Problem.missingQuery.text ≠ (Problem.unknownNestedPath path).text := by
  intro h
  have hstart := take_unknownNestedPath_text path
  rw [← h] at hstart
  revert hstart
  decide

/-- No other problem has a text that says that a nested path is unknown. -/
theorem Reports.text_ne_unknownNestedPath {catalog : Option Catalog} {scope : Option String}
    {kind : String} {body : Json} {problem : Problem} (h : Reports catalog scope kind body problem)
    (hne : ∀ path, problem ≠ .unknownNestedPath path) (path : String) :
    problem.text ≠ (Problem.unknownNestedPath path).text := by
  have hn : (Problem.unknownNestedPath path).text.toList.head? = some 'n' :=
    head?_append_text (head?_append_text rfl _) _
  have hfirst {c : Char} (hc : c ≠ 'n') (htext : problem.text.toList.head? = some c) :
      problem.text ≠ (Problem.unknownNestedPath path).text := by
    intro heq
    rw [heq, hn] at htext
    exact hc (Option.some.inj htext).symm
  cases h with
  | unknownNestedPath => exact absurd rfl (hne _)
  | nestedWithoutPath =>
    intro heq
    have hstart := take_unknownNestedPath_text path
    rw [← heq] at hstart
    revert hstart
    decide
  | queryString => exact hfirst (c := 'q') (by decide) rfl
  | outsideNested =>
    refine hfirst (c := 'f') (by decide) ?_
    exact head?_append_text (head?_append_text (head?_append_text (head?_append_text rfl _) _) _) _
  | exactOnText hkind =>
    refine hfirst (c := 't') (by decide) ?_
    have hstart : kind.toList.head? = some 't' := by rcases hkind with rfl | rfl <;> rfl
    exact head?_append_text (head?_append_text (head?_append_text hstart _) _) _
  | matchOnKeyword hkind =>
    refine hfirst (c := 'm') (by decide) ?_
    have hstart : kind.toList.head? = some 'm' := by rcases hkind with rfl | rfl <;> rfl
    exact head?_append_text (head?_append_text (head?_append_text hstart _) _) _
  | rangeOn =>
    refine hfirst (c := 'r') (by decide) ?_
    exact head?_append_text
      (head?_append_text (head?_append_text (head?_append_text rfl _) _) _) _

end Texts

end SearchQuery.Lint
