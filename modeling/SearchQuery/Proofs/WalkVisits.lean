import SearchQuery.Proofs.LintVisit

/-! # The visits of a walk

Which members of a request a walk visits, in which order and in which scope, has nothing to do with
the catalog: it is a list that is told by the document alone, and the findings are what is wrong
with its members one by one. A part of the document is visited in the same way wherever it
stands. -/
namespace SearchQuery.Lint

/-- A node stands in a slot of a body, or as an item of the list there. -/
inductive StandsBelow (kind : String) (body : Json) : Trail → Json → Prop
  | node {slot node} (hnode : body.member? slot = some node) :
      StandsBelow kind body [.member kind, .member slot] node
  | item {slot items i node} (hitems : body.member? slot = some (.arr items))
      (hnode : items[i]? = some node) :
      StandsBelow kind body [.member kind, .member slot, .index i] node

theorem mem_slotChildren_cases {scope : Option String} {steps : Trail}
    {parts : List (String × Json)} {slot : String × Slot} {ch : Child}
    (h : ch ∈ slotChildren scope steps parts slot) :
    (parts.lookup slot.1 = some ch.node ∧ ch.steps = steps ++ [.member slot.1]) ∨
      ∃ items i, parts.lookup slot.1 = some (.arr items) ∧ items[i]? = some ch.node ∧
        ch.steps = steps ++ [.member slot.1, .index i] := by
  unfold slotChildren at h
  split at h
  · rename_i items hlookup
    split_ifs at h
    · obtain ⟨item, hitem, rfl⟩ := List.mem_map.1 h
      exact .inr ⟨items, item.2, hlookup, List.mem_zipIdx_iff_getElem?.1 hitem, rfl⟩
    · cases h
  · rename_i members hlookup
    split_ifs at h
    · obtain rfl := List.mem_singleton.1 h
      exact .inl ⟨hlookup, rfl⟩
    · cases h
  · cases h

theorem standsBelow_of_mem_children {scope : Option String} {kind : String} {body : Json}
    {ch : Child} (h : ch ∈ children scope kind body) : StandsBelow kind body ch.steps ch.node := by
  unfold children at h
  split at h
  · obtain ⟨slot, -, hslot⟩ := List.mem_flatMap.1 h
    rcases mem_slotChildren_cases hslot with ⟨hnode, hsteps⟩ | ⟨items, i, hitems, hnode, hsteps⟩
    · exact hsteps ▸ .node hnode
    · exact hsteps ▸ .item hitems hnode
  · cases h

theorem StandsBelow.sizeOf_lt {kind : String} {body node : Json} {steps : Trail}
    (h : StandsBelow kind body steps node) : sizeOf node < sizeOf body := by
  cases h with
  | node hnode => exact Json.sizeOf_member?_lt hnode
  | item hitems hnode =>
    have hbody := Json.sizeOf_member?_lt hitems
    have hitem := List.sizeOf_lt_of_mem (List.mem_of_getElem? hnode)
    simp only [Json.arr.sizeOf_spec] at hbody
    omega

/-- The members of a value that is an object. -/
def nodeMembers (node : Json) : List (String × Json) := node.members?.getD []

@[simp] theorem nodeMembers_obj (ms : List (String × Json)) : nodeMembers (.obj ms) = ms := rfl

theorem sizeOf_lt_of_mem_nodeMembers {node : Json} {m : String × Json} (h : m ∈ nodeMembers node) :
    sizeOf m.2 < sizeOf node := by
  cases node with
  | obj ms =>
    have hmember : sizeOf m.2 < sizeOf ms := Json.sizeOf_lt_of_mem h
    simp only [Json.obj.sizeOf_spec]
    omega
  | _ => cases h

/-- What holds of a node when it holds of the nodes right below, holds of every node. -/
theorem walk_induction {P : Option String → Json → Prop}
    (step : ∀ scope node, (∀ m ∈ nodeMembers node, ∀ ch ∈ children scope m.1 m.2,
      P ch.scope ch.node) → P scope node) (scope : Option String) (node : Json) : P scope node := by
  induction hsize : sizeOf node using Nat.strongRecOn generalizing scope node with
  | _ size ih =>
    refine step scope node fun m hm ch hch => ih (sizeOf ch.node) ?_ ch.scope ch.node rfl
    have hmember := sizeOf_lt_of_mem_nodeMembers hm
    have hbelow := (standsBelow_of_mem_children hch).sizeOf_lt
    omega

/-- A member that a walk visits, the trail to it and the scope in its node. -/
structure Visit where
  trail : Trail
  scope : Option String
  kind : String
  body : Json

/-- The visits in a node and below it. -/
def visits (scope : Option String) (trail : Trail) (node : Json) : List Visit :=
  (nodeMembers node).attach.flatMap fun m =>
    ⟨trail ++ [.member m.1.1], scope, m.1.1, m.1.2⟩ ::
      (children scope m.1.1 m.1.2).attach.flatMap fun ch =>
        visits ch.1.scope (trail ++ ch.1.steps) ch.1.node
termination_by sizeOf node
decreasing_by
  have hmember := sizeOf_lt_of_mem_nodeMembers m.2
  have hbelow := (standsBelow_of_mem_children ch.2).sizeOf_lt
  omega

/-- The visits in a member of a node and below it. -/
def memberVisits (scope : Option String) (trail : Trail) (m : String × Json) : List Visit :=
  ⟨trail ++ [.member m.1], scope, m.1, m.2⟩ ::
    (children scope m.1 m.2).flatMap fun ch => visits ch.scope (trail ++ ch.steps) ch.node

theorem visits_eq (scope : Option String) (trail : Trail) (node : Json) :
    visits scope trail node = (nodeMembers node).flatMap (memberVisits scope trail) := by
  have hattach {α β : Type} (xs : List α) (f : α → List β) :
      (xs.attach.flatMap fun x => f x.1) = xs.flatMap f := by simp
  have hbelow (m : String × Json) := hattach (children scope m.1 m.2) fun ch =>
    visits ch.scope (trail ++ ch.steps) ch.node
  rw [visits]
  simp only [hbelow]
  exact hattach _ (memberVisits scope trail)

theorem visits_keyed (scope : Option String) (trail : Trail) (kind : String) (body : Json) :
    visits scope trail (.keyed kind body) = memberVisits scope trail (kind, body) := by
  rw [visits_eq, Json.keyed, nodeMembers_obj, List.flatMap_singleton]

/-- The findings in a member that is visited. -/
def Visit.findings (catalog : Option Catalog) (v : Visit) : List Finding :=
  (memberProblems catalog v.scope v.kind v.body).map (⟨·, v.trail⟩)

theorem findings_eq_nodeMembers (catalog : Option Catalog) (scope : Option String) (trail : Trail)
    (node : Json) : findings catalog scope trail node = (nodeMembers node).flatMap fun m =>
      (memberProblems catalog scope m.1 m.2).map (⟨·, trail ++ [.member m.1]⟩) ++
        (children scope m.1 m.2).flatMap (childFindings catalog trail) := by
  cases node with
  | obj ms => rw [findings_obj, memberFindings_eq, nodeMembers_obj]
  | _ => rfl

/-- A walk finds what is wrong with the members that it visits, in the order of the visits. -/
theorem findings_eq_visits (catalog : Option Catalog) (scope : Option String) (trail : Trail)
    (node : Json) :
    findings catalog scope trail node =
      (visits scope trail node).flatMap (Visit.findings catalog) := by
  induction scope, node using walk_induction generalizing trail with
  | step scope node ih =>
    rw [findings_eq_nodeMembers, visits_eq, List.flatMap_assoc]
    refine List.flatMap_congr fun m hm => ?_
    rw [memberVisits, List.flatMap_cons, List.flatMap_assoc]
    exact congrArg (_ ++ ·) (List.flatMap_congr fun ch hch => ih m hm ch hch _)

/-- The same visit in a part that stands further down. -/
def Visit.below (outer : Trail) (v : Visit) : Visit := { v with trail := outer ++ v.trail }

/-- The trail to a node is the start of the trails to its members, and has no other part in how the
node is visited. -/
theorem visits_append (scope : Option String) (outer trail : Trail) (node : Json) :
    visits scope (outer ++ trail) node = (visits scope trail node).map (Visit.below outer) := by
  induction scope, node using walk_induction generalizing trail with
  | step scope node ih =>
    rw [visits_eq, visits_eq, List.map_flatMap]
    refine List.flatMap_congr fun m hm => ?_
    rw [memberVisits, memberVisits, List.map_cons, List.map_flatMap, List.append_assoc]
    refine congrArg (_ :: ·) (List.flatMap_congr fun ch hch => ?_)
    rw [List.append_assoc]
    exact ih m hm ch hch _

/-- A member of a node that is reached. -/
def Visited (request : Json) (v : Visit) : Prop :=
  ∃ trail ms, Reached request trail v.scope ms ∧ (v.kind, v.body) ∈ ms ∧
    v.trail = trail ++ [.member v.kind]

theorem Reached.visited {request : Json} {trail : Trail} {scope : Option String}
    {ms : List (String × Json)} (h : Reached request trail scope ms) {v : Visit}
    (hv : v ∈ visits scope trail (.obj ms)) : Visited request v := by
  generalize hnode : Json.obj ms = node at hv
  induction scope, node using walk_induction generalizing trail ms with
  | step scope node ih =>
    subst hnode
    rw [visits_eq] at hv
    obtain ⟨⟨kind, body⟩, hm, hv⟩ := List.mem_flatMap.1 hv
    rcases List.mem_cons.1 hv with rfl | hv
    · exact ⟨trail, ms, h, hm, rfl⟩
    · obtain ⟨⟨steps', inner, node⟩, hch, hv⟩ := List.mem_flatMap.1 hv
      obtain ⟨steps, rfl⟩ := steps_of_mem_children hch
      cases node with
      | obj ms' =>
        exact ih _ hm _ hch (h.down hm (mem_children_iff_descends.1 hch)) rfl hv
      | _ => rw [visits_eq] at hv; cases hv

/-- The visits in a request with a query. -/
def requestVisits (request : Json) : List Visit :=
  match (request.member? "query").filter fun q => !q.isNull with
  | none => []
  | some query => visits none [.member "query"] query

/-- Below a node that is reached nothing is visited that is not visited in the request. -/
theorem Reached.visits_subset {request : Json} {trail : Trail} {scope : Option String}
    {ms : List (String × Json)} (h : Reached request trail scope ms) :
    visits scope trail (.obj ms) ⊆ requestVisits request := by
  induction h with
  | query hquery => simp [requestVisits, hquery, Option.filter, Json.isNull]
  | @down trail scope ms _ _ _ _ _ _ hmem hdescends ih =>
    refine fun v hv => ih ?_
    rw [visits_eq]
    have hchild := mem_children_iff_descends.2 hdescends
    exact List.mem_flatMap.2 ⟨_, hmem,
      List.mem_cons_of_mem _ (List.mem_flatMap.2 ⟨_, hchild, hv⟩)⟩

/-- The visits in a request are those in the nodes that are reached. -/
theorem mem_requestVisits {request : Json} {v : Visit} :
    v ∈ requestVisits request ↔ Visited request v := by
  constructor
  · intro h
    unfold requestVisits at h
    split at h
    · cases h
    · rename_i query hquery
      obtain ⟨hquery, -⟩ := Option.filter_eq_some_iff.1 hquery
      cases query with
      | obj ms => exact (Reached.query hquery).visited h
      | _ => rw [visits_eq] at h; cases h
  · rintro ⟨trail, ms, hreached, hmem, htrail⟩
    refine hreached.visits_subset ?_
    rw [visits_eq]
    exact List.mem_flatMap.2 ⟨_, hmem, List.mem_cons.2 (.inl (by rw [← htrail]))⟩

/-- A request without a query has one finding; any other has those of its visits. -/
theorem requestFindings_eq_visits (catalog : Option Catalog) (request : Json) :
    requestFindings catalog request =
      if ((request.member? "query").filter fun q => !q.isNull).isNone then
        [⟨.missingQuery, [.member "query"]⟩]
      else (requestVisits request).flatMap (Visit.findings catalog) := by
  unfold requestFindings requestVisits
  split
  · simp [*]
  · simp [*, findings_eq_visits]

end SearchQuery.Lint
