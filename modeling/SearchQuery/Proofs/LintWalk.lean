import SearchQuery.Lint.Walk
import Mathlib.Data.List.Basic

/-! # One step of the walk

The walk from a node visits the nodes in the slots of its members. Here these nodes are listed, and
the findings in a node become those of its members, each followed by the findings in the nodes
below it: the equation on which everything else about the walk is built. -/
namespace SearchQuery.Lint

/-- A node below a member, the steps to it from the node above and the scope in it. -/
structure Child where
  steps : Trail
  scope : Option String
  node : Json

/-- The nodes in a slot of a body. -/
def slotChildren (scope : Option String) (steps : Trail) (parts : List (String × Json))
    (slot : String × Slot) : List Child :=
  match parts.lookup slot.1 with
  | some (.arr items) =>
    if slot.2.takesMany then
      items.zipIdx.map fun item => ⟨steps ++ [.member slot.1, .index item.2], scope, item.1⟩
    else []
  | some (.obj members) =>
    if slot.2.takesOne then [⟨steps ++ [.member slot.1], scope, .obj members⟩] else []
  | _ => []

/-- The nodes below a member of a node. -/
def children (scope : Option String) (kind : String) (body : Json) : List Child :=
  match innerScope? scope kind body, body with
  | some inner, .obj parts => (slots kind).flatMap (slotChildren inner [.member kind] parts)
  | _, _ => []

section Equations

variable (catalog : Option Catalog)

/-- The findings in a node that is reached from a trail. -/
def childFindings (trail : Trail) (ch : Child) : List Finding :=
  findings catalog ch.scope (trail ++ ch.steps) ch.node

theorem itemFindings_eq (scope : Option String) (trail : Trail) (i : Nat) (items : List Json) :
    itemFindings catalog scope trail i items =
      (items.zipIdx i).flatMap fun item =>
        findings catalog scope (trail ++ [.index item.2]) item.1 := by
  induction items generalizing i with
  | nil => rw [itemFindings]; rfl
  | cons item items ih => rw [itemFindings, ih, List.zipIdx_cons, List.flatMap_cons]

theorem slotFindings_eq (scope : Option String) (trail steps : Trail) (slot : String × Slot)
    (parts : List (String × Json)) :
    slotFindings catalog scope (trail ++ steps) slot.1 slot.2 parts =
      (slotChildren scope steps parts slot).flatMap (childFindings catalog trail) := by
  induction parts with
  | nil => rw [slotFindings]; rfl
  | cons part parts ih =>
    obtain ⟨key, value⟩ := part
    by_cases hkey : key = slot.1
    · subst hkey
      cases value with
      | arr items =>
        by_cases hmany : slot.2.takesMany
        · simp [slotFindings, slotChildren, hmany, itemFindings_eq, List.flatMap_map,
            childFindings, List.append_assoc]
        · simp [slotFindings, slotChildren, hmany]
      | obj members =>
        by_cases hone : slot.2.takesOne
        · simp [slotFindings, slotChildren, hone, childFindings, findings, List.append_assoc]
        · simp [slotFindings, slotChildren, hone]
      | _ => simp [slotFindings, slotChildren]
    · have hlookup : List.lookup slot.1 ((key, value) :: parts) = parts.lookup slot.1 := by
        simp [List.lookup_cons, beq_false_of_ne (Ne.symm hkey)]
      have hrest :
          slotFindings catalog scope (trail ++ steps) slot.1 slot.2 ((key, value) :: parts) =
            slotFindings catalog scope (trail ++ steps) slot.1 slot.2 parts := by
        cases value <;> simp [slotFindings, hkey]
      rw [hrest, ih]
      simp only [slotChildren, hlookup]

theorem flatMap_slotFindings (scope : Option String) (trail : Trail) (kind : String)
    (body : Json) :
    (match innerScope? scope kind body, body with
      | some inner, .obj parts => (slots kind).flatMap fun s =>
          slotFindings catalog inner (trail ++ [.member kind]) s.1 s.2 parts
      | _, _ => []) = (children scope kind body).flatMap (childFindings catalog trail) := by
  cases body with
  | obj parts =>
    cases hscope : innerScope? scope kind (.obj parts) with
    | none => simp [children, hscope]
    | some inner => simp [children, hscope, slotFindings_eq, List.flatMap_assoc]
  | _ => simp [children]

/-- The findings in the members of a node, and after those of each the findings below it. -/
theorem memberFindings_eq (scope : Option String) (trail : Trail) (ms : List (String × Json)) :
    memberFindings catalog scope trail ms = ms.flatMap fun m =>
      (memberProblems catalog scope m.1 m.2).map (⟨·, trail ++ [.member m.1]⟩) ++
        (children scope m.1 m.2).flatMap (childFindings catalog trail) := by
  induction ms with
  | nil => rw [memberFindings]; rfl
  | cons m ms ih =>
    rw [List.flatMap_cons, ← ih, ← flatMap_slotFindings]
    exact memberFindings.eq_def catalog scope trail (m :: ms)

theorem findings_obj (scope : Option String) (trail : Trail) (ms : List (String × Json)) :
    findings catalog scope trail (.obj ms) = memberFindings catalog scope trail ms := by
  rw [findings]

end Equations

end SearchQuery.Lint
