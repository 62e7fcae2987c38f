import SearchQuery.Proofs.Breadcrumbs
import SearchQuery.Proofs.WrappedQueries
import Mathlib.Data.List.Forall2
import Mathlib.Data.List.Perm.Basic

/-! # The order of members

An object has its members in an order, and a walk visits them in it. So a lint of a document with
the members of its objects in another order has the same messages, though not always in the same
order. The order of the members does not matter at all where a query node has just one of them. -/
namespace SearchQuery

namespace Json

/-- Two values that differ at most in the order of the members of objects, at any levels. -/
inductive Reordered : Json → Json → Prop
  | null : Reordered .null .null
  | bool (b) : Reordered (.bool b) (.bool b)
  | num (n) : Reordered (.num n) (.num n)
  | str (s) : Reordered (.str s) (.str s)
  | arr {xs ys} (hitems : List.Forall₂ Reordered xs ys) : Reordered (.arr xs) (.arr ys)
  | obj {ms ms' ns} (horder : ms.Perm ms') (hnames : ms'.map Prod.fst = ns.map Prod.fst)
      (hvalues : List.Forall₂ Reordered (ms'.map Prod.snd) (ns.map Prod.snd)) :
      Reordered (.obj ms) (.obj ns)

/-- Members that have the same names in the same order, and values that may be reordered. -/
abbrev ReorderedValues (ms ns : List (String × Json)) : Prop :=
  List.Forall₂ (fun m n => m.1 = n.1 ∧ Reordered m.2 n.2) ms ns

theorem reorderedValues_of_map {ms ns : List (String × Json)}
    (hnames : ms.map Prod.fst = ns.map Prod.fst)
    (hvalues : List.Forall₂ Reordered (ms.map Prod.snd) (ns.map Prod.snd)) :
    ReorderedValues ms ns := by
  rw [← List.forall₂_eq_eq_eq, List.forall₂_map_left_iff, List.forall₂_map_right_iff] at hnames
  rw [List.forall₂_map_left_iff, List.forall₂_map_right_iff] at hvalues
  exact hnames.mp (fun _ _ hname hvalue => ⟨hname, hvalue⟩) hvalues

namespace Reordered

theorem refl (a : Json) : Reordered a a := by
  match a with
  | .null => exact .null
  | .bool b => exact .bool b
  | .num n => exact .num n
  | .str s => exact .str s
  | .arr xs =>
    refine .arr (List.forall₂_same.2 fun x hx => ?_)
    have hitem := List.sizeOf_lt_of_mem hx
    exact refl x
  | .obj ms =>
    refine .obj (.refl ms) rfl (List.forall₂_same.2 fun v hv => ?_)
    obtain ⟨m, hm, rfl⟩ := List.mem_map.1 hv
    have hmember : sizeOf m.2 < sizeOf ms := sizeOf_lt_of_mem hm
    exact refl m.2
termination_by sizeOf a
decreasing_by all_goals simp; omega

theorem of_perm {ms ns : List (String × Json)} (h : ms.Perm ns) : Reordered (.obj ms) (.obj ns) :=
  .obj h rfl (List.forall₂_same.2 fun v _ => refl v)

variable {a b : Json}

theorem exists_values {ms : List (String × Json)} (h : Reordered (.obj ms) b) :
    ∃ ms' ns, b = .obj ns ∧ ms.Perm ms' ∧ ReorderedValues ms' ns := by
  cases h with
  | obj horder hnames hvalues => exact ⟨_, _, rfl, horder, reorderedValues_of_map hnames hvalues⟩

/-- Under each name stand values that differ at most in the order of members. -/
theorem member? (h : Reordered a b) (hdistinct : a.DistinctNames) (name : String) :
    Option.Rel Reordered (a.member? name) (b.member? name) := by
  cases h with
  | obj horder hnames hvalues =>
    have hlookup := lookup_perm horder (distinctNames_obj.1 hdistinct).1 name
    rw [Json.member?, Json.member?, hlookup]
    exact rel_lookup (R := fun _ => Reordered) (reorderedValues_of_map hnames hvalues) name
  | _ => exact .none

theorem text?_member_eq (h : Reordered a b) (hdistinct : a.DistinctNames) (name : String) :
    (a.member? name).bind Json.text? = (b.member? name).bind Json.text? := by
  have hvalues := h.member? hdistinct name
  generalize a.member? name = v?, b.member? name = w? at hvalues
  cases hvalues with
  | none => rfl
  | some hvalue => cases hvalue <;> rfl

end Reordered

end Json

namespace Lint

open Json (Reordered ReorderedValues)

variable {catalog : Option Catalog} {request : Json} {scope : Option String} {trail : Trail}
  {kind : String} {body body' : Json} {ms ms' : List (String × Json)}

/-- The members of a body that can be taken for its field. -/
def fieldMembers (parts : List (String × Json)) : List (String × Json) :=
  parts.filter fun m => !parameters.contains m.1

/-- No leaf of a request leaves it to the order of members which of them is its field. -/
def FieldsClear (request : Json) : Prop :=
  ∀ {trail scope ms kind parts}, Reached request trail scope ms → (kind, .obj parts) ∈ ms →
    kind ∈ fieldKinds → (fieldMembers parts).length ≤ 1

/-- No query node of a request has more than one member. -/
def SingleMembers (request : Json) : Prop :=
  ∀ {trail scope ms}, Reached request trail scope ms → ms.length ≤ 1

section Members

theorem keyedField?_obj (parts : List (String × Json)) :
    keyedField? (.obj parts) = ((fieldMembers parts).map Prod.fst).head? := by
  rw [keyedField?, Json.members?, Option.getD_some, List.find?_map, List.head?_map, fieldMembers,
    List.head?_filter]
  rfl

theorem keyedField?_reordered (h : Reordered body body')
    (hclear : ∀ parts, body = .obj parts → (fieldMembers parts).length ≤ 1) :
    keyedField? body = keyedField? body' := by
  cases h with
  | @obj parts parts' others horder hnames hvalues =>
    have hsame : fieldMembers parts = fieldMembers parts' :=
      eq_of_perm_of_length_le_one (horder.filter _) (hclear parts rfl)
    have hfields (ps : List (String × Json)) : (fieldMembers ps).map Prod.fst =
        (ps.map Prod.fst).filter fun name => !parameters.contains name := by
      rw [List.filter_map]
      rfl
    rw [keyedField?_obj, keyedField?_obj, hsame, hfields, hfields, hnames]
  | _ => rfl

theorem field?_reordered (h : Reordered body body') (hdistinct : body.DistinctNames)
    (hclear : kind ∈ fieldKinds → ∀ parts, body = .obj parts → (fieldMembers parts).length ≤ 1) :
    field? kind body = field? kind body' := by
  unfold field?
  rw [h.text?_member_eq hdistinct, h.text?_member_eq hdistinct]
  split_ifs with hexists hstring hkind
  · rfl
  · rfl
  · exact keyedField?_reordered h (hclear (List.contains_iff_mem.1 hkind))
  · rfl

theorem nestedPath?_reordered (h : Reordered body body') (hdistinct : body.DistinctNames) :
    nestedPath? body = nestedPath? body' :=
  h.text?_member_eq hdistinct "path"

/-- What is wrong with a member has nothing to do with the order of the members of its body. -/
theorem memberProblems_reordered (h : Reordered body body') (hdistinct : body.DistinctNames)
    (hclear : kind ∈ fieldKinds → ∀ parts, body = .obj parts → (fieldMembers parts).length ≤ 1) :
    memberProblems catalog scope kind body = memberProblems catalog scope kind body' := by
  unfold memberProblems pathProblems
  rw [nestedPath?_reordered h hdistinct, field?_reordered h hdistinct hclear]

end Members

section Children

/-- The same node in the same scope, reordered. -/
structure ReorderedChild (ch ch' : Child) : Prop where
  steps : ch.steps = ch'.steps
  scope : ch.scope = ch'.scope
  node : Reordered ch.node ch'.node

theorem reorderedChild_items {xs ys : List Json} (h : List.Forall₂ Reordered xs ys)
    (steps : Nat → Trail) (scope : Option String) (k : Nat) :
    List.Forall₂ ReorderedChild ((xs.zipIdx k).map fun item => ⟨steps item.2, scope, item.1⟩)
      ((ys.zipIdx k).map fun item => ⟨steps item.2, scope, item.1⟩) := by
  induction h generalizing k with
  | nil => exact .nil
  | cons hxy h ih => exact .cons ⟨rfl, rfl, hxy⟩ (ih (k + 1))

theorem slotChildren_reordered {steps : Trail} {parts parts' : List (String × Json)}
    {slot : String × Slot} (h : Option.Rel Reordered (parts.lookup slot.1) (parts'.lookup slot.1)) :
    List.Forall₂ ReorderedChild (slotChildren scope steps parts slot)
      (slotChildren scope steps parts' slot) := by
  unfold slotChildren
  generalize parts.lookup slot.1 = v?, parts'.lookup slot.1 = w? at h
  cases h with
  | none => exact .nil
  | some hvalue =>
    cases hvalue with
    | arr hitems =>
      simp only
      split
      · exact reorderedChild_items hitems (fun i => steps ++ [.member slot.1, .index i]) scope 0
      · exact .nil
    | obj horder hnames hvalues =>
      simp only
      split
      · exact .cons ⟨rfl, rfl, .obj horder hnames hvalues⟩ .nil
      · exact .nil
    | _ => exact .nil

/-- The nodes below a member stand in its slots whatever the order of these. -/
theorem children_reordered (h : Reordered body body') (hdistinct : body.DistinctNames) :
    List.Forall₂ ReorderedChild (children scope kind body) (children scope kind body') := by
  have hscope : innerScope? scope kind body = innerScope? scope kind body' := by
    unfold innerScope?
    rw [nestedPath?_reordered h hdistinct]
  have hmembers := h.member? hdistinct
  unfold children
  rw [← hscope]
  cases h with
  | @obj parts parts' others horder hnames hvalues =>
    cases innerScope? scope kind (.obj parts) with
    | none => exact .nil
    | some inner =>
      refine List.rel_flatMap (List.forall₂_same.2 fun _ _ => rfl) ?_
      rintro slot _ rfl
      exact slotChildren_reordered (hmembers slot.1)
  | _ => cases innerScope? scope kind _ <;> exact .nil

end Children

/-- The nodes that are reached are among some nodes that hold the query and all below them. -/
theorem Reached.mem_of_closed {nodes : List (List (String × Json))}
    (hquery : ∀ ms, request.member? "query" = some (.obj ms) → ms ∈ nodes)
    (hclosed : ∀ ms ∈ nodes, ∀ m ∈ ms, ∀ scope, ∀ ch ∈ children scope m.1 m.2,
      nodeMembers ch.node ∈ nodes) (h : Reached request trail scope ms) : ms ∈ nodes := by
  induction h with
  | query hms => exact hquery _ hms
  | down _ hmem hdescends ih =>
    exact hclosed _ ih _ hmem _ _ (mem_children_iff_descends.2 hdescends)

section Runs

/-- A relation between lists of findings that holds of joined lists when it holds of their parts. -/
structure Joins (R : List Finding → List Finding → Prop) : Prop where
  refl (fs) : R fs fs
  trans {fs gs hs} (h : R fs gs) (h' : R gs hs) : R fs hs
  append {fs fs' gs gs'} (h : R fs gs) (h' : R fs' gs') : R (fs ++ fs') (gs ++ gs')

theorem joins_perm : Joins List.Perm := ⟨.refl, .trans, .append⟩

theorem joins_eq : Joins Eq := ⟨fun _ => rfl, .trans, congrArg₂ _⟩

variable {R : List Finding → List Finding → Prop}

theorem Joins.flatMap {α β : Type} {S : α → β → Prop} {xs : List α} {ys : List β}
    {f : α → List Finding} {g : β → List Finding} (hR : Joins R) (h : List.Forall₂ S xs ys)
    (hparts : ∀ x ∈ xs, ∀ y, S x y → R (f x) (g y)) : R (xs.flatMap f) (ys.flatMap g) := by
  induction h with
  | nil => exact hR.refl []
  | @cons x y xs ys hxy h ih =>
    obtain ⟨hx, hxs⟩ := List.forall_mem_cons.1 hparts
    exact hR.append (hx y hxy) (ih hxs)

/-- What a walk finds in a reordered node is related to what it finds in the node, when the findings
in the members of each node are related to those in the same members in another order. -/
theorem Reached.findings_related (hR : Joins R) (hclear : FieldsClear request)
    (hswap : ∀ {trail scope ms ms'}, Reached request trail scope ms → ms.Perm ms' →
      R (memberFindings catalog scope trail ms) (memberFindings catalog scope trail ms'))
    (hreached : Reached request trail scope ms) (hdistinct : Json.DistinctNames (.obj ms))
    {node' : Json} (h : Reordered (.obj ms) node') :
    R (findings catalog scope trail (.obj ms)) (findings catalog scope trail node') := by
  generalize hnode : Json.obj ms = node at hdistinct h
  induction scope, node using walk_induction generalizing trail ms node' with
  | step scope node ih =>
    subst hnode
    obtain ⟨ms', ns, rfl, horder, hvalues⟩ := h.exists_values
    rw [findings_obj, findings_obj]
    -- first the members change places, and then each one is compared with its reordered body
    refine hR.trans (hswap hreached horder) ?_
    rw [memberFindings_eq, memberFindings_eq]
    refine hR.flatMap hvalues ?_
    rintro ⟨kind, body⟩ hm ⟨_, body'⟩ ⟨rfl, hbody⟩
    have hm := horder.mem_iff.2 hm
    have hbodyDistinct : body.DistinctNames := hdistinct.of_mem hm
    have hproblems :
        memberProblems catalog scope kind body = memberProblems catalog scope kind body' :=
      memberProblems_reordered hbody hbodyDistinct fun hkind parts hparts =>
        hclear hreached (hparts ▸ hm) hkind
    simp only [hproblems]
    refine hR.append (hR.refl _) (hR.flatMap (children_reordered hbody hbodyDistinct) ?_)
    rintro ⟨steps', inner, child⟩ hch ⟨_, _, child'⟩ ⟨rfl, rfl, hchild⟩
    obtain ⟨steps, rfl⟩ := steps_of_mem_children hch
    cases child with
    | obj ms' =>
      have hbelow := (standsBelow_of_mem_children hch).distinctNames hbodyDistinct
      exact ih _ hm _ hch (hreached.down hm (mem_children_iff_descends.1 hch)) rfl hbelow hchild
    | _ => cases hchild; exact hR.refl _

theorem requestFindings_related (hR : Joins R) {request' : Json} (hdistinct : request.DistinctNames)
    (h : Reordered request request') (hclear : FieldsClear request)
    (hswap : ∀ {trail scope ms ms'}, Reached request trail scope ms → ms.Perm ms' →
      R (memberFindings catalog scope trail ms) (memberFindings catalog scope trail ms')) :
    R (requestFindings catalog request) (requestFindings catalog request') := by
  have hquery := h.member? hdistinct "query"
  unfold requestFindings
  generalize hfound : request.member? "query" = query?, request'.member? "query" = query?' at hquery
  cases hquery with
  | none => exact hR.refl _
  | @some query query' hvalue =>
    cases query with
    | obj ms =>
      obtain ⟨_, ns, rfl, -, -⟩ := hvalue.exists_values
      exact (Reached.query hfound).findings_related hR hclear hswap
        (hdistinct.of_member? hfound) hvalue
    | _ => cases hvalue; exact hR.refl _

theorem requestFindings_perm {request' : Json} (hdistinct : request.DistinctNames)
    (hclear : FieldsClear request) (h : Reordered request request') :
    (requestFindings catalog request).Perm (requestFindings catalog request') := by
  refine requestFindings_related joins_perm hdistinct h hclear fun _ horder => ?_
  rw [memberFindings_eq, memberFindings_eq]
  exact horder.flatMap_right _

/-- The messages on a request that is read from a text are those on every one in another order. -/
theorem messages_perm_of_read? {text : String} {request' : Json}
    (hread : Json.read? .json text = some request) (hclear : FieldsClear request)
    (h : Reordered request request') :
    (lint catalog request).messages.Perm (lint catalog request').messages :=
  (requestFindings_perm (Json.distinctNames_of_read? hread) hclear h).map Finding.message

end Runs

/-- A lint of a request in which the members of objects stand in another order has the same messages
up to their order and the same outcome, as long as no leaf leaves it to the order which member is
its field. The order is the same as well when no node has more than one member. -/
theorem lint_reordered (catalog : Option Catalog) {request request' : Json}
    (hdistinct : request.DistinctNames) (hclear : FieldsClear request)
    (h : Reordered request request') :
    (lint catalog request).messages.Perm (lint catalog request').messages ∧
      (lint catalog request).ok = (lint catalog request').ok ∧
      (SingleMembers request → lint catalog request = lint catalog request') := by
  have hperm : (requestFindings catalog request).Perm (requestFindings catalog request') :=
    requestFindings_perm hdistinct hclear h
  have hmessages := hperm.map Finding.message
  refine ⟨hmessages, ?_, fun hsingle => ?_⟩
  · exact congrArg not (hmessages.any_eq (f := fun m => m.level = .error))
  · have heq : requestFindings catalog request = requestFindings catalog request' := by
      refine requestFindings_related joins_eq hdistinct h hclear fun hreached horder => ?_
      rw [eq_of_perm_of_length_le_one horder (hsingle hreached)]
    rw [lint, lint, heq]

/-- Two leaves in one node, the first with a parameter in front of its field. -/
def leavesNode : List (String × Json) :=
  [("term", .obj [("boost", .num (.int 2)), ("items.sku", .str "x")]),
    ("query_string", .keyed "query" (.str "cup"))]

def leavesRequest : Json := .obj [("size", .num (.int 0)), ("query", .obj leavesNode)]

def leavesReordered : Json :=
  .obj [("query", .obj [("query_string", .keyed "query" (.str "cup")),
    ("term", .obj [("items.sku", .str "x"), ("boost", .num (.int 2))])]), ("size", .num (.int 0))]

def bucketsRequest : Json :=
  .keyed "query" (.keyed "bool" (.obj [("should", .obj fragileNode), ("must", .obj skuTerm)]))

def bucketsReordered : Json :=
  .keyed "query" (.keyed "bool" (.obj [("must", .obj skuTerm), ("should", .obj fragileNode)]))

theorem mem_of_reached_leavesRequest (h : Reached leavesRequest trail scope ms) :
    ms ∈ [leavesNode] := by
  refine h.mem_of_closed (fun ms hms => ?_) ?_
  · obtain rfl : leavesNode = ms := Json.obj.inj (Option.some.inj hms)
    exact List.mem_singleton_self _
  · intro ms hms m hm scope ch hch
    obtain rfl := List.mem_singleton.1 hms
    simp only [leavesNode, List.mem_cons, List.not_mem_nil, or_false] at hm
    rcases hm with rfl | rfl <;> cases hch

theorem mem_of_reached_bucketsRequest (h : Reached bucketsRequest trail scope ms) :
    ms ∈ [[("bool", .obj [("should", .obj fragileNode), ("must", .obj skuTerm)])], skuTerm,
      fragileNode] := by
  refine h.mem_of_closed (fun ms hms => ?_) ?_
  · obtain rfl := Json.obj.inj (Option.some.inj hms)
    exact List.mem_cons_self
  · intro ms hms m hm scope ch hch
    simp only [List.mem_cons, List.not_mem_nil, or_false] at hms
    rcases hms with rfl | rfl | rfl <;> obtain rfl := List.mem_singleton.1 hm
    · have hbuckets : ch = ⟨[.member "bool", .member "must"], scope, .obj skuTerm⟩ ∨
          ch = ⟨[.member "bool", .member "should"], scope, .obj fragileNode⟩ := by
        simpa [children, innerScope?, slots, Clause.all, Clause.name, slotChildren,
          List.lookup_cons, Slot.takesOne] using hch
      rcases hbuckets with rfl | rfl <;> simp
    · cases hch
    · cases hch

theorem fieldsClear_leavesRequest : FieldsClear leavesRequest := by
  intro trail scope ms kind parts hreached hm _
  obtain rfl := List.mem_singleton.1 (mem_of_reached_leavesRequest hreached)
  simp only [leavesNode, List.mem_cons, List.not_mem_nil, or_false, Prod.mk.injEq,
    Json.obj.injEq, Json.keyed] at hm
  rcases hm with ⟨-, rfl⟩ | ⟨-, rfl⟩ <;> decide

theorem fieldsClear_bucketsRequest : FieldsClear bucketsRequest := by
  intro trail scope ms kind parts hreached hm hkind
  have hms := mem_of_reached_bucketsRequest hreached
  simp only [List.mem_cons, List.not_mem_nil, or_false] at hms
  rcases hms with rfl | rfl | rfl <;>
    obtain ⟨rfl, hparts⟩ := Prod.mk.inj (List.mem_singleton.1 hm)
  · simp [fieldKinds] at hkind
  · obtain rfl := Json.obj.inj hparts
    decide
  · simp [fieldKinds] at hkind

theorem singleMembers_bucketsRequest : SingleMembers bucketsRequest := by
  intro trail scope ms hreached
  have hms := mem_of_reached_bucketsRequest hreached
  simp only [List.mem_cons, List.not_mem_nil, or_false] at hms
  rcases hms with rfl | rfl | rfl <;> decide

theorem reordered_leavesRequest : Reordered leavesRequest leavesReordered := by
  have hterm := Reordered.of_perm (.swap ("items.sku", .str "x") ("boost", .num (.int 2)) [])
  refine .obj (.swap _ _ []) rfl (.cons ?_ (.cons (.refl _) .nil))
  exact .obj (.swap _ _ []) rfl (.cons (.refl _) (.cons hterm .nil))

theorem reordered_bucketsRequest : Reordered bucketsRequest bucketsReordered := by
  have hbuckets := Reordered.of_perm (.swap ("must", .obj skuTerm) ("should", .obj fragileNode) [])
  exact .obj (.refl _) rfl (.cons (.obj (.refl _) rfl (.cons hbuckets .nil)) .nil)

/-- The messages on two leaves change places with the leaves, those on two buckets do not. -/
theorem leaves_reordered :
    (leavesRequest.DistinctNames ∧ FieldsClear leavesRequest ∧
      Reordered leavesRequest leavesReordered) ∧
    (lint (some itemsCatalog) leavesRequest).messages.map Message.path =
      ["query.term", "query.query_string"] ∧
    (lint (some itemsCatalog) leavesReordered).messages.map Message.path =
      ["query.query_string", "query.term"] ∧
    (lint (some itemsCatalog) leavesRequest).messages.Perm
      (lint (some itemsCatalog) leavesReordered).messages ∧
    (bucketsRequest.DistinctNames ∧ FieldsClear bucketsRequest ∧
      Reordered bucketsRequest bucketsReordered ∧ SingleMembers bucketsRequest) ∧
    lint (some itemsCatalog) bucketsRequest = lint (some itemsCatalog) bucketsReordered := by
  have hleaves : leavesRequest.DistinctNames := by
    simp [leavesRequest, leavesNode, Json.keyed]
  have hbuckets : bucketsRequest.DistinctNames := by
    simp [bucketsRequest, skuTerm, fragileNode, Json.keyed]
  exact ⟨⟨hleaves, fieldsClear_leavesRequest, reordered_leavesRequest⟩, by decide, by decide,
    (lint_reordered _ hleaves fieldsClear_leavesRequest reordered_leavesRequest).1,
    ⟨hbuckets, fieldsClear_bucketsRequest, reordered_bucketsRequest,
      singleMembers_bucketsRequest⟩,
    (lint_reordered _ hbuckets fieldsClear_bucketsRequest reordered_bucketsRequest).2.2
      singleMembers_bucketsRequest⟩

end Lint
end SearchQuery
