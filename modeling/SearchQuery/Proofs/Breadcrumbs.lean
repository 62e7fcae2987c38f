import SearchQuery.Proofs.NodeTrails
import SearchQuery.Proofs.TrailReading
import SearchQuery.Proofs.WalkVisits

/-! # The paths of messages

The path of a message is read as a trail that leads from the query of a document to one of its
members, the one that is wrong. No two members share a path. At most two things are wrong with one
member: the scope of its field, which is an error, and then its type, which is a warning. -/
namespace SearchQuery.Lint

variable {catalog : Option Catalog} {request : Json} {scope : Option String} {kind : String}
  {body node : Json} {steps trail : Trail} {ms : List (String × Json)} {problem : Problem}

section Places

theorem StandsBelow.exists_leads (h : StandsBelow kind body steps node) (hmem : (kind, body) ∈ ms) :
    ∃ place, Leads (.obj ms) place steps node := by
  obtain ⟨outer, houter⟩ := Leads.of_mem hmem
  cases h with
  | node hnode =>
    obtain ⟨place, hleads⟩ := Leads.of_member? hnode
    exact ⟨_, houter.append hleads⟩
  | item hitems hnode =>
    obtain ⟨place, hleads⟩ := Leads.of_member? hitems
    exact ⟨_, houter.append (hleads.append (.item hnode .here))⟩

theorem Reached.exists_leads (h : Reached request trail scope ms) :
    ∃ place, Leads request place trail (.obj ms) := by
  induction h with
  | query hquery => exact Leads.of_member? hquery
  | down _ hmem hdescends ih =>
    obtain ⟨outer, houter⟩ := ih
    have hbelow := standsBelow_of_mem_children (mem_children_iff_descends.2 hdescends)
    obtain ⟨place, hleads⟩ := hbelow.exists_leads hmem
    exact ⟨_, houter.append hleads⟩

/-- The member of a reached node stands at some place. -/
theorem Reached.exists_leads_member (h : Reached request trail scope ms)
    (hmem : (kind, body) ∈ ms) :
    ∃ place, Leads request place (trail ++ [.member kind]) body := by
  obtain ⟨outer, houter⟩ := h.exists_leads
  obtain ⟨place, hleads⟩ := Leads.of_mem hmem
  exact ⟨_, houter.append hleads⟩

theorem Reached.exists_cons (h : Reached request trail scope ms) :
    ∃ rest, trail = .member "query" :: rest := by
  induction h with
  | query => exact ⟨[], rfl⟩
  | down _ _ _ ih =>
    obtain ⟨rest, rfl⟩ := ih
    exact ⟨_, rfl⟩

theorem Names.isPlainStep {name : String} (h : Names kind body name) :
    Trail.IsPlainStep (.member kind) := by
  cases h with
  | «exists» | queryString => simp [Trail.IsPlainStep, Trail.isMark]
  | keyed hkind =>
    simp only [fieldKinds, List.mem_cons, List.not_mem_nil, or_false] at hkind
    rcases hkind with rfl | rfl | rfl | rfl | rfl | rfl | rfl | rfl | rfl | rfl <;>
      simp [Trail.IsPlainStep, Trail.isMark]

/-- Nothing is wrong with a member whose name could be taken for several steps. -/
theorem Reports.isPlainStep (h : Reports catalog scope kind body problem) :
    Trail.IsPlainStep (.member kind) := by
  cases h with
  | nestedWithoutPath | unknownNestedPath | queryString =>
    simp [Trail.IsPlainStep, Trail.isMark]
  | outsideNested hnames | exactOnText _ hnames | matchOnKeyword _ hnames | rangeOn hnames =>
    exact hnames.isPlainStep

theorem Reached.isPlain_reports (h : Reached request trail scope ms)
    (hreports : Reports catalog scope kind body problem) :
    Trail.IsPlain (trail ++ [.member kind]) := by
  intro step hstep
  rcases List.mem_append.1 hstep with hstep | hstep
  · exact h.isPlain step hstep
  · obtain rfl := List.mem_singleton.1 hstep
    exact hreports.isPlainStep

end Places

section Apart

theorem append_of_mem_visits {v : Visit} (h : v ∈ visits scope trail node) :
    ∃ rest, v.trail = trail ++ rest := by
  have happend := visits_append scope trail [] node
  rw [List.append_nil] at happend
  obtain ⟨w, -, rfl⟩ := List.mem_map.1 (happend ▸ h)
  exact ⟨w.trail, rfl⟩

theorem trail_of_mem_memberVisits {m : String × Json} {v : Visit}
    (h : v ∈ memberVisits scope trail m) : ∃ rest, v.trail = trail ++ .member m.1 :: rest := by
  rcases List.mem_cons.1 h with rfl | hv
  · exact ⟨[], rfl⟩
  · obtain ⟨ch, hch, hv⟩ := List.mem_flatMap.1 hv
    obtain ⟨steps, hsteps⟩ := steps_of_mem_children hch
    obtain ⟨rest, hrest⟩ := append_of_mem_visits hv
    exact ⟨steps ++ rest, by rw [hrest, hsteps, List.append_assoc, List.cons_append]⟩

/-- The trail of a visit leads to a member of the node and further. -/
theorem trail_of_mem_visits {v : Visit} (h : v ∈ visits scope trail node) :
    ∃ name rest, v.trail = trail ++ .member name :: rest := by
  rw [visits_eq] at h
  obtain ⟨m, -, hv⟩ := List.mem_flatMap.1 h
  exact ⟨m.1, trail_of_mem_memberVisits hv⟩

theorem StandsBelow.distinctNames (h : StandsBelow kind body steps node)
    (hbody : body.DistinctNames) : node.DistinctNames := by
  cases h with
  | node hnode => exact hbody.of_member? hnode
  | item hitems hnode =>
    exact Json.distinctNames_arr.1 (hbody.of_member? hitems) _ (List.mem_of_getElem? hnode)

/-- Of two nodes below a member none has its members on the trail to the other. -/
theorem StandsBelow.append_inj {steps' rest rest' : Trail} {node' : Json} {name name' : String}
    (h : StandsBelow kind body steps node) (h' : StandsBelow kind body steps' node')
    (heq : trail ++ steps ++ .member name :: rest = trail ++ steps' ++ .member name' :: rest') :
    steps = steps' := by
  -- after the slot an index comes in the one and a member in the other, or both are of one length
  cases h <;> cases h' <;> simp_all

theorem distinctNames_of_mem_nodeMembers {m : String × Json} (h : node.DistinctNames)
    (hm : m ∈ nodeMembers node) : m.2.DistinctNames := by
  cases node with
  | obj ms => exact h.of_mem hm
  | _ => cases hm

theorem nodup_nodeMembers (h : node.DistinctNames) : ((nodeMembers node).map Prod.fst).Nodup := by
  cases node with
  | obj ms => exact (Json.distinctNames_obj.1 h).1
  | _ => exact .nil

theorem nodup_slots (kind : String) : ((slots kind).map Prod.fst).Nodup := by
  unfold slots
  split_ifs <;> decide

theorem slotChildren_apart (scope : Option String) (steps : Trail) (parts : List (String × Json))
    (slot : String × Slot) :
    (slotChildren scope steps parts slot).Pairwise fun a b => a.steps ≠ b.steps := by
  unfold slotChildren
  split
  · rename_i items _
    split_ifs
    · have hindices : (items.zipIdx.map Prod.snd).Nodup := by
        rw [List.zipIdx_map_snd]
        exact List.nodup_range'
      rw [List.pairwise_map]
      exact (List.pairwise_map.1 hindices).imp fun hne => by simpa using hne
    · exact .nil
  · split_ifs
    · exact List.pairwise_singleton ..
    · exact .nil
  · exact .nil

theorem children_apart (scope : Option String) (kind : String) (body : Json) :
    (children scope kind body).Pairwise fun a b => a.steps ≠ b.steps := by
  unfold children
  split
  · rw [List.pairwise_flatMap]
    refine ⟨fun slot _ => slotChildren_apart .., ?_⟩
    refine (List.pairwise_map.1 (nodup_slots kind)).imp fun {slot slot'} hslots a ha b hb heq => ?_
    rcases mem_slotChildren_cases ha with ⟨-, hsteps⟩ | ⟨_, _, -, -, hsteps⟩ <;>
      rcases mem_slotChildren_cases hb with ⟨-, hsteps'⟩ | ⟨_, _, -, -, hsteps'⟩ <;>
        simp [hsteps, hsteps', hslots] at heq
  · exact .nil

theorem memberVisits_apart {m : String × Json}
    (hbelow : ∀ ch ∈ children scope m.1 m.2,
      (visits ch.scope (trail ++ ch.steps) ch.node).Pairwise fun v w => v.trail ≠ w.trail) :
    (memberVisits scope trail m).Pairwise fun v w => v.trail ≠ w.trail := by
  refine List.pairwise_cons.2 ⟨fun v hv heq => ?_, List.pairwise_flatMap.2 ⟨hbelow, ?_⟩⟩
  · obtain ⟨ch, hch, hv⟩ := List.mem_flatMap.1 hv
    obtain ⟨steps, hsteps⟩ := steps_of_mem_children hch
    obtain ⟨name, rest, hrest⟩ := trail_of_mem_visits hv
    simp [hrest, hsteps] at heq
  · refine (children_apart scope m.1 m.2).imp_of_mem fun {a b} ha hb hsteps v hv w hw heq => ?_
    obtain ⟨name, rest, hrest⟩ := trail_of_mem_visits hv
    obtain ⟨name', rest', hrest'⟩ := trail_of_mem_visits hw
    rw [hrest, hrest'] at heq
    exact hsteps ((standsBelow_of_mem_children ha).append_inj (standsBelow_of_mem_children hb) heq)

/-- When no object repeats a name, no two visits have the same trail. -/
theorem visits_apart (scope : Option String) (trail : Trail) {node : Json}
    (h : node.DistinctNames) :
    (visits scope trail node).Pairwise fun v w => v.trail ≠ w.trail := by
  induction scope, node using walk_induction generalizing trail with
  | step scope node ih =>
    rw [visits_eq, List.pairwise_flatMap]
    constructor
    · intro m hm
      refine memberVisits_apart fun ch hch => ih m hm ch hch _ ?_
      exact (standsBelow_of_mem_children hch).distinctNames (distinctNames_of_mem_nodeMembers h hm)
    · refine (List.pairwise_map.1 (nodup_nodeMembers h)).imp fun {m n} hnames v hv w hw heq => ?_
      obtain ⟨rest, hrest⟩ := trail_of_mem_memberVisits hv
      obtain ⟨rest', hrest'⟩ := trail_of_mem_memberVisits hw
      simp [hrest, hrest', hnames] at heq

theorem requestVisits_apart (h : request.DistinctNames) :
    (requestVisits request).Pairwise fun v w => v.trail ≠ w.trail := by
  unfold requestVisits
  split
  · exact .nil
  · rename_i query hquery
    exact visits_apart _ _ (h.of_member? (Option.filter_eq_some_iff.1 hquery).1)

end Apart

section Levels

theorem scopeProblems_levels (scope : Option String) (name : String) (f : Field) :
    ((scopeProblems scope name f).map Problem.level).Sublist [.error] := by
  unfold scopeProblems
  split
  · split <;> simp [Problem.level]
  · simp

theorem typeProblems_levels (kind name : String) (f : Field) :
    ((typeProblems kind name f).map Problem.level).Sublist [.warn] := by
  unfold typeProblems
  split_ifs <;> simp [Problem.level]

theorem fieldProblems_levels (catalog : Option Catalog) (scope : Option String)
    (kind name : String) :
    ((fieldProblems catalog scope kind name).map Problem.level).Sublist [.error, .warn] := by
  unfold fieldProblems
  split
  · simp
  · rw [List.map_append]
    exact (scopeProblems_levels ..).append (typeProblems_levels ..)

/-- A query string has no type of field to suit. -/
theorem fieldProblems_queryString_levels (catalog : Option Catalog) (scope : Option String)
    (name : String) :
    ((fieldProblems catalog scope "query_string" name).map Problem.level).Sublist [.error] := by
  unfold fieldProblems
  split
  · simp
  · rw [typeProblems, if_neg (by decide), if_neg (by decide), if_neg (by decide), List.append_nil]
    exact scopeProblems_levels ..

theorem pathProblems_levels (catalog : Option Catalog) (body : Json) :
    ((pathProblems catalog body).map Problem.level).Sublist [.error, .warn] := by
  unfold pathProblems
  split
  · simp [Problem.level]
  · split
    · split <;> simp [Problem.level]
    · simp

/-- What is wrong with a member is an error, a warning, or an error and then a warning. -/
theorem memberProblems_levels (catalog : Option Catalog) (scope : Option String) (kind : String)
    (body : Json) :
    ((memberProblems catalog scope kind body).map Problem.level).Sublist [.error, .warn] := by
  unfold memberProblems
  split
  · exact pathProblems_levels catalog body
  · by_cases hstring : kind = "query_string"
    · subst hstring
      have hfield : ((((field? "query_string" body).map
          (fieldProblems catalog scope "query_string")).getD []).map Problem.level).Sublist
            [.error] := by
        cases field? "query_string" body with
        | none => simp
        | some name => exact fieldProblems_queryString_levels catalog scope name
      rw [if_pos rfl, List.map_append]
      exact hfield.append (.refl _)
    · rw [if_neg hstring, List.append_nil]
      cases field? kind body with
      | none => simp
      | some name => exact fieldProblems_levels catalog scope kind name

end Levels

section Messages

/-- The messages on a member that is visited. -/
def Visit.messages (catalog : Option Catalog) (v : Visit) : List Message :=
  (v.findings catalog).map Finding.message

theorem path_of_mem_messages {v : Visit} {m : Message} (h : m ∈ v.messages catalog) :
    m.path = v.trail.text := by
  obtain ⟨f, hf, rfl⟩ := List.mem_map.1 h
  obtain ⟨problem, -, rfl⟩ := List.mem_map.1 hf
  rfl

theorem messages_levels (catalog : Option Catalog) (v : Visit) :
    ((v.messages catalog).map Message.level).Sublist [.error, .warn] := by
  have hlevels : (v.messages catalog).map Message.level =
      (memberProblems catalog v.scope v.kind v.body).map Problem.level := by
    simp [Visit.messages, Visit.findings, Finding.message]
  rw [hlevels]
  exact memberProblems_levels ..

theorem Visited.isPlain {v : Visit} (h : Visited request v) {m : Message}
    (hm : m ∈ v.messages catalog) : v.trail.IsPlain := by
  obtain ⟨trail, ms, hreached, -, htrail⟩ := h
  obtain ⟨f, hf, -⟩ := List.mem_map.1 hm
  obtain ⟨problem, hproblem, -⟩ := List.mem_map.1 hf
  exact htrail ▸ hreached.isPlain_reports (mem_memberProblems_iff_reports.1 hproblem)

/-- Messages on different members have different paths. -/
theorem messages_apart (catalog : Option Catalog) (h : request.DistinctNames) :
    (requestVisits request).Pairwise fun v w =>
      ∀ m ∈ v.messages catalog, ∀ n ∈ w.messages catalog, m.path ≠ n.path := by
  refine (requestVisits_apart h).imp_of_mem fun {v w} hv hw htrails m hm n hn hpaths => htrails ?_
  rw [path_of_mem_messages hm, path_of_mem_messages hn] at hpaths
  exact Trail.text_inj ((mem_requestVisits.1 hv).isPlain hm) ((mem_requestVisits.1 hw).isPlain hn)
    hpaths

theorem lint_messages_eq_visits (catalog : Option Catalog) {query : Json}
    (hquery : request.member? "query" = some query) (hnull : query ≠ .null) :
    (lint catalog request).messages = (requestVisits request).flatMap (Visit.messages catalog) := by
  have hpresent : (request.member? "query").filter (fun q => !q.isNull) = some query := by
    cases query <;> simp_all [Option.filter, Json.isNull]
  have hall : (lint catalog request).messages =
      (requestFindings catalog request).map Finding.message := rfl
  rw [hall, requestFindings_eq_visits, hpresent]
  exact List.map_flatMap ..

/-- Where the messages of a member stand among those of all, nothing else has their path. -/
theorem exists_append_of_mem {vs : List Visit}
    (hapart : vs.Pairwise fun v w =>
      ∀ m ∈ v.messages catalog, ∀ n ∈ w.messages catalog, m.path ≠ n.path)
    {m : Message} (hm : m ∈ vs.flatMap (Visit.messages catalog)) :
    ∃ (v : Visit) (before after : List Message),
      vs.flatMap (Visit.messages catalog) = before ++ v.messages catalog ++ after ∧
        (∀ n ∈ v.messages catalog, n.path = m.path) ∧ ∀ n ∈ before ++ after, n.path ≠ m.path := by
  obtain ⟨v, hv, hmv⟩ := List.mem_flatMap.1 hm
  obtain ⟨front, back, rfl⟩ := List.append_of_mem hv
  refine ⟨v, front.flatMap (Visit.messages catalog), back.flatMap (Visit.messages catalog),
    by simp, fun n hn => ?_, fun n hn => ?_⟩
  · rw [path_of_mem_messages hn, path_of_mem_messages hmv]
  · obtain ⟨-, hback, hfront⟩ := List.pairwise_append.1 hapart
    rcases List.mem_append.1 hn with hn | hn
    · obtain ⟨w, hw, hnw⟩ := List.mem_flatMap.1 hn
      exact hfront w hw v List.mem_cons_self n hnw m hmv
    · obtain ⟨w, hw, hnw⟩ := List.mem_flatMap.1 hn
      exact ((List.pairwise_cons.1 hback).1 w hw m hmv n hnw).symm

theorem pair_of_levels {ms : List Message} (h : (ms.map Message.level).Sublist [.error, .warn])
    (hmany : 1 < ms.length) : ∃ e w, ms = [e, w] ∧ e.level = .error ∧ w.level = .warn := by
  have hlevels : ms.map Message.level = [.error, .warn] :=
    h.eq_of_length_le (by rw [List.length_map]; exact hmany)
  obtain ⟨e, rest, rfl, he, hrest⟩ := List.map_eq_cons_iff.1 hlevels
  obtain ⟨w, rfl, hw⟩ := List.map_eq_singleton_iff.1 hrest
  exact ⟨e, w, rfl, he, hw⟩

/-- Messages with one path are at most two, an error and right after it a warning. -/
theorem exists_pair {vs : List Visit} {path : String}
    (hapart : vs.Pairwise fun v w =>
      ∀ m ∈ v.messages catalog, ∀ n ∈ w.messages catalog, m.path ≠ n.path)
    (hmany : 1 < ((vs.flatMap (Visit.messages catalog)).filter fun m => m.path = path).length) :
    ∃ before e w after, vs.flatMap (Visit.messages catalog) = before ++ e :: w :: after ∧
      e.level = .error ∧ w.level = .warn ∧ e.path = path ∧ w.path = path ∧
      ∀ m ∈ before ++ after, m.path ≠ path := by
  obtain ⟨m, hm⟩ := List.exists_mem_of_length_pos (Nat.zero_lt_of_lt hmany)
  obtain ⟨hmem, hpath⟩ := List.mem_filter.1 hm
  obtain ⟨v, before, after, hall, hsame, hothers⟩ := exists_append_of_mem hapart hmem
  rw [of_decide_eq_true hpath] at hsame hothers
  have hhere : (v.messages catalog).filter (fun m => m.path = path) = v.messages catalog :=
    List.filter_eq_self.2 fun n hn => decide_eq_true (hsame n hn)
  have hbefore : before.filter (fun m => m.path = path) = [] :=
    List.filter_eq_nil_iff.2 fun n hn => by simpa using hothers n (List.mem_append_left _ hn)
  have hafter : after.filter (fun m => m.path = path) = [] :=
    List.filter_eq_nil_iff.2 fun n hn => by simpa using hothers n (List.mem_append_right _ hn)
  rw [hall, List.filter_append, List.filter_append, hbefore, hhere, hafter, List.nil_append,
    List.append_nil] at hmany
  obtain ⟨e, w, hpair, he, hw⟩ := pair_of_levels (messages_levels catalog v) hmany
  rw [hpair] at hall hsame
  refine ⟨before, e, w, after, by rw [hall]; simp, he, hw, ?_, ?_, hothers⟩
  · exact hsame e List.mem_cons_self
  · exact hsame w (.tail _ List.mem_cons_self)

end Messages

/-- A message says what is wrong with the member at a place. -/
inductive Blames (catalog : Option Catalog) (request : Json) : List Nat → Message → Prop
  | member {trail scope ms kind body problem place} (hreached : Reached request trail scope ms)
      (hmem : (kind, body) ∈ ms) (hreports : Reports catalog scope kind body problem)
      (hleads : Leads request place (trail ++ [.member kind]) body) :
      Blames catalog request place (Finding.message ⟨problem, trail ++ [.member kind]⟩)

theorem Blames.place_unique {place place' : List Nat} {m n : Message}
    (hnames : request.DistinctNames) (h : Blames catalog request place m)
    (h' : Blames catalog request place' n) (hpath : m.path = n.path) : place = place' := by
  obtain ⟨hreached, -, hreports, hleads⟩ := h
  obtain ⟨hreached', -, hreports', hleads'⟩ := h'
  have htrails := Trail.text_inj (hreached.isPlain_reports hreports)
    (hreached'.isPlain_reports hreports') hpath
  exact (hleads.unique hnames (htrails ▸ hleads')).1

/-- In a request that is read from a text, messages with one path are about one member. -/
theorem Blames.place_unique_of_read? {text : String} {place place' : List Nat} {m n : Message}
    (hread : Json.read? .json text = some request) (h : Blames catalog request place m)
    (h' : Blames catalog request place' n) (hpath : m.path = n.path) : place = place' :=
  h.place_unique (Json.distinctNames_of_read? hread) h' hpath

/-- The path of a message is read as a trail from the query to a member. -/
theorem Blames.exists_trail {place : List Nat} {m : Message} (h : Blames catalog request place m) :
    ∃ trail name value, Trail.ofText? m.path = some (trail ++ [.member name]) ∧
      trail.head? = some (.member "query") ∧
      Leads request place (trail ++ [.member name]) value := by
  obtain ⟨hreached, -, hreports, hleads⟩ := h
  rename_i trail scope ms kind body problem
  refine ⟨trail, kind, body, ?_, ?_, hleads⟩
  · have hplain := hreached.isPlain_reports hreports
    obtain ⟨rest, rfl⟩ := hreached.exists_cons
    exact Trail.ofText?_text hplain
  · obtain ⟨rest, rfl⟩ := hreached.exists_cons
    rfl

theorem exists_blames {query : Json} (hquery : request.member? "query" = some query)
    (hnull : query ≠ .null) {m : Message} (hm : m ∈ (lint catalog request).messages) :
    ∃ place, Blames catalog request place m := by
  obtain ⟨f, hf, rfl⟩ := List.mem_map.1 hm
  cases mem_requestFindings_iff_due.1 hf with
  | missingQuery hmissing => exact absurd (hmissing query hquery) hnull
  | reached hreached hmem hreports =>
    obtain ⟨place, hleads⟩ := hreached.exists_leads_member hmem
    exact ⟨place, .member hreached hmem hreports hleads⟩

/-- The path of each message leads to a member of the document, the one that the message is about,
and messages on members at different places have different paths. Messages with one path are at most
two, an error and right after it a warning. -/
theorem lint_breadcrumbs (catalog : Option Catalog) {request query : Json}
    (hnames : request.DistinctNames) (hquery : request.member? "query" = some query)
    (hnull : query ≠ .null) :
    (∀ m ∈ (lint catalog request).messages, ∃ place trail name value,
      Blames catalog request place m ∧ Trail.ofText? m.path = some (trail ++ [.member name]) ∧
      trail.head? = some (.member "query") ∧
      Leads request place (trail ++ [.member name]) value) ∧
    (∀ place place' m n, Blames catalog request place m → Blames catalog request place' n →
      m.path = n.path → place = place') ∧
    ∀ path, 1 < ((lint catalog request).messages.filter fun m => m.path = path).length →
      ∃ before e w after, (lint catalog request).messages = before ++ e :: w :: after ∧
        e.level = .error ∧ w.level = .warn ∧ e.path = path ∧ w.path = path ∧
        ∀ m ∈ before ++ after, m.path ≠ path := by
  refine ⟨fun m hm => ?_, fun _ _ m n h h' => h.place_unique hnames h', fun path hmany => ?_⟩
  · obtain ⟨place, hblames⟩ := exists_blames hquery hnull hm
    obtain ⟨trail, name, value, hread⟩ := hblames.exists_trail
    exact ⟨place, trail, name, value, hblames, hread⟩
  · rw [lint_messages_eq_visits catalog hquery hnull] at hmany ⊢
    exact exists_pair (messages_apart catalog hnames) hmany

/-- A term on the notes on the items of an order, in no nested query. -/
def noteQuery : Json :=
  .keyed "bool" (.keyed "filter" (.arr [.keyed "term" (.keyed "items.note" (.str "broken"))]))

def noteRequest : Json := .keyed "query" noteQuery

def noteCatalog : Catalog :=
  .ofFields [{ name := "items.note", type := .text, nestedPath := some "items" }]

/-- The term has two messages, on its scope and on the type of its field. -/
theorem noteRequest_breadcrumbs :
    noteRequest.DistinctNames ∧ noteRequest.member? "query" = some noteQuery ∧ noteQuery ≠ .null ∧
      (∀ m ∈ (lint (some noteCatalog) noteRequest).messages,
        ∃ place, Blames (some noteCatalog) noteRequest place m) ∧
      ∃ e w, (lint (some noteCatalog) noteRequest).messages = [e, w] ∧
        e.path = "query.bool.filter[0].term" ∧ e.level = .error ∧ w.level = .warn := by
  have hnames : noteRequest.DistinctNames := by simp [noteRequest, noteQuery, Json.keyed]
  have hquery : noteRequest.member? "query" = some noteQuery := rfl
  have hnull : noteQuery ≠ .null := by simp [noteQuery, Json.keyed]
  obtain ⟨hplaces, -, hpairs⟩ := lint_breadcrumbs (some noteCatalog) hnames hquery hnull
  refine ⟨hnames, hquery, hnull, fun m hm => ?_, ?_⟩
  · obtain ⟨place, _, _, _, hblames, -⟩ := hplaces m hm
    exact ⟨place, hblames⟩
  · obtain ⟨before, e, w, after, hall, he, hw, hpath, -⟩ :=
      hpairs "query.bool.filter[0].term" (by decide)
    have hlength : (lint (some noteCatalog) noteRequest).messages.length = 2 := by decide
    rw [hall, List.length_append, List.length_cons, List.length_cons] at hlength
    obtain rfl : before = [] := List.length_eq_zero_iff.1 (by omega)
    obtain rfl : after = [] := List.length_eq_zero_iff.1 (by omega)
    exact ⟨e, w, hall, hpath, he, hw⟩

end SearchQuery.Lint
