import SearchQuery.Proofs.LintWalk
import SearchQuery.Proofs.Members

/-! # What a lint reports

A node of a request is an object, reached from the query through the members that hold further
nodes. Which nodes are reached, in which scope, and what is wrong with a member of one is said here
by relations on the document alone; a lint reports exactly what these relate. -/
namespace SearchQuery.Lint

/-- The nodes right below a member of a node: the steps to them and the scope in them. A nested node
sets the scope to its own path whatever the scope around it; all others keep it. -/
inductive Descends (scope : Option String) :
    String → Json → Trail → Option String → List (String × Json) → Prop
  | bucketItem {body bucket items i ms}
      (hbucket : bucket ∈ ["must", "filter", "must_not", "should"])
      (hitems : body.member? bucket = some (.arr items)) (hnode : items[i]? = some (.obj ms)) :
      Descends scope "bool" body [.member bucket, .index i] scope ms
  | bucketNode {body bucket ms} (hbucket : bucket ∈ ["must", "filter", "must_not", "should"])
      (hnode : body.member? bucket = some (.obj ms)) :
      Descends scope "bool" body [.member bucket] scope ms
  | constantScore {body ms} (hnode : body.member? "filter" = some (.obj ms)) :
      Descends scope "constant_score" body [.member "filter"] scope ms
  | functionScore {body ms} (hnode : body.member? "query" = some (.obj ms)) :
      Descends scope "function_score" body [.member "query"] scope ms
  | positive {body ms} (hnode : body.member? "positive" = some (.obj ms)) :
      Descends scope "boosting" body [.member "positive"] scope ms
  | negative {body ms} (hnode : body.member? "negative" = some (.obj ms)) :
      Descends scope "boosting" body [.member "negative"] scope ms
  | disMax {body items i ms} (hitems : body.member? "queries" = some (.arr items))
      (hnode : items[i]? = some (.obj ms)) :
      Descends scope "dis_max" body [.member "queries", .index i] scope ms
  | nested {body path ms} (hpath : body.member? "path" = some (.str path))
      (hnode : body.member? "query" = some (.obj ms)) :
      Descends scope "nested" body [.member "query"] (some path) ms

/-- The nodes that a lint visits, each with the trail to it and the scope in it. -/
inductive Reached (request : Json) : Trail → Option String → List (String × Json) → Prop
  | query {ms} (hquery : request.member? "query" = some (.obj ms)) :
      Reached request [.member "query"] none ms
  | down {trail scope ms kind body steps inner ms'} (hreached : Reached request trail scope ms)
      (hmem : (kind, body) ∈ ms) (hdescends : Descends scope kind body steps inner ms') :
      Reached request (trail ++ .member kind :: steps) inner ms'

/-- The field that a member of a node is about. The body of most leaves is keyed by their field,
which is its first member that is neither `boost` nor `_name`. -/
inductive Names : String → Json → String → Prop
  | exists {body name} (hname : body.member? "field" = some (.str name)) : Names "exists" body name
  | queryString {body name} (hname : body.member? "default_field" = some (.str name)) :
      Names "query_string" body name
  | keyed {kind before name value after} (hkind : kind ∈ fieldKinds)
      (hbefore : ∀ m ∈ before, m.1 = "boost" ∨ m.1 = "_name") (hboost : name ≠ "boost")
      (hname : name ≠ "_name") : Names kind (.obj (before ++ (name, value) :: after)) name

/-- What is wrong with a member of a node. -/
inductive Reports (catalog : Option Catalog) (scope : Option String) :
    String → Json → Problem → Prop
  | nestedWithoutPath {body} (hpath : ∀ path, body.member? "path" ≠ some (.str path)) :
      Reports catalog scope "nested" body .nestedWithoutPath
  | unknownNestedPath {body path c} (hcatalog : catalog = some c)
      (hpath : body.member? "path" = some (.str path))
      (hkeys : ∀ e ∈ c.entries, ¬ path.toList <+: e.1.toList) :
      Reports catalog scope "nested" body (.unknownNestedPath path)
  | queryString {body} : Reports catalog scope "query_string" body .queryString
  | outsideNested {kind body name c f path} (hnames : Names kind body name)
      (hcatalog : catalog = some c) (hfield : c.get? name = some f) (hpath : f.nested? = some path)
      (hscope : scope ≠ some path) : Reports catalog scope kind body (.outsideNested name path)
  | exactOnText {kind body name c f} (hkind : kind = "term" ∨ kind = "terms")
      (hnames : Names kind body name) (hcatalog : catalog = some c) (hfield : c.get? name = some f)
      (htype : f.type = .text) (hcompanion : f.keywordField = none) :
      Reports catalog scope kind body (.exactOnText kind name)
  | matchOnKeyword {kind body name c f} (hkind : kind = "match" ∨ kind = "match_phrase")
      (hnames : Names kind body name) (hcatalog : catalog = some c) (hfield : c.get? name = some f)
      (htype : f.type = .keyword) : Reports catalog scope kind body (.matchOnKeyword kind name)
  | rangeOn {body name c f} (hnames : Names "range" body name) (hcatalog : catalog = some c)
      (hfield : c.get? name = some f) (htype : f.type.isRangeable = false) :
      Reports catalog scope "range" body (.rangeOn f.type name)

/-- The findings that a request deserves. -/
inductive Due (catalog : Option Catalog) (request : Json) : Finding → Prop
  | missingQuery (hquery : ∀ query, request.member? "query" = some query → query = .null) :
      Due catalog request ⟨.missingQuery, [.member "query"]⟩
  | reached {trail scope ms kind body problem} (hreached : Reached request trail scope ms)
      (hmem : (kind, body) ∈ ms) (hreports : Reports catalog scope kind body problem) :
      Due catalog request ⟨problem, trail ++ [.member kind]⟩

theorem text_member_eq_some {body : Json} {name text : String} :
    (body.member? name).bind Json.text? = some text ↔ body.member? name = some (.str text) := by
  rw [Option.bind_eq_some_iff]
  constructor
  · rintro ⟨value, hvalue, htext⟩
    cases value <;> simp_all [Json.text?]
  · intro h
    exact ⟨_, h, rfl⟩

theorem nestedPath?_eq_some {body : Json} {path : String} :
    nestedPath? body = some path ↔ body.member? "path" = some (.str path) :=
  text_member_eq_some

/-- A node in a slot of a body is an item of the list there or the object there. -/
def InSlot (body : Json) (slot : String × Slot) (steps : Trail) (ms : List (String × Json)) :
    Prop :=
  (slot.2.takesMany ∧ ∃ items i, body.member? slot.1 = some (.arr items) ∧
      items[i]? = some (.obj ms) ∧ steps = [.member slot.1, .index i]) ∨
    (slot.2.takesOne ∧ body.member? slot.1 = some (.obj ms) ∧ steps = [.member slot.1])

theorem mem_slotChildren {scope inner : Option String} {step : Step} {steps : Trail}
    {parts ms : List (String × Json)} {slot : String × Slot} :
    ⟨step :: steps, inner, .obj ms⟩ ∈ slotChildren scope [step] parts slot ↔
      inner = scope ∧ InSlot (.obj parts) slot steps ms := by
  cases hlookup : parts.lookup slot.1 with
  | none => simp [slotChildren, InSlot, Json.member?, hlookup]
  | some value =>
    cases value with
    | arr items =>
      by_cases hmany : slot.2.takesMany
      · simp [slotChildren, InSlot, Json.member?, hlookup, hmany, List.mem_zipIdx_iff_getElem?]
        grind
      · simp [slotChildren, InSlot, Json.member?, hlookup, hmany]
    | obj members =>
      by_cases hone : slot.2.takesOne
      · simp [slotChildren, InSlot, Json.member?, hlookup, hone]
        grind
      · simp [slotChildren, InSlot, Json.member?, hlookup, hone]
    | _ => simp [slotChildren, InSlot, Json.member?, hlookup]

theorem mem_children {scope inner : Option String} {kind : String} {body : Json} {steps : Trail}
    {ms : List (String × Json)} :
    ⟨.member kind :: steps, inner, .obj ms⟩ ∈ children scope kind body ↔
      innerScope? scope kind body = some inner ∧
        ∃ slot ∈ slots kind, InSlot body slot steps ms := by
  cases body with
  | obj parts =>
    cases hscope : innerScope? scope kind (.obj parts) with
    | none => simp [children, hscope]
    | some inner' =>
      simp only [children, hscope, List.mem_flatMap, mem_slotChildren, Option.some.injEq]
      grind
  | _ => simp [children, InSlot, Json.member?]

/-- The kinds of query with slots and what each slot holds. -/
theorem mem_slots {kind name : String} {slot : Slot} : (name, slot) ∈ slots kind ↔
    (kind = "bool" ∧ name ∈ ["must", "filter", "must_not", "should"] ∧ slot = .either) ∨
      (kind = "nested" ∧ name = "query" ∧ slot = .one) ∨
      (kind = "constant_score" ∧ name = "filter" ∧ slot = .one) ∨
      (kind = "function_score" ∧ name = "query" ∧ slot = .one) ∨
      (kind = "boosting" ∧ (name = "positive" ∨ name = "negative") ∧ slot = .one) ∨
      (kind = "dis_max" ∧ name = "queries" ∧ slot = .many) := by
  unfold slots
  split_ifs <;> simp_all [Clause.all, Clause.name] <;> grind

/-- The nodes that the walk visits below a member are those right below it. -/
theorem mem_children_iff_descends {scope inner : Option String} {kind : String} {body : Json}
    {steps : Trail} {ms : List (String × Json)} :
    ⟨.member kind :: steps, inner, .obj ms⟩ ∈ children scope kind body ↔
      Descends scope kind body steps inner ms := by
  rw [mem_children]
  constructor
  · rintro ⟨hscope, ⟨name, slot⟩, hslot, hin⟩
    by_cases hnested : kind = "nested"
    · subst hnested
      obtain ⟨rfl, rfl⟩ : name = "query" ∧ slot = .one := by simpa [slots] using hslot
      obtain ⟨path, hpath, rfl⟩ : ∃ path, nestedPath? body = some path ∧ some path = inner := by
        simpa [innerScope?] using hscope
      rcases hin with ⟨hmany, -⟩ | ⟨-, hnode, rfl⟩
      · cases hmany
      · exact .nested (nestedPath?_eq_some.1 hpath) hnode
    · obtain rfl : scope = inner := by simpa [innerScope?, hnested] using hscope
      -- a list in a slot for one node, or one node in a slot for a list, is passed over
      rcases hin with ⟨hmany, items, i, hitems, hnode, rfl⟩ | ⟨hone, hnode, rfl⟩
      · rcases mem_slots.1 hslot with ⟨rfl, hbucket, rfl⟩ | ⟨rfl, -, -⟩ | ⟨rfl, -, rfl⟩ |
          ⟨rfl, -, rfl⟩ | ⟨rfl, -, rfl⟩ | ⟨rfl, rfl, -⟩
        · exact .bucketItem hbucket hitems hnode
        · exact absurd rfl hnested
        · cases hmany
        · cases hmany
        · cases hmany
        · exact .disMax hitems hnode
      · rcases mem_slots.1 hslot with ⟨rfl, hbucket, rfl⟩ | ⟨rfl, -, -⟩ | ⟨rfl, rfl, -⟩ |
          ⟨rfl, rfl, -⟩ | ⟨rfl, rfl | rfl, -⟩ | ⟨rfl, -, rfl⟩
        · exact .bucketNode hbucket hnode
        · exact absurd rfl hnested
        · exact .constantScore hnode
        · exact .functionScore hnode
        · exact .positive hnode
        · exact .negative hnode
        · cases hone
  · intro h
    cases h with
    | bucketItem hbucket hitems hnode =>
      exact ⟨rfl, (_, .either), mem_slots.2 (.inl ⟨rfl, hbucket, rfl⟩),
        .inl ⟨rfl, _, _, hitems, hnode, rfl⟩⟩
    | bucketNode hbucket hnode =>
      exact ⟨rfl, (_, .either), mem_slots.2 (.inl ⟨rfl, hbucket, rfl⟩), .inr ⟨rfl, hnode, rfl⟩⟩
    | constantScore hnode | functionScore hnode | positive hnode | negative hnode =>
      exact ⟨rfl, (_, .one), by simp [slots], .inr ⟨rfl, hnode, rfl⟩⟩
    | disMax hitems hnode =>
      exact ⟨rfl, (_, .many), by simp [slots], .inl ⟨rfl, _, _, hitems, hnode, rfl⟩⟩
    | nested hpath hnode =>
      exact ⟨by simp [innerScope?, nestedPath?_eq_some.2 hpath], (_, .one), by simp [slots],
        .inr ⟨rfl, hnode, rfl⟩⟩

theorem keyedField?_eq_some {body : Json} {name : String} : keyedField? body = some name ↔
    ∃ before value after, body = .obj (before ++ (name, value) :: after) ∧
      (∀ m ∈ before, m.1 = "boost" ∨ m.1 = "_name") ∧ name ≠ "boost" ∧ name ≠ "_name" := by
  cases body with
  | obj ms =>
    simp only [keyedField?, Json.members?, Option.getD_some, List.find?_map, Option.map_eq_some_iff,
      List.find?_eq_some_iff_append, parameters]
    constructor
    · rintro ⟨⟨key, value⟩, ⟨hname, before, after, rfl, hbefore⟩, rfl⟩
      exact ⟨before, value, after, rfl, by simpa using hbefore, by simpa using hname⟩
    · rintro ⟨before, value, after, hms, hbefore, hname⟩
      exact ⟨(name, value), ⟨by simpa using hname, before, after, by simpa using hms,
        by simpa using hbefore⟩, rfl⟩
  | _ => simp [keyedField?, Json.members?]

theorem field?_eq_some {kind : String} {body : Json} {name : String} :
    field? kind body = some name ↔ Names kind body name := by
  constructor
  · intro h
    unfold field? at h
    split_ifs at h with hexists hstring hkind
    · exact hexists ▸ .exists (text_member_eq_some.1 h)
    · exact hstring ▸ .queryString (text_member_eq_some.1 h)
    · obtain ⟨before, value, after, rfl, hbefore, hboost, hname⟩ := keyedField?_eq_some.1 h
      exact .keyed (List.contains_iff_mem.1 hkind) hbefore hboost hname
  · intro h
    cases h with
    | «exists» hname => exact text_member_eq_some.2 hname
    | queryString hname => exact text_member_eq_some.2 hname
    | keyed hkind hbefore hboost hname =>
      have hexists : kind ≠ "exists" := by rintro rfl; simp [fieldKinds] at hkind
      have hstring : kind ≠ "query_string" := by rintro rfl; simp [fieldKinds] at hkind
      rw [field?, if_neg hexists, if_neg hstring, if_pos (List.contains_iff_mem.2 hkind)]
      exact keyedField?_eq_some.2 ⟨_, _, _, rfl, hbefore, hboost, hname⟩

section Problems

variable {catalog : Option Catalog} {scope : Option String} {kind name : String} {body : Json}
  {f : Field} {problem : Problem}

theorem mem_scopeProblems : problem ∈ scopeProblems scope name f ↔
    ∃ path, f.nested? = some path ∧ scope ≠ some path ∧ problem = .outsideNested name path := by
  unfold scopeProblems
  cases f.nested? with
  | none => simp
  | some path => by_cases hscope : scope = some path <;> simp [hscope]

theorem mem_typeProblems : problem ∈ typeProblems kind name f ↔
    ((kind = "term" ∨ kind = "terms") ∧ f.type = .text ∧ f.keywordField = none ∧
        problem = .exactOnText kind name) ∨
      ((kind = "match" ∨ kind = "match_phrase") ∧ f.type = .keyword ∧
        problem = .matchOnKeyword kind name) ∨
      (kind = "range" ∧ f.type.isRangeable = false ∧ problem = .rangeOn f.type name) := by
  unfold typeProblems
  split_ifs <;> simp_all [Field.hasCompanion] <;> grind

theorem mem_fieldProblems : problem ∈ fieldProblems catalog scope kind name ↔
    ∃ c f, catalog = some c ∧ c.get? name = some f ∧
      (problem ∈ scopeProblems scope name f ∨ problem ∈ typeProblems kind name f) := by
  unfold fieldProblems
  cases catalog with
  | none => simp
  | some c => cases hfield : c.get? name <;> simp [hfield]

theorem mem_pathProblems : problem ∈ pathProblems catalog body ↔
    (nestedPath? body = none ∧ problem = .nestedWithoutPath) ∨
      ∃ path c, nestedPath? body = some path ∧ catalog = some c ∧
        (∀ e ∈ c.entries, ¬ path.toList <+: e.1.toList) ∧ problem = .unknownNestedPath path := by
  unfold pathProblems
  cases nestedPath? body with
  | none => simp
  | some path =>
    cases catalog with
    | none => simp
    | some c =>
      have hkeys : c.hasKeyPrefix path = false ↔ ∀ e ∈ c.entries, ¬ path.toList <+: e.1.toList := by
        simp [Catalog.hasKeyPrefix]
      by_cases hknown : c.hasKeyPrefix path <;> simp only [hknown] at hkeys <;>
        simp [hknown, -Prod.forall] <;> grind

theorem mem_memberProblems (hkind : kind ≠ "nested") :
    problem ∈ memberProblems catalog scope kind body ↔
      (∃ name, field? kind body = some name ∧ problem ∈ fieldProblems catalog scope kind name) ∨
        (kind = "query_string" ∧ problem = .queryString) := by
  rw [memberProblems, if_neg hkind, List.mem_append]
  refine or_congr ?_ ?_
  · cases field? kind body <;> simp
  · by_cases hstring : kind = "query_string" <;> simp [hstring]

theorem Names.kind_ne_nested (h : Names kind body name) : kind ≠ "nested" := by
  cases h with
  | keyed hkind => rintro rfl; simp [fieldKinds] at hkind
  | _ => simp

/-- What a lint finds in a member of a node is what is wrong with it. -/
theorem mem_memberProblems_iff_reports :
    problem ∈ memberProblems catalog scope kind body ↔ Reports catalog scope kind body problem := by
  by_cases hkind : kind = "nested"
  · rw [memberProblems, if_pos hkind, mem_pathProblems]
    constructor
    · rintro (⟨hpath, rfl⟩ | ⟨path, c, hpath, hcatalog, hkeys, rfl⟩)
      · refine hkind ▸ .nestedWithoutPath fun path h => ?_
        rw [nestedPath?_eq_some.2 h] at hpath
        cases hpath
      · exact hkind ▸ .unknownNestedPath hcatalog (nestedPath?_eq_some.1 hpath) hkeys
    · intro h
      cases h with
      | nestedWithoutPath hpath =>
        refine .inl ⟨Option.eq_none_iff_forall_ne_some.2 fun path h => ?_, rfl⟩
        exact hpath path (nestedPath?_eq_some.1 h)
      | unknownNestedPath hcatalog hpath hkeys =>
        exact .inr ⟨_, _, nestedPath?_eq_some.2 hpath, hcatalog, hkeys, rfl⟩
      | queryString => simp at hkind
      | outsideNested hnames | exactOnText _ hnames | matchOnKeyword _ hnames | rangeOn hnames =>
        exact absurd hkind hnames.kind_ne_nested
  · rw [mem_memberProblems hkind]
    simp only [field?_eq_some, mem_fieldProblems, mem_scopeProblems, mem_typeProblems]
    constructor
    · rintro (⟨name, hnames, c, f, hcatalog, hfield, hproblem⟩ | ⟨rfl, rfl⟩)
      · rcases hproblem with ⟨path, hpath, hscope, rfl⟩ | ⟨hterm, htype, hcompanion, rfl⟩ |
          ⟨hmatch, htype, rfl⟩ | ⟨rfl, htype, rfl⟩
        · exact .outsideNested hnames hcatalog hfield hpath hscope
        · exact .exactOnText hterm hnames hcatalog hfield htype hcompanion
        · exact .matchOnKeyword hmatch hnames hcatalog hfield htype
        · exact .rangeOn hnames hcatalog hfield htype
      · exact .queryString
    · intro h
      cases h with
      | nestedWithoutPath | unknownNestedPath => exact absurd rfl hkind
      | queryString => exact .inr ⟨rfl, rfl⟩
      | outsideNested hnames hcatalog hfield hpath hscope =>
        exact .inl ⟨_, hnames, _, _, hcatalog, hfield, .inl ⟨_, hpath, hscope, rfl⟩⟩
      | exactOnText hterm hnames hcatalog hfield htype hcompanion =>
        exact .inl ⟨_, hnames, _, _, hcatalog, hfield, .inr (.inl ⟨hterm, htype, hcompanion, rfl⟩)⟩
      | matchOnKeyword hmatch hnames hcatalog hfield htype =>
        exact .inl ⟨_, hnames, _, _, hcatalog, hfield, .inr (.inr (.inl ⟨hmatch, htype, rfl⟩))⟩
      | rangeOn hnames hcatalog hfield htype =>
        exact .inl ⟨_, hnames, _, _, hcatalog, hfield, .inr (.inr (.inr ⟨rfl, htype, rfl⟩))⟩

end Problems

theorem Descends.sizeOf_lt {scope inner : Option String} {kind : String} {body : Json}
    {steps : Trail} {ms : List (String × Json)} (h : Descends scope kind body steps inner ms) :
    sizeOf ms < sizeOf body := by
  cases h with
  | bucketItem _ hitems hnode | disMax hitems hnode =>
    have hbody := Json.sizeOf_member?_lt hitems
    have hitem := List.sizeOf_lt_of_mem (List.mem_of_getElem? hnode)
    simp only [Json.arr.sizeOf_spec, Json.obj.sizeOf_spec] at hbody hitem
    omega
  | bucketNode _ hnode | constantScore hnode | functionScore hnode | positive hnode | negative hnode
  | nested _ hnode =>
    have hbody := Json.sizeOf_member?_lt hnode
    simp only [Json.obj.sizeOf_spec] at hbody
    omega

section Visits

variable {catalog : Option Catalog} {request : Json} {scope : Option String} {trail : Trail}
  {ms : List (String × Json)} {finding : Finding}

theorem mem_requestFindings : finding ∈ requestFindings catalog request ↔
    ((∀ query, request.member? "query" = some query → query = .null) ∧
        finding = ⟨.missingQuery, [.member "query"]⟩) ∨
      ∃ ms, request.member? "query" = some (.obj ms) ∧
        finding ∈ memberFindings catalog none [.member "query"] ms := by
  unfold requestFindings
  cases request.member? "query" with
  | none => simp
  | some query => cases query <;> simp [Option.filter, Json.isNull, findings]

theorem steps_of_mem_children {kind : String} {body : Json} {ch : Child}
    (h : ch ∈ children scope kind body) : ∃ steps, ch.steps = .member kind :: steps := by
  unfold children at h
  split at h
  · obtain ⟨slot, -, hslot⟩ := List.mem_flatMap.1 h
    unfold slotChildren at hslot
    split at hslot
    · split_ifs at hslot
      · obtain ⟨item, -, rfl⟩ := List.mem_map.1 hslot
        exact ⟨_, rfl⟩
      · cases hslot
    · split_ifs at hslot
      · obtain rfl := List.mem_singleton.1 hslot
        exact ⟨_, rfl⟩
      · cases hslot
    · cases hslot
  · cases h

theorem mem_memberFindings : finding ∈ memberFindings catalog scope trail ms ↔
    ∃ kind body, (kind, body) ∈ ms ∧
      ((∃ problem, Reports catalog scope kind body problem ∧
          finding = ⟨problem, trail ++ [.member kind]⟩) ∨
        ∃ steps inner ms', Descends scope kind body steps inner ms' ∧
          finding ∈ memberFindings catalog inner (trail ++ .member kind :: steps) ms') := by
  simp only [memberFindings_eq catalog scope trail, List.mem_flatMap, List.mem_append, Prod.exists]
  refine exists_congr fun kind => exists_congr fun body => and_congr_right fun _ => or_congr ?_ ?_
  · simp only [List.mem_map, mem_memberProblems_iff_reports, eq_comm]
  · simp only [← mem_children_iff_descends]
    constructor
    · rintro ⟨ch, hch, hfinding⟩
      obtain ⟨steps', inner, node⟩ := ch
      obtain ⟨steps, rfl⟩ : ∃ steps, steps' = .member kind :: steps := steps_of_mem_children hch
      cases node with
      | obj ms' => exact ⟨steps, inner, ms', hch, by simpa [childFindings, findings] using hfinding⟩
      | _ => simp [childFindings, findings] at hfinding
    · rintro ⟨steps, inner, ms', hch, hfinding⟩
      exact ⟨_, hch, by simpa [childFindings, findings] using hfinding⟩

/-- Below a reached node nothing is found that is not found in the request. -/
theorem Reached.memberFindings_subset (h : Reached request trail scope ms) :
    memberFindings catalog scope trail ms ⊆ requestFindings catalog request := by
  induction h with
  | query hquery => exact fun _ hfinding => mem_requestFindings.2 (.inr ⟨_, hquery, hfinding⟩)
  | down _ hmem hdescends ih =>
    intro finding hfinding
    exact ih (mem_memberFindings.2 ⟨_, _, hmem, .inr ⟨_, _, _, hdescends, hfinding⟩⟩)

/-- What is found below a reached node is wrong with a member of some reached node. -/
theorem Reached.due_of_mem_memberFindings (h : Reached request trail scope ms)
    (hfinding : finding ∈ memberFindings catalog scope trail ms) : Due catalog request finding := by
  induction hsize : sizeOf ms using Nat.strongRecOn generalizing trail scope ms with
  | _ size ih =>
    obtain ⟨kind, body, hmem, ⟨problem, hreports, rfl⟩ | ⟨steps, inner, ms', hdescends, hbelow⟩⟩ :=
      mem_memberFindings.1 hfinding
    · exact .reached h hmem hreports
    · have hsmaller : sizeOf ms' < size := by
        have hnode := hdescends.sizeOf_lt
        have hmember := List.sizeOf_lt_of_mem hmem
        simp only [Prod.mk.sizeOf_spec] at hmember
        omega
      exact ih _ hsmaller (h.down hmem hdescends) hbelow rfl

theorem mem_requestFindings_iff_due :
    finding ∈ requestFindings catalog request ↔ Due catalog request finding := by
  constructor
  · intro h
    rcases mem_requestFindings.1 h with ⟨hmissing, rfl⟩ | ⟨ms, hquery, hfinding⟩
    · exact .missingQuery hmissing
    · exact (Reached.query hquery).due_of_mem_memberFindings hfinding
  · intro h
    cases h with
    | missingQuery hmissing => exact mem_requestFindings.2 (.inl ⟨hmissing, rfl⟩)
    | reached hreached hmem hreports =>
      exact hreached.memberFindings_subset
        (mem_memberFindings.2 ⟨_, _, hmem, .inl ⟨_, hreports, rfl⟩⟩)

end Visits

theorem ofMessages_ok_eq_true_iff {messages : List Message} :
    (Report.ofMessages messages).ok = true ↔ ∀ m ∈ messages, m.level ≠ .error := by
  simp [Report.ofMessages]

end SearchQuery.Lint
