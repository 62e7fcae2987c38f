import SearchQuery.Proofs.QueryWalk
import SearchQuery.Proofs.TrailText
import SearchQuery.Proofs.WalkVisits

/-! # Wrapped queries

A compound query other than a nested one keeps the scope, so it hides nothing of what it wraps: a
lint says of a query in any number of wrappers what it says of the query alone, at the place where
the query now stands, and of a boolean query what it says of each child, bucket by bucket. -/
namespace SearchQuery.Lint

/-- The places in which a compound query that keeps the scope holds a query. -/
inductive Layer
  | bucketItem (c : Clause)
  | bucketNode (c : Clause)
  | constantScore
  | functionScore
  | positive
  | negative
  | disMax

namespace Layer

def kind : Layer → String
  | bucketItem _ | bucketNode _ => "bool"
  | constantScore => "constant_score"
  | functionScore => "function_score"
  | positive | negative => "boosting"
  | disMax => "dis_max"

def slot : Layer → String
  | bucketItem c | bucketNode c => c.name
  | constantScore => "filter"
  | functionScore => "query"
  | positive => "positive"
  | negative => "negative"
  | disMax => "queries"

/-- Whether the query is the only item of a list, and does not stand there itself. -/
def inList : Layer → Bool
  | bucketItem _ | disMax => true
  | _ => false

def steps (l : Layer) : Trail :=
  [.member l.kind, .member l.slot] ++ if l.inList then [.index 0] else []

def value (l : Layer) (query : Json) : Json := if l.inList then .arr [query] else query

/-- The query has one slot among those of its kind. -/
theorem flatMap_slots {α : Type} (l : Layer) (x : α) :
    ((slots l.kind).flatMap fun s => if s.1 = l.slot then [x] else []) = [x] := by
  cases l with
  | bucketItem c | bucketNode c => cases c <;> rfl
  | _ => rfl

theorem slotChildren_value (l : Layer) (scope : Option String) {parts : List (String × Json)}
    {s : String × Slot} {ms : List (String × Json)} (hs : s ∈ slots l.kind) (hslot : s.1 = l.slot)
    (hlookup : parts.lookup s.1 = some (l.value (.obj ms))) :
    slotChildren scope [.member l.kind] parts s = [⟨l.steps, scope, .obj ms⟩] := by
  obtain ⟨name, slot⟩ := s
  simp only at hslot hlookup
  subst hslot
  rw [slotChildren, hlookup]
  cases l with
  | bucketItem c | bucketNode c =>
    obtain ⟨d, -, hd⟩ := List.mem_map.1 hs
    obtain ⟨-, rfl⟩ := Prod.mk.inj hd
    rfl
  | constantScore | functionScore | positive | negative =>
    obtain rfl : slot = .one := by simpa [slots, kind, Layer.slot] using hs
    rfl
  | disMax =>
    obtain rfl : slot = .many := by simpa [slots, kind, Layer.slot] using hs
    rfl

end Layer

/-- A layer with other members in its body, none of which holds queries. -/
structure Wrapper where
  layer : Layer
  before : List (String × Json) := []
  after : List (String × Json) := []
  options : ∀ m ∈ before ++ after, ∀ s ∈ slots layer.kind, m.1 ≠ s.1 := by simp

def Wrapper.parts (w : Wrapper) (query : Json) : List (String × Json) :=
  w.before ++ (w.layer.slot, w.layer.value query) :: w.after

def Wrapper.wrap (w : Wrapper) (query : Json) : Json := .keyed w.layer.kind (.obj (w.parts query))

/-- Wrappers around a query, the outermost first. -/
abbrev Context := List Wrapper

namespace Context

def fill (C : Context) (query : Json) : Json := C.foldr Wrapper.wrap query

def trail (C : Context) : Trail := C.flatMap fun w => w.layer.steps

/-- The path of the query in the request. -/
def breadcrumb (C : Context) : String := Trail.text (.member "query" :: C.trail)

end Context

/-- What a boolean query has for a bucket: nothing, a single node, or a list of nodes. -/
inductive Bucket
  | absent
  | node (ms : List (String × Json))
  | items (nodes : List (List (String × Json)))

namespace Bucket

def value? : Bucket → Option Json
  | absent => none
  | node ms => some (.obj ms)
  | items nodes => some (.arr (nodes.map .obj))

/-- The nodes in a bucket and the steps to them. -/
def nodes : Bucket → List (Trail × List (String × Json))
  | absent => []
  | node ms => [([], ms)]
  | items nodes => nodes.zipIdx.map fun n => ([.index n.2], n.1)

end Bucket

/-- The same message on a query that stands elsewhere: the path starts with a breadcrumb in place of
`query`. -/
def Message.moved (breadcrumb : String) (m : Message) : Message :=
  { m with path := breadcrumb ++ String.ofList (m.path.toList.drop "query".length) }

/-- The same finding in a part that stands further down. -/
def Finding.below (outer : Trail) (f : Finding) : Finding := { f with trail := outer ++ f.trail }

theorem findings_append (catalog : Option Catalog) (scope : Option String) (outer trail : Trail)
    (node : Json) :
    findings catalog scope (outer ++ trail) node =
      (findings catalog scope trail node).map (Finding.below outer) := by
  rw [findings_eq_visits, findings_eq_visits, visits_append, List.flatMap_map, List.map_flatMap]
  refine List.flatMap_congr fun v _ => ?_
  simp [Visit.findings, Visit.below, Finding.below]

namespace Wrapper

variable (w : Wrapper)

theorem lookup_slot (query : Json) {s : String × Slot} (hs : s ∈ slots w.layer.kind) :
    (w.parts query).lookup s.1 =
      if s.1 = w.layer.slot then some (w.layer.value query) else none := by
  have hoption {ms : List (String × Json)} (hms : ∀ m ∈ ms, m.1 ≠ s.1) : ms.lookup s.1 = none :=
    List.lookup_eq_none_iff.2 fun m hm => by simpa using (hms m hm).symm
  have hbefore := hoption fun m hm => w.options m (List.mem_append_left _ hm) s hs
  have hafter := hoption fun m hm => w.options m (List.mem_append_right _ hm) s hs
  rw [parts, List.lookup_append, hbefore, Option.none_or, List.lookup_cons]
  by_cases hslot : s.1 = w.layer.slot
  · simp [hslot]
  · rw [beq_false_of_ne hslot, hafter, if_neg hslot]

/-- The query is the only node below a wrapper. -/
theorem children_wrap (scope : Option String) (ms : List (String × Json)) :
    children scope w.layer.kind (.obj (w.parts (.obj ms))) =
      [⟨w.layer.steps, scope, .obj ms⟩] := by
  have hscope : innerScope? scope w.layer.kind (.obj (w.parts (.obj ms))) = some scope := by
    cases w.layer <;> rfl
  have hslots : ∀ s ∈ slots w.layer.kind,
      slotChildren scope [.member w.layer.kind] (w.parts (.obj ms)) s =
        if s.1 = w.layer.slot then [⟨w.layer.steps, scope, .obj ms⟩] else [] := by
    intro s hs
    by_cases hslot : s.1 = w.layer.slot
    · rw [if_pos hslot]
      exact w.layer.slotChildren_value scope hs hslot (by rw [w.lookup_slot _ hs, if_pos hslot])
    · rw [slotChildren, w.lookup_slot _ hs, if_neg hslot, if_neg hslot]
  simp only [children, hscope]
  rw [List.flatMap_congr hslots, Layer.flatMap_slots]

theorem memberProblems_wrap (catalog : Option Catalog) (scope : Option String) (body : Json) :
    memberProblems catalog scope w.layer.kind body = [] := by
  cases w.layer <;> rfl

/-- Nothing is wrong with a wrapper, and the query in it is visited in the same scope. -/
theorem findings_wrap (catalog : Option Catalog) (scope : Option String) (trail : Trail)
    (ms : List (String × Json)) :
    findings catalog scope trail (w.wrap (.obj ms)) =
      findings catalog scope (trail ++ w.layer.steps) (.obj ms) := by
  rw [wrap, findings_keyed, memberProblems_wrap, children_wrap]
  simp [childFindings]

end Wrapper

namespace Context

theorem fill_cons (w : Wrapper) (C : Context) (query : Json) :
    fill (w :: C) query = w.wrap (C.fill query) := rfl

theorem exists_fill_obj (C : Context) (ms : List (String × Json)) :
    ∃ ms', C.fill (.obj ms) = .obj ms' := by
  cases C with
  | nil => exact ⟨ms, rfl⟩
  | cons w C => exact ⟨_, rfl⟩

theorem findings_fill (catalog : Option Catalog) (scope : Option String) (trail : Trail)
    (C : Context) (ms : List (String × Json)) :
    findings catalog scope trail (C.fill (.obj ms)) =
      findings catalog scope (trail ++ C.trail) (.obj ms) := by
  induction C generalizing trail with
  | nil => simp [fill, Context.trail]
  | cons w C ih =>
    obtain ⟨inner, hinner⟩ := exists_fill_obj C ms
    rw [fill_cons, hinner, w.findings_wrap, ← hinner, ih]
    simp [Context.trail]

end Context

/-- The nodes below a boolean query are those in its buckets, in the order of the clauses. -/
theorem children_bool {parts : List (String × Json)} {bucket : Clause → Bucket}
    (h : ∀ c, parts.lookup c.name = (bucket c).value?) (scope : Option String) :
    children scope "bool" (.obj parts) = Clause.all.flatMap fun c => (bucket c).nodes.map fun n =>
      ⟨.member "bool" :: .member c.name :: n.1, scope, .obj n.2⟩ := by
  have hslot (c : Clause) : slotChildren scope [.member "bool"] parts (c.name, .either) =
      (bucket c).nodes.map fun n => ⟨.member "bool" :: .member c.name :: n.1, scope, .obj n.2⟩ := by
    rw [slotChildren, h c]
    cases bucket c with
    | absent | node ms => rfl
    | items nodes => simp [Bucket.value?, Bucket.nodes, Slot.takesMany, List.zipIdx_map]
  have hscope : innerScope? scope "bool" (.obj parts) = some scope := rfl
  have hslots : slots "bool" = Clause.all.map fun c => (c.name, .either) := rfl
  simp only [children, hscope, hslots, List.flatMap_map, hslot]

section Paths

theorem Trail.tailText_append (t t' : Trail) :
    Trail.tailText (t ++ t') = Trail.tailText t ++ Trail.tailText t' := by
  induction t with
  | nil => simp [Trail.tailText]
  | cons step t ih => cases step <;> simp [Trail.tailText, ih, String.append_assoc]

theorem drop_query (rest : String) :
    String.ofList (("query" ++ rest).toList.drop "query".length) = rest := by
  rw [String.toList_append, ← String.length_toList, List.drop_left, String.ofList_toList]

/-- A finding below the query of a request moves with the query. -/
theorem message_below (trail : Trail) (f : Finding) :
    (f.below (.member "query" :: trail)).message =
      (f.below [.member "query"]).message.moved (Trail.text (.member "query" :: trail)) := by
  have hquery : Trail.text ([.member "query"] ++ f.trail) = "query" ++ f.trail.tailText := rfl
  have htext : Trail.text (.member "query" :: trail ++ f.trail) =
      Trail.text (.member "query" :: trail) ++ f.trail.tailText := by
    simp [Trail.text, Trail.tailText_append, String.append_assoc]
  simp only [Finding.below, Finding.message, Message.moved, hquery, htext, drop_query]

end Paths

theorem lint_query (catalog : Option Catalog) {node : Json} (h : ∃ ms, node = .obj ms) :
    lint catalog (.keyed "query" node) =
      .ofMessages ((findings catalog none [.member "query"] node).map Finding.message) := by
  obtain ⟨ms, rfl⟩ := h
  rfl

/-- What is found in a node further down is what is found in the query that the node makes alone. -/
theorem map_message_findings (catalog : Option Catalog) (trail : Trail)
    (ms : List (String × Json)) :
    (findings catalog none (.member "query" :: trail) (.obj ms)).map Finding.message =
      (lint catalog (.keyed "query" (.obj ms))).messages.map
        (Message.moved (Trail.text (.member "query" :: trail))) := by
  have hbelow (outer : Trail) := findings_append catalog none outer [] (.obj ms)
  simp only [List.append_nil] at hbelow
  have halone : (lint catalog (.keyed "query" (.obj ms))).messages =
      (findings catalog none [.member "query"] (.obj ms)).map Finding.message := rfl
  rw [halone, hbelow, hbelow [.member "query"], List.map_map, List.map_map, List.map_map]
  exact List.map_congr_left fun f _ => message_below trail f

theorem findings_bool_of_buckets (catalog : Option Catalog) (scope : Option String) (trail : Trail)
    {parts : List (String × Json)} {bucket : Clause → Bucket}
    (h : ∀ c, parts.lookup c.name = (bucket c).value?) :
    findings catalog scope trail (.keyed "bool" (.obj parts)) =
      Clause.all.flatMap fun c => (bucket c).nodes.flatMap fun n =>
        findings catalog scope (trail ++ .member "bool" :: .member c.name :: n.1) (.obj n.2) := by
  have hproblems : memberProblems catalog scope "bool" (.obj parts) = [] := rfl
  rw [findings_keyed, hproblems, children_bool h, List.map_nil, List.nil_append,
    List.flatMap_assoc]
  exact List.flatMap_congr fun c _ => List.flatMap_map ..

/-- A query in a context has the messages that it has alone, in the same order, each with the
breadcrumb of the context in place of the `query` with which its path starts. A boolean query has
the messages of its children, over the clauses and then over the indices, wherever the buckets stand
in the document. -/
theorem lint_transparent (catalog : Option Catalog) :
    (∀ (C : Context) (ms : List (String × Json)),
      lint catalog (.keyed "query" (C.fill (.obj ms))) =
        .ofMessages ((lint catalog (.keyed "query" (.obj ms))).messages.map
          (Message.moved C.breadcrumb))) ∧
    (∀ ms, ∀ m ∈ (lint catalog (.keyed "query" (.obj ms))).messages,
      "query".toList <+: m.path.toList) ∧
    ∀ (parts : List (String × Json)) (bucket : Clause → Bucket),
      (∀ c, parts.lookup c.name = (bucket c).value?) →
        lint catalog (.keyed "query" (.keyed "bool" (.obj parts))) =
          .ofMessages (Clause.all.flatMap fun c => (bucket c).nodes.flatMap fun n =>
            (lint catalog (.keyed "query" (.obj n.2))).messages.map (Message.moved
              (Trail.text (.member "query" :: .member "bool" :: .member c.name :: n.1)))) := by
  refine ⟨fun C ms => ?_, fun ms m hm => ?_, fun parts bucket h => ?_⟩
  · rw [lint_query catalog (C.exists_fill_obj ms), C.findings_fill]
    exact congrArg Report.ofMessages (map_message_findings catalog C.trail ms)
  · have hmoved := map_message_findings catalog [] ms
    rw [lint_query catalog ⟨ms, rfl⟩] at hm
    obtain ⟨m', -, rfl⟩ := List.mem_map.1 (hmoved ▸ hm)
    simp [Message.moved, Trail.text, Trail.tailText]
  · have hnode : ∃ ms, Json.keyed "bool" (.obj parts) = .obj ms := ⟨_, rfl⟩
    rw [lint_query catalog hnode, findings_bool_of_buckets catalog none _ h, List.map_flatMap]
    refine congrArg Report.ofMessages (List.flatMap_congr fun c _ => ?_)
    rw [List.map_flatMap]
    exact List.flatMap_congr fun n _ => map_message_findings catalog _ n.2

/-- The breadcrumb of three wrappers. -/
example : Context.breadcrumb [⟨.bucketItem .mustNot, [], [("boost", .null)], by decide⟩,
    { layer := .constantScore }, { layer := .disMax }] =
      "query.bool.must_not[0].constant_score.filter.dis_max.queries[0]" := by decide

/-- A term on a field of the items of an order, in no nested query. -/
def skuTerm : List (String × Json) := [("term", .keyed "items.sku" (.str "x"))]

def fragileNode : List (String × Json) := [("query_string", .keyed "query" (.str "cup"))]

/-- Buckets out of their order, with an option between them. -/
def shuffledParts : List (String × Json) :=
  [("should", .arr [.obj fragileNode, .obj skuTerm]), ("boost", .num (.int 2)),
    ("must", .obj skuTerm)]

def shuffledBucket : Clause → Bucket
  | .must => .node skuTerm
  | .should => .items [fragileNode, skuTerm]
  | _ => .absent

def itemsCatalog : Catalog :=
  .ofFields [{ name := "items.sku", type := .keyword, nestedPath := some "items" }]

/-- The messages on a boolean query come in the order of the clauses, each from its child. -/
theorem shuffled_transparent :
    (∀ c, shuffledParts.lookup c.name = (shuffledBucket c).value?) ∧
      (lint (some itemsCatalog) (.keyed "query" (.keyed "bool" (.obj shuffledParts)))).messages.map
          Message.path =
        ["query.bool.must.term", "query.bool.should[0].query_string",
          "query.bool.should[1].term"] := by
  have hbuckets : ∀ c, shuffledParts.lookup c.name = (shuffledBucket c).value? := by
    intro c
    cases c <;> rfl
  refine ⟨hbuckets, ?_⟩
  rw [(lint_transparent (some itemsCatalog)).2.2 shuffledParts shuffledBucket hbuckets]
  decide

end SearchQuery.Lint
