import SearchQuery.Proofs.CatalogLookup
import SearchQuery.Proofs.NodeTrails
import SearchQuery.Proofs.WalkVisits
import Mathlib.Data.List.Infix

/-! # What a catalog adds to a lint

Three problems are in the document alone. All others need a catalog, which adds them to these and
hides none of them. A catalog with more fields takes warnings back, those on nested paths of which
it has a field, and adds nothing as long as no leaf names one of the new fields. -/
namespace SearchQuery

namespace Catalog

theorem contains_iff {c : Catalog} {key : String} :
    c.contains key = true ↔ ∃ e ∈ c.entries, e.1 = key := by
  have hnone : c.contains key = false ↔ ∀ e ∈ c.entries, e.1 ≠ key := by
    rw [contains, get?, Option.isSome_eq_false_iff, Option.isNone_iff_eq_none,
      List.lookup_eq_none_iff]
    simp only [bne_iff_ne, ne_comm]
  rw [← Bool.not_eq_false, hnone]
  push Not
  rfl

theorem hasKeyPrefix_iff {c : Catalog} {path : String} :
    c.hasKeyPrefix path = true ↔ ∃ key, c.contains key = true ∧ path.toList <+: key.toList := by
  simp only [hasKeyPrefix, List.any_eq_true, contains_iff, List.isPrefixOf_iff_prefix]
  constructor
  · rintro ⟨e, he, hstarts⟩
    exact ⟨e.1, ⟨e, he, rfl⟩, hstarts⟩
  · rintro ⟨_, ⟨e, he, rfl⟩, hstarts⟩
    exact ⟨e, he, hstarts⟩

/-- A catalog has all the fields of another one. -/
def Extends (c' c : Catalog) : Prop := ∀ key f, c.get? key = some f → c'.get? key = some f

/-- The keys that a catalog has beyond those of another one. -/
def keysBeyond (c' c : Catalog) : List String :=
  (c'.entries.map Prod.fst).filter fun key => !c.contains key

theorem mem_keysBeyond {c c' : Catalog} {key : String} :
    key ∈ c'.keysBeyond c ↔ c'.contains key = true ∧ c.contains key = false := by
  simp only [keysBeyond, List.mem_filter, List.mem_map, contains_iff, Bool.not_eq_true']

theorem Extends.contains {c c' : Catalog} (h : c'.Extends c) {key : String}
    (hkey : c.contains key = true) : c'.contains key = true := by
  obtain ⟨f, hf⟩ := Option.isSome_iff_exists.1 hkey
  exact Option.isSome_of_eq_some (h key f hf)

theorem Extends.get?_eq {c c' : Catalog} (h : c'.Extends c) {key : String}
    (hkey : key ∉ c'.keysBeyond c) : c'.get? key = c.get? key := by
  cases hget : c.get? key with
  | some f => exact h key f hget
  | none =>
    have hmissing : c.contains key = false := by simp [Catalog.contains, hget]
    have hmissing' : ¬ c'.contains key = true := fun h' => hkey (mem_keysBeyond.2 ⟨h', hmissing⟩)
    simpa [Catalog.contains] using hmissing'

theorem extends_put {c : Catalog} {key : String} {f : Field} (h : c.get? key = none) :
    (c.put key f).Extends c := by
  intro key' f' hget
  rw [get?_put]
  split
  · simp_all
  · exact hget

theorem Extends.hasKeyPrefix_iff {c c' : Catalog} (h : c'.Extends c) {path : String} :
    c'.hasKeyPrefix path = true ↔ c.hasKeyPrefix path = true ∨
      ∃ key ∈ c'.keysBeyond c, path.toList <+: key.toList := by
  simp only [Catalog.hasKeyPrefix_iff, mem_keysBeyond]
  constructor
  · rintro ⟨key, hkey, hstarts⟩
    cases hold : c.contains key with
    | true => exact .inl ⟨key, hold, hstarts⟩
    | false => exact .inr ⟨key, ⟨hkey, hold⟩, hstarts⟩
  · rintro (⟨key, hkey, hstarts⟩ | ⟨key, ⟨hkey, -⟩, hstarts⟩)
    · exact ⟨key, h.contains hkey, hstarts⟩
    · exact ⟨key, hkey, hstarts⟩

end Catalog

namespace Lint

/-- Whether a problem is in the document alone. -/
def Problem.isStructural : Problem → Bool
  | missingQuery | nestedWithoutPath | queryString => true
  | _ => false

/-- Whether a message is about such a problem. -/
def Message.isStructural (m : Message) : Bool :=
  m.message = Problem.missingQuery.text || m.message = Problem.nestedWithoutPath.text ||
    m.message = Problem.queryString.text

/-- Whether a problem is a nested path with which one of the keys starts. -/
def Problem.isSettled (keys : List String) : Problem → Bool
  | unknownNestedPath path => keys.any fun key => path.toList.isPrefixOf key.toList
  | _ => false

/-- Whether a message says that a nested path is unknown with which one of the keys starts. -/
def Message.isSettled (keys : List String) (m : Message) : Bool :=
  keys.any fun key => key.toList.inits.any fun path =>
    m.message = (Problem.unknownNestedPath (.ofList path)).text

/-- A leaf of a request names a field. -/
def NamedIn (request : Json) (name : String) : Prop :=
  ∃ trail scope ms kind body, Reached request trail scope ms ∧ (kind, body) ∈ ms ∧
    Names kind body name

section Texts

/-- The character with which the text of a problem ends. -/
def Problem.lastChar : Problem → Char
  | missingQuery | nestedWithoutPath => '`'
  | queryString => 's'
  | unknownNestedPath _ | matchOnKeyword .. => 'd'
  | outsideNested .. => 'r'
  | exactOnText .. => 'n'
  | rangeOn .. => '\''

theorem getLast?_append_text (a : String) {b : String} {c : Char}
    (h : b.toList.getLast? = some c) : (a ++ b).toList.getLast? = some c := by
  rw [String.toList_append, List.getLast?_append, h, Option.some_or]

theorem Problem.getLast?_text (p : Problem) : p.text.toList.getLast? = some p.lastChar := by
  cases p with
  | missingQuery | nestedWithoutPath | queryString => rfl
  | _ => exact getLast?_append_text _ rfl

theorem Problem.lastChar_eq_of_text_eq {p q : Problem} (h : p.text = q.text) :
    p.lastChar = q.lastChar := by
  have hlast := p.getLast?_text
  rw [h, q.getLast?_text] at hlast
  exact (Option.some.inj hlast).symm

/-- No other problem has the text of a structural one. -/
theorem isStructural_message (f : Finding) : f.message.isStructural = f.problem.isStructural := by
  obtain ⟨problem, trail⟩ := f
  rw [Bool.eq_iff_iff]
  constructor
  · intro h
    simp only [Message.isStructural, Bool.or_eq_true, decide_eq_true_eq, or_assoc] at h
    have hlast : problem.lastChar = '`' ∨ problem.lastChar = 's' := by
      rcases h with htext | htext | htext
      · exact .inl (Problem.lastChar_eq_of_text_eq htext)
      · exact .inl (Problem.lastChar_eq_of_text_eq htext)
      · exact .inr (Problem.lastChar_eq_of_text_eq htext)
    cases problem <;> simp_all [Problem.lastChar, Problem.isStructural]
  · intro h
    cases problem with
    | missingQuery | nestedWithoutPath | queryString => rfl
    | _ => cases h

theorem unknownNestedPath_text_inj {path path' : String}
    (h : (Problem.unknownNestedPath path).text = (Problem.unknownNestedPath path').text) :
    path = path' := by
  have htext (path : String) : (Problem.unknownNestedPath path).text =
      "nested path '" ++ path ++ "' matches no catalog field" := rfl
  have hchars := congrArg String.toList h
  rw [htext, htext] at hchars
  simp only [String.toList_append, List.append_assoc] at hchars
  exact String.toList_inj.1 (List.append_cancel_right (List.append_cancel_left hchars))

/-- Among the findings of a request, a message on an unknown nested path tells the path. -/
theorem text_eq_unknownNestedPath_iff {catalog : Option Catalog} {request : Json} {f : Finding}
    (hf : f ∈ requestFindings catalog request) {path : String} :
    f.problem.text = (Problem.unknownNestedPath path).text ↔
      f.problem = .unknownNestedPath path := by
  refine ⟨fun htext => ?_, fun hproblem => hproblem ▸ rfl⟩
  cases mem_requestFindings_iff_due.1 hf with
  | missingQuery => exact absurd htext (Problem.missingQuery_text_ne path)
  | @reached _ _ _ _ _ problem _ _ hreports =>
    by_cases hunknown : ∃ path', problem = .unknownNestedPath path'
    · obtain ⟨path', rfl⟩ := hunknown
      rw [unknownNestedPath_text_inj htext]
    · exact absurd htext (hreports.text_ne_unknownNestedPath (not_exists.1 hunknown) path)

theorem isSettled_message {catalog : Option Catalog} {request : Json} {f : Finding}
    (hf : f ∈ requestFindings catalog request) (keys : List String) :
    f.message.isSettled keys = f.problem.isSettled keys := by
  have hmessage (path : List Char) :
      f.message.message = (Problem.unknownNestedPath (.ofList path)).text ↔
        f.problem = .unknownNestedPath (.ofList path) :=
    text_eq_unknownNestedPath_iff hf
  rw [Bool.eq_iff_iff]
  simp only [Message.isSettled, List.any_eq_true, List.mem_inits, decide_eq_true_eq, hmessage]
  cases f.problem with
  | unknownNestedPath path =>
    simp only [Problem.isSettled, List.any_eq_true, List.isPrefixOf_iff_prefix,
      Problem.unknownNestedPath.injEq]
    constructor
    · rintro ⟨key, hkey, chars, hstarts, rfl⟩
      exact ⟨key, hkey, by simpa using hstarts⟩
    · rintro ⟨key, hkey, hstarts⟩
      exact ⟨key, hkey, path.toList, hstarts, by simp⟩
  | _ => simp [Problem.isSettled]

end Texts

section Members

variable {c c' : Catalog} {scope : Option String} {kind : String} {body : Json}

/-- What a catalog says about a field is neither structural nor about a nested path. -/
theorem kind_of_mem_fieldProblems {name : String} {p : Problem}
    (h : p ∈ fieldProblems (some c) scope kind name) :
    p.isStructural = false ∧ ∀ keys, p.isSettled keys = false := by
  obtain ⟨_, f, -, -, hscope | htype⟩ := mem_fieldProblems.1 h
  · obtain ⟨path, -, -, rfl⟩ := mem_scopeProblems.1 hscope
    exact ⟨rfl, fun _ => rfl⟩
  · rcases mem_typeProblems.1 htype with ⟨-, -, -, rfl⟩ | ⟨-, -, rfl⟩ | ⟨-, -, rfl⟩ <;>
      exact ⟨rfl, fun _ => rfl⟩

theorem filter_isStructural_fieldProblems (name : String) :
    (fieldProblems (some c) scope kind name).filter Problem.isStructural = [] :=
  List.filter_eq_nil_iff.2 fun p hp => by simp [(kind_of_mem_fieldProblems hp).1]

theorem filter_not_isSettled_fieldProblems (keys : List String) (name : String) :
    ((fieldProblems (some c) scope kind name).filter fun p => !p.isSettled keys) =
      fieldProblems (some c) scope kind name :=
  List.filter_eq_self.2 fun p hp => by simp [(kind_of_mem_fieldProblems hp).2]

/-- Of what is wrong with a member, a catalog has no part in what is structural. -/
theorem memberProblems_none (c : Catalog) (scope : Option String) (kind : String) (body : Json) :
    memberProblems none scope kind body =
      (memberProblems (some c) scope kind body).filter Problem.isStructural := by
  unfold memberProblems
  split
  · unfold pathProblems
    cases nestedPath? body with
    | none => rfl
    | some path =>
      simp only
      split <;> rfl
  · rw [List.filter_append]
    refine congrArg₂ (· ++ ·) ?_ ?_
    · cases field? kind body with
      | none => rfl
      | some name => exact (filter_isStructural_fieldProblems name).symm
    · split <;> rfl

/-- More fields, of which a member names none, only settle its nested path. -/
theorem memberProblems_extends (h : c'.Extends c)
    (hnames : ∀ key ∈ c'.keysBeyond c, ¬ Names kind body key) :
    memberProblems (some c') scope kind body =
      (memberProblems (some c) scope kind body).filter fun p => !p.isSettled (c'.keysBeyond c) := by
  unfold memberProblems
  split
  · unfold pathProblems
    cases nestedPath? body with
    | none => rfl
    | some path =>
      have hstarts : c'.hasKeyPrefix path = true ↔ c.hasKeyPrefix path = true ∨
          ∃ key ∈ c'.keysBeyond c, path.toList <+: key.toList := h.hasKeyPrefix_iff
      have hsettled : (Problem.unknownNestedPath path).isSettled (c'.keysBeyond c) = true ↔
          ∃ key ∈ c'.keysBeyond c, path.toList <+: key.toList := by
        simp [Problem.isSettled]
      rw [← hsettled] at hstarts
      simp only
      cases hold : c.hasKeyPrefix path with
      | true => simp [hstarts.2 (.inl hold)]
      | false =>
        cases hnew : (Problem.unknownNestedPath path).isSettled (c'.keysBeyond c) with
        | true => simp [hstarts.2 (.inr hnew), hnew]
        | false =>
          have hstill : ¬ c'.hasKeyPrefix path = true := by simp [hstarts, hold, hnew]
          simp [hstill, hnew]
  · rw [List.filter_append]
    refine congrArg₂ (· ++ ·) ?_ ?_
    · cases hfield : field? kind body with
      | none => rfl
      | some name =>
        have hsame := h.get?_eq fun hnew => hnames name hnew (field?_eq_some.1 hfield)
        have hproblems : fieldProblems (some c') scope kind name =
            fieldProblems (some c) scope kind name := by
          simp only [fieldProblems, Option.bind_some, hsame]
        simp only [Option.map_some, Option.getD_some, hproblems]
        exact (filter_not_isSettled_fieldProblems _ name).symm
    · split <;> rfl

end Members

section Requests

theorem namedIn_iff {request : Json} {name : String} :
    NamedIn request name ↔ ∃ v ∈ requestVisits request, Names v.kind v.body name := by
  simp only [mem_requestVisits]
  constructor
  · rintro ⟨trail, scope, ms, kind, body, hreached, hmem, hname⟩
    have hvisited : Visited request ⟨trail ++ [Step.member kind], scope, kind, body⟩ :=
      ⟨trail, ms, hreached, hmem, rfl⟩
    exact ⟨_, hvisited, hname⟩
  · rintro ⟨v, ⟨trail, ms, hreached, hmem, -⟩, hname⟩
    exact ⟨trail, v.scope, ms, v.kind, v.body, hreached, hmem, hname⟩

theorem filter_findings {P : Problem → Bool} {catalog catalog' : Option Catalog} {v : Visit}
    (h : memberProblems catalog' v.scope v.kind v.body =
      (memberProblems catalog v.scope v.kind v.body).filter P) :
    v.findings catalog' = (v.findings catalog).filter fun f => P f.problem := by
  rw [Visit.findings, Visit.findings, h, List.filter_map]
  rfl

/-- What holds of the problems of each member visited holds of all findings of a request. -/
theorem requestFindings_filter {P : Problem → Bool} {catalog catalog' : Option Catalog}
    {request : Json} (hmissing : P .missingQuery = true)
    (h : ∀ v ∈ requestVisits request, memberProblems catalog' v.scope v.kind v.body =
      (memberProblems catalog v.scope v.kind v.body).filter P) :
    requestFindings catalog' request =
      (requestFindings catalog request).filter fun f => P f.problem := by
  rw [requestFindings_eq_visits, requestFindings_eq_visits]
  split
  · simp [hmissing]
  · rw [List.filter_flatMap]
    exact List.flatMap_congr fun v hv => filter_findings (h v hv)

theorem requestFindings_none (c : Catalog) (request : Json) :
    requestFindings none request =
      (requestFindings (some c) request).filter fun f => f.problem.isStructural :=
  requestFindings_filter rfl fun v _ => memberProblems_none c v.scope v.kind v.body

theorem requestFindings_extends {c c' : Catalog} {request : Json} (h : c'.Extends c)
    (hnames : ∀ key ∈ c'.keysBeyond c, ¬ NamedIn request key) :
    requestFindings (some c') request = (requestFindings (some c) request).filter fun f =>
      !f.problem.isSettled (c'.keysBeyond c) := by
  refine requestFindings_filter rfl fun v hv => memberProblems_extends h fun key hkey hname => ?_
  exact hnames key hkey (namedIn_iff.2 ⟨v, hv, hname⟩)

/-- The messages of some findings of a request, when the messages tell which ones. -/
theorem map_message_filter {fs : List Finding} {P : Finding → Bool} {Q : Message → Bool}
    (h : ∀ f ∈ fs, Q f.message = P f) :
    (fs.filter P).map Finding.message = (fs.map Finding.message).filter Q := by
  rw [List.filter_map]
  exact congrArg _ (List.filter_congr fun f hf => (h f hf).symm)

theorem lint_none_messages (c : Catalog) (request : Json) :
    (lint none request).messages =
      (lint (some c) request).messages.filter Message.isStructural := by
  have hall := requestFindings_none c request
  exact (congrArg _ hall).trans (map_message_filter fun f _ => isStructural_message f)

theorem lint_extends_messages {c c' : Catalog} {request : Json} (h : c'.Extends c)
    (hnames : ∀ key ∈ c'.keysBeyond c, ¬ NamedIn request key) :
    (lint (some c') request).messages =
      (lint (some c) request).messages.filter fun m => !m.isSettled (c'.keysBeyond c) := by
  have hall := requestFindings_extends h hnames
  refine (congrArg _ hall).trans (map_message_filter fun f hf => ?_)
  rw [isSettled_message hf]

end Requests

/-- A lint without a catalog has the structural messages of a lint with one, so a request that is
fine with a catalog is fine without. More fields, of which no leaf names one, only take back the
warnings on nested paths with which one of their keys starts. -/
theorem lint_catalog_growth (request : Json) (c : Catalog) :
    (lint none request).messages =
      (lint (some c) request).messages.filter Message.isStructural ∧
    ((lint (some c) request).ok = true → (lint none request).ok = true) ∧
    ∀ c' : Catalog, c'.Extends c → (∀ key ∈ c'.keysBeyond c, ¬ NamedIn request key) →
      (lint (some c') request).messages =
        (lint (some c) request).messages.filter fun m => !m.isSettled (c'.keysBeyond c) := by
  have hnone := lint_none_messages c request
  refine ⟨hnone, fun hok => ?_, fun c' h hnames => lint_extends_messages h hnames⟩
  refine ofMessages_ok_eq_true_iff.2 fun m hm => ofMessages_ok_eq_true_iff.1 hok m ?_
  have hm' : m ∈ (lint none request).messages := hm
  rw [hnone] at hm'
  exact List.mem_of_mem_filter hm'

def titleTerm : Json := .keyed "term" (.keyed "title" (.str "cup"))

/-- The body of a nested query for the items of an order, with a leaf on the title in it. -/
def itemsBody : Json := .obj [("path", .str "items"), ("query", titleTerm)]

def cupBody : Json := .keyed "query" (.str "cup")

def mustBody : Json :=
  .keyed "must" (.arr [.keyed "nested" itemsBody, .keyed "query_string" cupBody])

def itemsRequest : Json := .keyed "query" (.keyed "bool" mustBody)

def titleCatalog : Catalog := .ofFields [{ name := "title", type := .text }]

def titleCatalogWithSku : Catalog :=
  titleCatalog.put "items.sku" { name := "items.sku", type := .keyword, nestedPath := some "items" }

theorem not_namedIn_itemsRequest : ¬ NamedIn itemsRequest "items.sku" := by
  have hquery : requestVisits itemsRequest =
      visits none [.member "query"] (.keyed "bool" mustBody) := rfl
  have hbool : children none "bool" mustBody =
      [⟨[.member "bool", .member "must", .index 0], none, .keyed "nested" itemsBody⟩,
        ⟨[.member "bool", .member "must", .index 1], none, .keyed "query_string" cupBody⟩] := rfl
  have hnested : children none "nested" itemsBody =
      [⟨[.member "nested", .member "query"], some "items", titleTerm⟩] := rfl
  have hterm : children (some "items") "term" (.keyed "title" (.str "cup")) = [] := rfl
  have hstring : children none "query_string" cupBody = [] := rfl
  have hfields : (requestVisits itemsRequest).map (fun v => field? v.kind v.body) =
      [none, none, some "title", none] := by
    simp only [hquery, visits_keyed, memberVisits, hbool, hnested, titleTerm, hterm, hstring,
      List.flatMap_cons, List.flatMap_nil]
    rfl
  intro h
  obtain ⟨v, hv, hname⟩ := namedIn_iff.1 h
  have hfield : field? v.kind v.body ∈ [none, none, some "title", none] := by
    rw [← hfields]
    exact List.mem_map.2 ⟨v, hv, rfl⟩
  rw [field?_eq_some.2 hname] at hfield
  revert hfield
  decide

/-- The new field settles the nested path, and the two other warnings stay. -/
theorem itemsRequest_growth :
    (lint (some titleCatalog) itemsRequest).ok = true ∧ (lint none itemsRequest).ok = true ∧
      titleCatalogWithSku.Extends titleCatalog ∧
      (∀ key ∈ titleCatalogWithSku.keysBeyond titleCatalog, ¬ NamedIn itemsRequest key) ∧
      (lint (some titleCatalog) itemsRequest).messages.map Message.path =
        ["query.bool.must[0].nested", "query.bool.must[0].nested.query.term",
          "query.bool.must[1].query_string"] ∧
      (lint (some titleCatalogWithSku) itemsRequest).messages.map Message.path =
        ["query.bool.must[0].nested.query.term", "query.bool.must[1].query_string"] := by
  obtain ⟨-, hok, hgrowth⟩ := lint_catalog_growth itemsRequest titleCatalog
  have hfine : (lint (some titleCatalog) itemsRequest).ok = true := by decide
  have hextends : titleCatalogWithSku.Extends titleCatalog := Catalog.extends_put rfl
  have hnew : titleCatalogWithSku.keysBeyond titleCatalog = ["items.sku"] := by decide
  have hnames : ∀ key ∈ titleCatalogWithSku.keysBeyond titleCatalog,
      ¬ NamedIn itemsRequest key := by
    rw [hnew]
    exact List.forall_mem_singleton.2 not_namedIn_itemsRequest
  refine ⟨hfine, hok hfine, hextends, hnames, by decide, ?_⟩
  rw [hgrowth _ hextends hnames]
  decide

end Lint
end SearchQuery
