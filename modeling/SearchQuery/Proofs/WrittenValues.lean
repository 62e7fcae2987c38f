import SearchQuery.Proofs.DistinctNames
import SearchQuery.Proofs.JsonText

/-! # Reading what was written

A free value comes back from its document when its objects have distinct names and it is not too
deep, and from its text when its numbers do as well. A record comes back member by member. -/
namespace SearchQuery

/-- A list is read when each of its elements is, as it was written. -/
theorem mapM_map_eq_some {α β γ : Type} {xs : List α} {write : α → β} {read : β → Option γ}
    {g : α → γ} (h : ∀ x ∈ xs, read (write x) = some (g x)) :
    (xs.map write).mapM read = some (xs.map g) := by
  induction xs with
  | nil => rfl
  | cons x xs ih =>
    obtain ⟨hx, hxs⟩ := List.forall_mem_cons.1 h
    rw [List.map_cons, List.mapM_cons, hx, ih hxs]
    rfl

theorem forall₂_of_mapM {α β : Type} {f : α → Option β} {xs : List α} {ys : List β}
    (h : xs.mapM f = some ys) : List.Forall₂ (fun x y => f x = some y) xs ys := by
  induction xs generalizing ys with
  | nil =>
    cases h
    exact .nil
  | cons x xs ih =>
    simp only [List.mapM_cons, Option.bind_eq_bind, Option.bind_eq_some_iff] at h
    obtain ⟨y, hy, rest, hrest, hys⟩ := h
    cases hys
    exact .cons hy (ih hrest)

namespace Json

theorem documents_eq_map (xs : List Json) : documents xs = xs.map document := by
  induction xs with
  | nil => rfl
  | cons x xs ih => simp [documents, ih]

theorem memberDocuments_eq_map (ms : List (String × Json)) :
    memberDocuments ms = ms.map fun m => (some m.1, m.2.document) := by
  induction ms with
  | nil => rfl
  | cons m ms ih => simp [memberDocuments, ih]

/-! ### Objects -/

theorem setMember_of_not_mem {ms : List (String × Json)} {name : String} (value : Json)
    (h : name ∉ ms.map Prod.fst) : setMember ms name value = ms ++ [(name, value)] := by
  induction ms with
  | nil => rfl
  | cons m ms ih =>
    simp only [List.map_cons, List.mem_cons, not_or] at h
    rw [setMember, if_neg (Ne.symm h.1), ih h.2, List.cons_append]

/-- Members of distinct names make the object of these members. -/
theorem ofMembers_of_nodup {ms : List (String × Json)} (h : (ms.map Prod.fst).Nodup) :
    ofMembers ms = .obj ms := by
  suffices hfrom : ∀ done : List (String × Json), ((done ++ ms).map Prod.fst).Nodup →
      ms.foldl (fun acc m => setMember acc m.1 m.2) done = done ++ ms by
    rw [ofMembers, hfrom [] h, List.nil_append]
  intro done hdone
  induction ms generalizing done with
  | nil => simp
  | cons m ms ih =>
    have hnew : m.1 ∉ done.map Prod.fst := by
      rw [List.map_append, List.map_cons] at hdone
      exact fun hmem => (List.nodup_append.1 hdone).2.2 _ hmem _ List.mem_cons_self rfl
    rw [List.foldl_cons, setMember_of_not_mem _ hnew,
      ih (List.nodup_cons.1 h).2 _ (by simpa using hdone)]
    simp

theorem nodup_names_ofMembers {ms vs : List (String × Json)} (h : ofMembers vs = .obj ms) :
    (ms.map Prod.fst).Nodup := by
  suffices hfrom : ∀ done : List (String × Json), (done.map Prod.fst).Nodup →
      ((vs.foldl (fun acc m => setMember acc m.1 m.2) done).map Prod.fst).Nodup by
    obtain rfl := Json.obj.inj h
    exact hfrom [] List.nodup_nil
  intro done hdone
  clear h
  induction vs generalizing done with
  | nil => exact hdone
  | cons v vs ih => exact ih _ (nodup_names_setMember v.1 v.2 hdone)

/-- Members that make an object with just their names are those of the object. -/
theorem eq_of_ofMembers_eq {ms vs : List (String × Json)}
    (hnames : vs.map Prod.fst = ms.map Prod.fst) (h : ofMembers vs = .obj ms) :
    vs = ms ∧ (ms.map Prod.fst).Nodup := by
  have hnodup := nodup_names_ofMembers h
  rw [ofMembers_of_nodup (hnames ▸ hnodup)] at h
  exact ⟨Json.obj.inj h, hnodup⟩

end Json

namespace Document

theorem values?_cons_eq_some {depth : Nat} {x : Document} {xs : List Document} {v : Json}
    {vs : List Json} : values? depth (x :: xs) = some (v :: vs) ↔
      value? depth x = some v ∧ values? depth xs = some vs := by
  rw [values?]
  cases value? depth x <;> cases values? depth xs <;> simp

theorem memberValues?_cons_eq_some {depth : Nat} {name key : String} {x : Document} {v : Json}
    {xs : List (Option String × Document)} {vs : List (String × Json)} :
    memberValues? depth ((some name, x) :: xs) = some ((key, v) :: vs) ↔
      name = key ∧ value? depth x = some v ∧ memberValues? depth xs = some vs := by
  rw [memberValues?.eq_def depth ((some name, x) :: xs)]
  simp only
  generalize value? depth x = a
  generalize memberValues? depth xs = b
  cases a <;> cases b <;> simp [and_assoc]

theorem names_of_memberValues? {depth : Nat} {docs : List (Option String × Document)}
    {vs : List (String × Json)} (h : memberValues? depth docs = some vs) :
    docs.map Prod.fst = (vs.map Prod.fst).map some := by
  induction docs generalizing vs with
  | nil =>
    obtain rfl := Option.some.inj h
    rfl
  | cons m docs ih =>
    obtain ⟨name, x⟩ := m
    unfold memberValues? at h
    split at h
    · rename_i key v rest _ _ hrest
      obtain rfl := Option.some.inj h
      simp [ih hrest]
    · cases h

end Document

namespace Json

/-! ### Free values -/

/-- A value that a free reader with so many levels gives back from the document of the value. -/
def Fits (depth : Nat) (j : Json) : Prop := j.document.value? depth = some j

@[simp] theorem fits_null (depth : Nat) : Fits depth .null := rfl

@[simp] theorem fits_bool (depth : Nat) (b : Bool) : Fits depth (.bool b) := rfl

@[simp] theorem fits_num (depth : Nat) (n : Number) : Fits depth (.num n) := rfl

@[simp] theorem fits_str (depth : Nat) (s : String) : Fits depth (.str s) := rfl

theorem values?_documents_iff {depth : Nat} {xs : List Json} :
    Document.values? depth (documents xs) = some xs ↔ ∀ x ∈ xs, Fits depth x := by
  induction xs with
  | nil => simp [documents, Document.values?]
  | cons x xs ih => rw [List.forall_mem_cons, ← ih, documents, Document.values?_cons_eq_some, Fits]

theorem memberValues?_memberDocuments_iff {depth : Nat} {ms : List (String × Json)} :
    Document.memberValues? depth (memberDocuments ms) = some ms ↔ ∀ m ∈ ms, Fits depth m.2 := by
  induction ms with
  | nil => simp [memberDocuments, Document.memberValues?]
  | cons m ms ih =>
    rw [List.forall_mem_cons, ← ih, memberDocuments, Document.memberValues?_cons_eq_some, Fits]
    simp

@[simp] theorem fits_arr {depth : Nat} {xs : List Json} :
    Fits (depth + 1) (.arr xs) ↔ ∀ x ∈ xs, Fits depth x := by
  rw [← values?_documents_iff, Fits, document, Document.value?]
  cases Document.values? depth (documents xs) <;> simp

/-- Members that are read from documents with their own names, as an object, are the members. -/
theorem eq_of_memberValues? {depth : Nat} {docs : List (Option String × Document)}
    {ms : List (String × Json)} (hdocs : docs.map Prod.fst = (ms.map Prod.fst).map some)
    (h : (Document.memberValues? depth docs).map ofMembers = some (.obj ms)) :
    Document.memberValues? depth docs = some ms ∧ (ms.map Prod.fst).Nodup := by
  obtain ⟨vs, hvs, hms⟩ := Option.map_eq_some_iff.1 h
  have hnames : (ms.map Prod.fst).map some = (vs.map Prod.fst).map some :=
    hdocs.symm.trans (Document.names_of_memberValues? hvs)
  have hsome : Function.Injective (some : String → Option String) := fun _ _ => Option.some.inj
  obtain ⟨rfl, hnodup⟩ := eq_of_ofMembers_eq (List.map_injective_iff.2 hsome hnames).symm hms
  exact ⟨hvs, hnodup⟩

@[simp] theorem fits_obj {depth : Nat} {ms : List (String × Json)} :
    Fits (depth + 1) (.obj ms) ↔ (ms.map Prod.fst).Nodup ∧ ∀ m ∈ ms, Fits depth m.2 := by
  rw [← memberValues?_memberDocuments_iff, Fits, document, Document.value?]
  constructor
  · intro h
    exact (eq_of_memberValues? (by simp [memberDocuments_eq_map]) h).symm
  · rintro ⟨hnodup, hvs⟩
    rw [hvs, Option.map_some, ofMembers_of_nodup hnodup]

/-! ### Values that read back -/

theorem names_rereadMembers (ms : List (String × Json)) :
    (rereadMembers ms).map Prod.fst = (ms.map Prod.fst).map some := by
  induction ms with
  | nil => rfl
  | cons m ms ih => simp [rereadMembers, ih]

mutual

/-- A value that is read back as it was has numbers that are. -/
theorem reread_eq_document (j : Json) {depth : Nat} (h : j.reread.value? depth = some j) :
    j.reread = j.document := by
  match j, depth with
  | .null, _ | .bool b, _ | .str s, _ => rfl
  | .num n, _ =>
    obtain ⟨m, hm, hn⟩ := Option.map_eq_some_iff.1 h
    obtain rfl := Json.num.inj hn
    rw [reread, document, hm]
  | .arr xs, 0 | .obj ms, 0 => cases h
  | .arr xs, depth + 1 =>
    obtain ⟨vs, hvs, heq⟩ := Option.map_eq_some_iff.1 h
    rw [Json.arr.inj heq] at hvs
    rw [reread, document, rereadItems_eq_documents xs hvs]
  | .obj ms, depth + 1 =>
    have hvs := (eq_of_memberValues? (names_rereadMembers ms) h).1
    rw [reread, document, rereadMembers_eq_memberDocuments ms hvs]

theorem rereadItems_eq_documents (xs : List Json) {depth : Nat}
    (h : Document.values? depth (rereadItems xs) = some xs) : rereadItems xs = documents xs := by
  match xs with
  | [] => rfl
  | x :: xs =>
    obtain ⟨hx, hxs⟩ := Document.values?_cons_eq_some.1 h
    rw [rereadItems, documents, reread_eq_document x hx, rereadItems_eq_documents xs hxs]

theorem rereadMembers_eq_memberDocuments (ms : List (String × Json)) {depth : Nat}
    (h : Document.memberValues? depth (rereadMembers ms) = some ms) :
    rereadMembers ms = memberDocuments ms := by
  match ms with
  | [] => rfl
  | (name, v) :: ms =>
    obtain ⟨-, hv, hms⟩ := Document.memberValues?_cons_eq_some.1 h
    rw [rereadMembers, memberDocuments, reread_eq_document v hv,
      rereadMembers_eq_memberDocuments ms hms]

end

/-- Written and read as a free value, a value comes back as it was. -/
def ReadsBack (indented : Bool) (j : Json) : Prop :=
  read? Document.Reader.json (j.text indented) = some j

/-- Whether a value reads back is a matter of its numbers, its depth and its names. -/
theorem readsBack_iff {indented : Bool} {j : Json} :
    j.ReadsBack indented ↔ j.reread = j.document ∧ j.Fits dialect.depth := by
  have hread : read? Document.Reader.json (j.text indented) = j.reread.value? dialect.depth := by
    rw [read?, parse?_text]
    rfl
  rw [ReadsBack, hread]
  constructor
  · intro h
    have hdocument := reread_eq_document j h
    exact ⟨hdocument, by rwa [hdocument] at h⟩
  · rintro ⟨hdocument, hfits⟩
    rw [hdocument]
    exact hfits

/-- A value that reads back is read by any reader from its document. -/
theorem ReadsBack.read?_text {α : Type} {indented : Bool} {j : Json} (h : j.ReadsBack indented)
    (read : Document.Reader α) : read? read (j.text indented) = read dialect j.document := by
  rw [read?, parse?_text, (readsBack_iff.1 h).1]
  rfl

/-! ### Written members -/

theorem reread_obj {ms : List (String × Json)} (h : ∀ m ∈ ms, m.2.reread = m.2.document) :
    (Json.obj ms).reread = (Json.obj ms).document := by
  suffices hms : rereadMembers ms = memberDocuments ms by rw [reread, document, hms]
  induction ms with
  | nil => rfl
  | cons m ms ih =>
    obtain ⟨hm, hms⟩ := List.forall_mem_cons.1 h
    rw [rereadMembers, memberDocuments, hm, ih hms]

@[simp] theorem mem_optional {name : String} {v : Option Json} {m : String × Json} :
    m ∈ optional name v ↔ ∃ x ∈ v, m = (name, x) := by
  cases v <;> simp [optional]

theorem names_optional (name : String) (v : Option Json) :
    ((optional name v).map Prod.fst).Sublist [name] := by
  cases v <;> simp [optional]

@[simp] theorem lookup_optional (name key : String) (v : Option Json) :
    (optional name v).lookup key = if key = name then v else none := by
  cases v with
  | none => simp [optional]
  | some v =>
    by_cases h : key = name
    · simp [optional, h]
    · simp [optional, List.lookup_cons, beq_false_of_ne h, h]

end Json

/-! ### Records -/

namespace Document

/-- The record of some members, each with its document. -/
def Record.ofMembers (dialect : Dialect) (ms : List (String × Json)) : Record :=
  ⟨dialect, ms.map fun m => (m.1, m.2.document)⟩

theorem lookup_map_document (ms : List (String × Json)) (name : String) :
    (ms.map fun m => (m.1, m.2.document)).lookup name = (ms.lookup name).map Json.document := by
  induction ms with
  | nil => rfl
  | cons m ms ih =>
    obtain ⟨key, v⟩ := m
    simp only [List.map_cons, List.lookup_cons, ih]
    split <;> rfl

/-- A member is read from the value that was written for it, or takes its default. -/
theorem Record.getD_ofMembers {α : Type} (dialect : Dialect) (ms : List (String × Json))
    (name : String) (fallback : α) (read : Reader α) :
    (Record.ofMembers dialect ms).getD name fallback read =
      (ms.lookup name).elim (some fallback) fun v => read dialect v.document := by
  rw [Record.getD, Record.ofMembers, lookup_map_document]
  cases ms.lookup name <;> rfl

/-- What is written only when it is there is read back, or read as absent. -/
theorem elim_optional {α : Type} {d : Dialect} {read : Reader (Option α)} {write : α → Json}
    {a? : Option α} (h : ∀ a ∈ a?, read d (write a).document = some (some a)) :
    (a?.map write).elim (some none) (fun v => read d v.document) = some a? := by
  cases a? with
  | none => rfl
  | some a => exact h a rfl

theorem Dialect.enter?_eq {d : Dialect} {depth : Nat} (h : d.depth = depth + 1) :
    d.enter? = some { d with depth } := by
  simp [enter?, h]

/-- The object of members that a record has, each at most once, is read as that record. -/
theorem record?_document {names : List String} {d : Dialect} {depth : Nat}
    {ms : List (String × Json)} (hdepth : d.depth = depth + 1) (hnames : names.Nodup)
    (hms : (ms.map Prod.fst).Sublist names) :
    record? names d (Json.obj ms).document = some (.ofMembers { d with depth } ms) := by
  have hnamed : (Json.memberDocuments ms).mapM (fun m => m.1.map fun k => (k, m.2)) =
      some (ms.map fun m => (m.1, m.2.document)) := by
    rw [Json.memberDocuments_eq_map]
    exact mapM_map_eq_some fun _ _ => rfl
  have hknown : (ms.map fun m => (m.1, m.2.document)).filter (fun m => names.contains m.1) =
      ms.map fun m => (m.1, m.2.document) := by
    rw [List.filter_eq_self]
    intro m hm
    obtain ⟨member, hmember, rfl⟩ := List.mem_map.1 hm
    simpa using hms.subset (List.mem_map_of_mem hmember)
  have hnodup : ((ms.map fun m => (m.1, m.2.document)).map Prod.fst).Nodup := by
    simpa [Function.comp_def] using hms.nodup hnames
  simp only [Json.document, record?, Dialect.enter?_eq hdepth, hnamed, hknown, hnodup,
    Option.bind_eq_bind, Option.bind_some, if_true]
  rfl

end Document
end SearchQuery
