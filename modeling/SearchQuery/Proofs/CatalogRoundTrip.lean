import SearchQuery.Catalog.Mapping
import SearchQuery.Catalog.Text
import SearchQuery.Proofs.ByteOrder
import SearchQuery.Proofs.CatalogLookup
import SearchQuery.Proofs.WrittenValues
import Mathlib.Logic.Relation

/-! # Catalogs read back

A field is read with its key as its name when it has none, so the text of a catalog spells it
only if no field without a name has a key. Every catalog that is built has this property, and
every operation keeps it. -/
namespace SearchQuery

theorem FieldType.ofName_name (t : FieldType) : ofName t.name = t := by
  cases t <;> decide

namespace Field

open Document

theorem names_toJson {f : Field} {ms : List (String × Json)} (h : f.toJson = .obj ms) :
    (ms.map Prod.fst).Sublist members := by
  obtain rfl := Json.obj.inj h
  simp only [List.map_append]
  exact (((List.Sublist.refl ["name", "type"]).append (Json.names_optional "keywordField" _)).append
    (Json.names_optional "nestedPath" _)).append (Json.names_optional "searchable" _) |>.append
    (Json.names_optional "aggregatable" _)

/-- A field is read from what is written for it. -/
theorem read_toJson {d : Dialect} {depth : Nat} (hdepth : d.depth = depth + 1) (f : Field) :
    read d f.toJson.document = some f := by
  have hms : f.toJson = .obj _ := rfl
  rw [hms, read, record?_document hdepth (by decide) (names_toJson hms)]
  generalize { d with depth } = inner
  have hname : Reader.text inner (Json.str f.name).document = some f.name := rfl
  have htype : FieldType.read inner (Json.str f.type.name).document = some f.type :=
    congrArg some (FieldType.ofName_name f.type)
  have htext (s? : Option String) : (s?.map Json.str).elim (some none)
      (fun v => Reader.nullable .text inner v.document) = some s? := elim_optional fun _ _ => rfl
  have hbool (b? : Option Bool) : (b?.map Json.bool).elim (some none)
      (fun v => Reader.nullable .bool inner v.document) = some b? := elim_optional fun _ _ => rfl
  simp [Record.getD_ofMembers, List.lookup_append, List.lookup_cons, hname, htype, htext, hbool]

theorem reread_toJson (f : Field) : f.toJson.reread = f.toJson.document := by
  refine Json.reread_obj fun m hm => ?_
  simp only [List.cons_append, List.nil_append, List.mem_cons, List.mem_append, Json.mem_optional,
    Option.mem_def, Option.map_eq_some_iff] at hm
  rcases hm with rfl | rfl | ((⟨_, ⟨_, -, rfl⟩, rfl⟩ | ⟨_, ⟨_, -, rfl⟩, rfl⟩) |
    ⟨_, ⟨_, -, rfl⟩, rfl⟩) | ⟨_, ⟨_, -, rfl⟩, rfl⟩ <;> rfl

end Field

namespace Catalog

open Document

/-! ### Fields without a name -/

/-- Only a field without a key has no name. -/
def IsNamed (e : Entry) : Prop := e.2.name = "" → e.1 = ""

theorem isNamed_own (f : Field) : IsNamed (f.name, f) := id

theorem isNamed_named (key : String) (f : Field) : IsNamed (key, named key f) := by
  unfold IsNamed named
  split
  · exact id
  · exact fun h => absurd h ‹_›

theorem IsNamed.named_eq {key : String} {f : Field} (h : IsNamed (key, f)) : named key f = f := by
  unfold named
  split
  · rename_i hname
    have hkey : key = f.name := (h hname).trans hname.symm
    rw [hkey]
  · rfl

/-- Every field of the catalog has a name or no key. -/
def AllNamed (c : Catalog) : Prop := ∀ e ∈ c.entries, IsNamed e

theorem allNamed_empty : AllNamed empty := by simp [AllNamed, empty]

theorem AllNamed.put {c : Catalog} {key : String} {f : Field} (h : c.AllNamed)
    (hf : IsNamed (key, f)) : (c.put key f).AllNamed := fun e he => by
  rcases mem_insertEntry he with rfl | hmem
  · exact hf
  · exact h e hmem

theorem AllNamed.insert {c : Catalog} (h : c.AllNamed) (f : Field) : (c.insert f).AllNamed :=
  h.put (isNamed_own f)

theorem AllNamed.insertNew {c : Catalog} (h : c.AllNamed) (f : Field) :
    (c.insertNew f).AllNamed := by
  unfold Catalog.insertNew
  split
  · exact h
  · exact h.insert f

theorem AllNamed.foldl {α : Type} {f : Catalog → α → Catalog}
    (hf : ∀ c a, AllNamed c → AllNamed (f c a)) (as : List α) {c : Catalog} (hc : c.AllNamed) :
    AllNamed (as.foldl f c) := by
  induction as generalizing c with
  | nil => exact hc
  | cons a as ih => exact ih (hf c a hc)

theorem allNamed_ofFields (fs : List Field) : (ofFields fs).AllNamed :=
  AllNamed.foldl (fun _ f h => h.insert f) fs allNamed_empty

theorem allNamed_ofRecord (es : List Entry) : (ofRecord es).AllNamed :=
  AllNamed.foldl (fun _ e h => h.put (isNamed_named e.1 e.2)) es allNamed_empty

theorem allNamed_of_read {d : Dialect} {doc : Document} {c : Catalog} (h : read d doc = some c) :
    c.AllNamed := by
  obtain ⟨es, -, rfl⟩ := Option.map_eq_some_iff.1 h
  exact allNamed_ofRecord es

/-! ### Reading the text -/

/-- An entry behind all others is put last. -/
theorem insertEntry_of_lt {key : String} {es : List Entry} (f : Field)
    (h : ∀ e ∈ es, e.1 < key) : insertEntry key f es = es ++ [(key, f)] := by
  induction es with
  | nil => rfl
  | cons e es ih =>
    obtain ⟨k, g⟩ := e
    obtain ⟨hk, hes⟩ := List.forall_mem_cons.1 h
    rw [insertEntry, if_neg (String.lt_asymm hk), if_neg (String.ne_of_lt hk).symm, ih hes,
      List.cons_append]

/-- Sorted entries that are put one after the other are the entries. -/
theorem ofRecord_entries {c : Catalog} (h : c.AllNamed) : ofRecord c.entries = c := by
  suffices hfrom : ∀ (es : List Entry) (done : Catalog), Sorted (done.entries ++ es) →
      (∀ e ∈ es, IsNamed e) →
      (es.foldl (fun c e => c.put e.1 (named e.1 e.2)) done).entries = done.entries ++ es by
    exact ext_entries (hfrom c.entries empty c.sorted h)
  intro es done hsorted hes
  induction es generalizing done with
  | nil => simp
  | cons e es ih =>
    obtain ⟨he, hrest⟩ := List.forall_mem_cons.1 hes
    have hput : (done.put e.1 (named e.1 e.2)).entries = done.entries ++ [e] := by
      rw [IsNamed.named_eq he]
      refine insertEntry_of_lt e.2 fun e' he' => ?_
      exact (List.pairwise_append.1 hsorted).2.2 e' he' e List.mem_cons_self
    rw [List.foldl_cons, ih _ (by rw [hput]; simpa using hsorted) hrest, hput]
    simp

theorem reread_toJson (c : Catalog) : c.toJson.reread = c.toJson.document := by
  refine Json.reread_obj fun m hm => ?_
  obtain ⟨e, -, rfl⟩ := List.mem_map.1 hm
  exact e.2.reread_toJson

theorem table_toJson {d : Dialect} {depth : Nat} (hdepth : d.depth = depth + 2) (c : Catalog) :
    Reader.table Field.read d c.toJson.document = some c.entries := by
  rw [toJson, Json.document, Reader.table, Dialect.enter?_eq hdepth, Option.bind_eq_bind,
    Option.bind_some, Json.memberDocuments_eq_map, List.map_map]
  refine (mapM_map_eq_some fun e _ => ?_).trans (congrArg some (List.map_id c.entries))
  simp [Field.read_toJson (d := { d with depth := depth + 1 }) rfl]

/-- The text of a catalog spells it if every field has a name or no key, whatever spaces stand
behind it. -/
theorem AllNamed.ofJsonText_append {c : Catalog} (h : c.AllNamed) {spaces : String}
    (hspaces : ∀ s ∈ spaces.toList, Json.Token.isSpace s = true) :
    ofJsonText (c.text ++ spaces) = .ok c := by
  have hread : Json.read? read (c.text ++ spaces) = some c := by
    have hparse : Json.parse? (c.text ++ spaces) = some c.toJson.document := by
      rw [← reread_toJson]
      exact Json.parse?_text_append true c.toJson spaces hspaces
    rw [Json.read?, hparse]
    show Option.map ofRecord (Reader.table Field.read Json.dialect c.toJson.document) = some c
    rw [table_toJson rfl, Option.map_some, ofRecord_entries h]
  rw [ofJsonText, hread]

theorem AllNamed.ofJsonText_text {c : Catalog} (h : c.AllNamed) : ofJsonText c.text = .ok c := by
  have hnone : ∀ s ∈ "".toList, Json.Token.isSpace s = true := by simp
  simpa using h.ofJsonText_append hnone

/-! ### Histories -/

/-- Ways to make a catalog at once. -/
inductive Built : Catalog → Prop
  | fields (fs : List Field) : Built (ofFields fs)
  | json {text : String} {c : Catalog} (h : ofJsonText text = .ok c) : Built c
  | toml {text : String} {c : Catalog} (h : ofTomlText text = .ok c) : Built c
  | mapping {doc : Json} {c : Catalog} (h : ofMapping doc = .ok c) : Built c

/-- What can be done with a catalog: a field is put in it, another one is taken in its place, or it
is written and read. -/
inductive Step : Catalog → Catalog → Prop
  | insert (c : Catalog) (f : Field) : Step c (c.insert f)
  | replace (c : Catalog) {c' : Catalog} (h : Built c') : Step c c'
  | reload {c c' : Catalog} (h : ofJsonText c.text = .ok c') : Step c c'

theorem allNamed_of_ofJsonText {text : String} {c : Catalog} (h : ofJsonText text = .ok c) :
    c.AllNamed := by
  cases hread : Json.read? read text with
  | none => simp [ofJsonText, hread] at h
  | some c' =>
    obtain ⟨doc, -, hdoc⟩ := Option.bind_eq_some_iff.1 hread
    obtain rfl : c' = c := by simpa [ofJsonText, hread] using h
    exact allNamed_of_read hdoc

theorem allNamed_of_ofTomlText {text : String} {c : Catalog} (h : ofTomlText text = .ok c) :
    c.AllNamed := by
  cases hread : Toml.read? read text with
  | none => simp [ofTomlText, hread] at h
  | some c' =>
    obtain ⟨doc, -, hdoc⟩ := Option.bind_eq_some_iff.1 hread
    obtain rfl : c' = c := by simpa [ofTomlText, hread] using h
    exact allNamed_of_read hdoc

theorem allNamed_of_ofMapping {doc : Json} {c : Catalog} (h : ofMapping doc = .ok c) :
    c.AllNamed := by
  rw [ofMapping] at h
  split at h
  · cases h
  · cases h
    exact AllNamed.foldl (fun _ f h => h.insertNew f) _ allNamed_empty

theorem Built.allNamed {c : Catalog} (h : Built c) : c.AllNamed := by
  cases h with
  | fields fs => exact allNamed_ofFields fs
  | json h => exact allNamed_of_ofJsonText h
  | toml h => exact allNamed_of_ofTomlText h
  | mapping h => exact allNamed_of_ofMapping h

theorem Step.allNamed {c c' : Catalog} (hstep : Step c c') (h : c.AllNamed) : c'.AllNamed := by
  cases hstep with
  | insert f => exact h.insert f
  | replace hbuilt => exact hbuilt.allNamed
  | reload hread => exact allNamed_of_ofJsonText hread

theorem allNamed_of_run {start c : Catalog} (hstart : Built start)
    (hrun : Relation.ReflTransGen Step start c) : c.AllNamed := by
  induction hrun with
  | refl => exact hstart.allNamed
  | tail _ hstep ih => exact hstep.allNamed ih

/-- Whatever is done with a catalog that was built, its entries stand in the order of the bytes
of their keys, only a field without a key may have no name, and its text is read as itself. -/
theorem run_readsBack {start c : Catalog} (hstart : Built start)
    (hrun : Relation.ReflTransGen Step start c) :
    (∀ e ∈ c.entries, e.2.name = "" → e.1 = "") ∧
      c.entries.Pairwise (fun a b => Text.bytes a.1 < Text.bytes b.1) ∧
      ofJsonText c.text = .ok c := by
  have hnamed := allNamed_of_run hstart hrun
  exact ⟨hnamed, c.sorted.imp Text.bytes_lt_of_lt, hnamed.ofJsonText_text⟩

/-- A catalog with a field whose name is not its key. -/
def relabeled : Catalog :=
  empty.put "label" { name := "title", type := .keyword, nestedPath := some "items" }

theorem relabeled_readsBack :
    let c := relabeled.insert { name := "época", searchable := some true }
    c.entries.map (fun e => (e.1, e.2.name)) = [("label", "title"), ("época", "época")] ∧
      (∀ e ∈ c.entries, e.2.name = "" → e.1 = "") ∧
      c.entries.Pairwise (fun a b => Text.bytes a.1 < Text.bytes b.1) ∧
      ofJsonText c.text = .ok c := by
  have hnamed : relabeled.AllNamed := allNamed_empty.put fun h => absurd h (by decide)
  have hbuilt : Built relabeled := .json hnamed.ofJsonText_text
  have hinsert := Step.insert relabeled { name := "época", searchable := some true }
  have hreload : Step (relabeled.insert { name := "época", searchable := some true }) _ :=
    .reload (hnamed.insert _).ofJsonText_text
  exact ⟨by decide, run_readsBack hbuilt (.tail (.single hinsert) hreload)⟩

end Catalog
end SearchQuery
