import SearchQuery.Compile
import SearchQuery.Proofs.WrittenValues

/-! # Forms read back

What is written for a form is read as the form without its null values, which compile as missing
ones do. A form that was read has none. -/
namespace SearchQuery

/-- The value, absent when it is null. -/
def nonNull? (v : Option Json) : Option Json := v.filter fun j => !j.isNull

theorem nonBlank?_nonNull? (v : Option Json) : nonBlank? (nonNull? v) = nonBlank? v := by
  cases v with
  | none => rfl
  | some j => cases j <;> rfl

theorem getD_nonNull? (v : Option Json) : (nonNull? v).getD .null = v.getD .null := by
  cases v with
  | none => rfl
  | some j => cases j <;> rfl

def Condition.withoutNulls (c : Condition) : Condition :=
  { c with value := nonNull? c.value, value2 := nonNull? c.value2 }

def Timeframe.withoutNulls (t : Timeframe) : Timeframe :=
  { t with gte := nonNull? t.gte, lte := nonNull? t.lte }

def FilterForm.withoutNulls (x : FilterForm) : FilterForm :=
  { x with
    conditions := x.conditions.map Condition.withoutNulls
    timeframe := x.timeframe.map Timeframe.withoutNulls }

/-! ### Null values and missing ones -/

theorem Condition.leafQuery_withoutNulls (c : Condition) (field : String) (info : Option Field)
    (value : Json) : c.withoutNulls.leafQuery field info value = c.leafQuery field info value := by
  simp only [leafQuery, withoutNulls, nonBlank?_nonNull?]

theorem Condition.leaf?_withoutNulls (c : Condition) (catalog : Option Catalog) :
    c.withoutNulls.leaf? catalog = c.leaf? catalog := by
  simp only [leaf?, leafQuery_withoutNulls]
  simp only [withoutNulls, path?, nonBlank?_nonNull?, getD_nonNull?]

theorem Timeframe.query?_withoutNulls (t : Timeframe) : t.withoutNulls.query? = t.query? := by
  simp only [query?, withoutNulls, nonBlank?_nonNull?]

/-- Null values and missing ones make the same request. -/
theorem FilterForm.compile_withoutNulls (x : FilterForm) (catalog : Option Catalog) :
    x.withoutNulls.compile catalog = x.compile catalog := by
  have hleaves : x.withoutNulls.leaves catalog = x.leaves catalog := by
    simp only [leaves, withoutNulls, List.filterMap_map, Function.comp_def,
      Condition.leaf?_withoutNulls]
  have htimeframe : x.withoutNulls.timeframe.bind Timeframe.query? =
      x.timeframe.bind Timeframe.query? := by
    cases ht : x.timeframe <;> simp [withoutNulls, ht, Timeframe.query?_withoutNulls]
  simp only [compile, hleaves, htimeframe]
  rfl

/-! ### Reading what was written -/

open Document

theorem Clause.read_name (d : Dialect) (c : Clause) :
    read d (Json.str c.name).document = some c := naming.read_name d c

theorem Operator.read_name (d : Dialect) (o : Operator) :
    read d (Json.str o.name).document = some o := naming.read_name d o

theorem Json.slop?_int (n : UInt32) : Json.slop? (.num (.int n.toNat)) = some n := by
  have hn : n.toNat < UInt32.size := n.toNat_lt
  have hword : n.toNat < UInt64.size := Nat.lt_trans hn (by decide)
  have hcount : (Number.int n.toNat).count? = some (UInt64.ofNat n.toNat) := if_pos hword
  simp [slop?, count?, hcount, hn]

theorem Json.size?_ofCount (n : UInt64) : Json.size? (.num (.ofCount n)) = some n := by
  have hn : n.toNat < UInt64.size := n.toNat_lt
  have hcount : (Number.ofCount n).count? = some (UInt64.ofNat n.toNat) := if_pos hn
  simp [size?, count?, hcount, hn]

/-- A free value is read back where it fits, and null is read as absence. -/
theorem elim_nullable_json {d : Dialect} {v? : Option Json} (h : ∀ v ∈ v?, v.Fits d.depth) :
    v?.elim (some none) (fun v => Reader.nullable .json d v.document) = some (nonNull? v?) := by
  cases v? with
  | none => rfl
  | some v =>
    have hv : v.document.value? d.depth = some v := h v rfl
    cases v with
    | null => rfl
    | bool | num | str | arr | obj =>
      simp only [Option.elim_some, Json.document, Reader.nullable, Reader.json] at hv ⊢
      rw [hv]
      rfl

namespace Condition

theorem names_toJson {c : Condition} {ms : List (String × Json)} (h : c.toJson = .obj ms) :
    (ms.map Prod.fst).Sublist members := by
  obtain rfl := Json.obj.inj h
  simp only [List.map_append]
  exact (((List.Sublist.refl ["clause", "field", "operator"]).append
    (Json.names_optional "value" _)).append (Json.names_optional "value2" _)).append
    (Json.names_optional "nestedPath" _) |>.append (Json.names_optional "slop" _)

theorem read_toJson {d : Dialect} {depth : Nat} (hdepth : d.depth = depth + 1) {c : Condition}
    (hfits : c.toJson.Fits (depth + 1)) : read d c.toJson.document = some c.withoutNulls := by
  have hms : c.toJson = .obj _ := rfl
  rw [hms, Json.fits_obj] at hfits
  have hvalue : ∀ v ∈ c.value, v.Fits depth := fun v hv =>
    hfits.2 ("value", v) (by simp [Option.mem_def.1 hv])
  have hvalue2 : ∀ v ∈ c.value2, v.Fits depth := fun v hv =>
    hfits.2 ("value2", v) (by simp [Option.mem_def.1 hv])
  rw [hms, read, record?_document hdepth (by decide) (names_toJson hms)]
  generalize hinner : ({ d with depth } : Dialect) = inner
  obtain rfl : inner.depth = depth := hinner ▸ rfl
  have hfield : Reader.map (fun j => j.text?.getD "") Reader.json inner
      (Json.str c.field).document = some c.field := rfl
  have hpath : (c.nestedPath.map Json.str).elim (some none)
      (fun v => Reader.map Json.text? Reader.json inner v.document) = some c.nestedPath :=
    elim_optional fun _ _ => rfl
  have hslop : (c.slop.map fun n => Json.num (.int n.toNat)).elim (some none)
      (fun v => Reader.map Json.slop? Reader.json inner v.document) = some c.slop :=
    elim_optional fun n _ => congrArg some (Json.slop?_int n)
  simp [Record.getD_ofMembers, List.lookup_append, List.lookup_cons, Clause.read_name, hfield,
    Operator.read_name, hpath, hslop, elim_nullable_json hvalue, elim_nullable_json hvalue2]
  rfl

end Condition

namespace Timeframe

theorem names_toJson {t : Timeframe} {ms : List (String × Json)} (h : t.toJson = .obj ms) :
    (ms.map Prod.fst).Sublist members := by
  obtain rfl := Json.obj.inj h
  simp only [List.map_append, List.map_cons, List.cons_append]
  exact ((Json.names_optional "gte" _).append (Json.names_optional "lte" _)).cons_cons "field"

theorem read_toJson {d : Dialect} {depth : Nat} (hdepth : d.depth = depth + 1) {t : Timeframe}
    (hfits : t.toJson.Fits (depth + 1)) : read d t.toJson.document = some t.withoutNulls := by
  have hms : t.toJson = .obj _ := rfl
  rw [hms, Json.fits_obj] at hfits
  have hgte : ∀ v ∈ t.gte, v.Fits depth := fun v hv =>
    hfits.2 ("gte", v) (by simp [Option.mem_def.1 hv])
  have hlte : ∀ v ∈ t.lte, v.Fits depth := fun v hv =>
    hfits.2 ("lte", v) (by simp [Option.mem_def.1 hv])
  rw [hms, read, record?_document hdepth (by decide) (names_toJson hms)]
  generalize hinner : ({ d with depth } : Dialect) = inner
  obtain rfl : inner.depth = depth := hinner ▸ rfl
  have hfield : Reader.map (fun j => j.text?.getD "") Reader.json inner
      (Json.str t.field).document = some t.field := rfl
  simp [Record.getD_ofMembers, List.lookup_append, List.lookup_cons, hfield,
    elim_nullable_json hgte, elim_nullable_json hlte]
  rfl

end Timeframe

namespace FilterForm

theorem names_toJson {x : FilterForm} {ms : List (String × Json)} (h : x.toJson = .obj ms) :
    (ms.map Prod.fst).Sublist members := by
  obtain rfl := Json.obj.inj h
  simp only [List.map_append, List.map_cons, List.cons_append]
  exact ((Json.names_optional "timeframe" _).append (Json.names_optional "size" _)).cons_cons
    "conditions"

theorem mapM_read_toJson {d : Dialect} {depth : Nat} (hdepth : d.depth = depth + 1)
    {cs : List Condition} (hfits : ∀ c ∈ cs, c.toJson.Fits (depth + 1)) :
    (Json.documents (cs.map Condition.toJson)).mapM (Condition.read d) =
      some (cs.map Condition.withoutNulls) := by
  rw [Json.documents_eq_map, List.map_map]
  exact mapM_map_eq_some fun c hc => Condition.read_toJson hdepth (hfits c hc)

/-- What is written for a form is read as the form without its null values. -/
theorem read_toJson {x : FilterForm} (hfits : x.toJson.Fits Json.dialect.depth) :
    read Json.dialect x.toJson.document = some x.withoutNulls := by
  have hms : x.toJson = .obj _ := rfl
  have hdepth : Json.dialect.depth = 126 + 1 := rfl
  rw [hms, hdepth, Json.fits_obj] at hfits
  have hconditions : ∀ c ∈ x.conditions, c.toJson.Fits 125 := fun c hc =>
    Json.fits_arr.1 (hfits.2 ("conditions", .arr (x.conditions.map Condition.toJson)) (by simp)) _
      (List.mem_map_of_mem hc)
  have htimeframe : ∀ t ∈ x.timeframe, t.toJson.Fits 126 := fun t ht =>
    hfits.2 ("timeframe", t.toJson) (by simp [Option.mem_def.1 ht])
  rw [hms, read, record?_document hdepth (by decide) (names_toJson hms)]
  generalize hinner : ({ Json.dialect with depth := 126 } : Dialect) = inner
  have hlist : (Reader.nullable (.list Condition.read)).map (fun cs => cs.getD []) inner
      (Json.arr (x.conditions.map Condition.toJson)).document =
        some (x.conditions.map Condition.withoutNulls) := by
    subst hinner
    have hread := mapM_read_toJson (d := { Json.dialect with depth := 125 }) rfl hconditions
    exact congrArg (fun cs? => (cs?.map some).map fun cs => cs.getD []) hread
  have htime : (x.timeframe.map Timeframe.toJson).elim (some none)
      (fun v => Reader.nullable Timeframe.read inner v.document) =
        some (x.timeframe.map Timeframe.withoutNulls) := by
    subst hinner
    cases ht : x.timeframe with
    | none => rfl
    | some t =>
      have hread := Timeframe.read_toJson (d := { Json.dialect with depth := 126 }) rfl
        (htimeframe t ht)
      exact congrArg (Option.map some) hread
  have hsize : (x.size.map fun n => Json.num (.ofCount n)).elim (some none)
      (fun v => Reader.map Json.size? Reader.json inner v.document) = some x.size :=
    elim_optional fun n _ => congrArg some (Json.size?_ofCount n)
  simp [Record.getD_ofMembers, List.lookup_append, List.lookup_cons, hlist, htime, hsize]
  rfl

end FilterForm

/-! ### Forms that were read -/

theorem Document.isNull_of_value? {depth : Nat} {doc : Document} {v : Json} (hdoc : doc ≠ .null)
    (h : doc.value? depth = some v) : v.isNull = false := by
  cases doc with
  | null => exact absurd rfl hdoc
  | bool b =>
    obtain rfl := Option.some.inj h
    rfl
  | num n | str s =>
    obtain ⟨_, -, rfl⟩ := Option.map_eq_some_iff.1 h
    rfl
  | arr xs | obj ms =>
    cases depth with
    | zero => cases h
    | succ depth =>
      obtain ⟨_, -, rfl⟩ := Option.map_eq_some_iff.1 h
      rfl

theorem nonNull?_of_nullable {d : Dialect} {doc : Document} {v? : Option Json}
    (h : Reader.nullable .json d doc = some v?) : nonNull? v? = v? := by
  by_cases hdoc : doc = .null
  · subst hdoc
    obtain rfl := Option.some.inj h
    rfl
  · rw [Reader.nullable] at h
    · obtain ⟨v, hv, rfl⟩ := Option.map_eq_some_iff.1 h
      simp [nonNull?, isNull_of_value? hdoc hv]
    · exact hdoc

/-- What holds of the default and of all that is read holds of a member with a default. -/
theorem Document.Record.of_getD {α : Type} {p : α → Prop} {r : Record} {name : String}
    {fallback a : α} {read : Reader α} (hfallback : p fallback)
    (hread : ∀ {d doc a}, read d doc = some a → p a) (h : r.getD name fallback read = some a) :
    p a := by
  rw [Record.getD] at h
  split at h
  · obtain rfl := Option.some.inj h
    exact hfallback
  · exact hread h

theorem nonNull?_of_getD {r : Record} {name : String} {v? : Option Json}
    (h : r.getD name none (.nullable .json) = some v?) : nonNull? v? = v? :=
  r.of_getD (p := fun v? => nonNull? v? = v?) rfl nonNull?_of_nullable h

theorem Condition.withoutNulls_of_read {d : Dialect} {doc : Document} {c : Condition}
    (h : read d doc = some c) : c.withoutNulls = c := by
  simp only [read, Option.bind_eq_bind, Option.bind_eq_some_iff, Option.pure_def] at h
  obtain ⟨r, -, _, -, _, -, _, -, value, hvalue, value2, hvalue2, _, -, _, -, hc⟩ := h
  obtain rfl := Option.some.inj hc
  simp only [withoutNulls, nonNull?_of_getD hvalue, nonNull?_of_getD hvalue2]

theorem Timeframe.withoutNulls_of_read {d : Dialect} {doc : Document} {t : Timeframe}
    (h : read d doc = some t) : t.withoutNulls = t := by
  simp only [read, Option.bind_eq_bind, Option.bind_eq_some_iff, Option.pure_def] at h
  obtain ⟨r, -, _, -, gte, hgte, lte, hlte, ht⟩ := h
  obtain rfl := Option.some.inj ht
  simp only [withoutNulls, nonNull?_of_getD hgte, nonNull?_of_getD hlte]

theorem Timeframe.map_withoutNulls_of_nullable {d : Dialect} {doc : Document}
    {t? : Option Timeframe} (h : Reader.nullable read d doc = some t?) :
    t?.map withoutNulls = t? := by
  rw [Reader.nullable.eq_def] at h
  split at h
  · obtain rfl := Option.some.inj h
    rfl
  · obtain ⟨t, ht, rfl⟩ := Option.map_eq_some_iff.1 h
    rw [Option.map_some, withoutNulls_of_read ht]

theorem Condition.map_withoutNulls_of_mapM {d : Dialect} {docs : List Document}
    {cs : List Condition} (h : docs.mapM (read d) = some cs) : cs.map withoutNulls = cs := by
  induction docs generalizing cs with
  | nil =>
    obtain rfl := Option.some.inj h
    rfl
  | cons doc docs ih =>
    simp only [List.mapM_cons, Option.bind_eq_bind, Option.bind_eq_some_iff, Option.pure_def] at h
    obtain ⟨c, hc, rest, hrest, hcs⟩ := h
    obtain rfl := Option.some.inj hcs
    rw [List.map_cons, withoutNulls_of_read hc, ih hrest]

theorem Condition.map_withoutNulls_of_list {d : Dialect} {doc : Document} {cs : List Condition}
    (h : (Reader.nullable (.list read)).map (fun cs => cs.getD []) d doc = some cs) :
    cs.map withoutNulls = cs := by
  obtain ⟨cs?, hcs?, rfl⟩ := Option.map_eq_some_iff.1 h
  rw [Reader.nullable.eq_def] at hcs?
  split at hcs?
  · obtain rfl := Option.some.inj hcs?
    rfl
  · obtain ⟨cs, hcs, rfl⟩ := Option.map_eq_some_iff.1 hcs?
    unfold Reader.list at hcs
    split at hcs
    · obtain ⟨inner, -, hitems⟩ := Option.bind_eq_some_iff.1 hcs
      exact map_withoutNulls_of_mapM hitems
    · cases hcs

namespace FilterForm

/-- A form that was read has no null values. -/
theorem withoutNulls_of_read {d : Dialect} {doc : Document} {x : FilterForm}
    (h : read d doc = some x) : x.withoutNulls = x := by
  simp only [read, Option.bind_eq_bind, Option.bind_eq_some_iff, Option.pure_def] at h
  obtain ⟨r, -, conditions, hconditions, timeframe, htimeframe, _, -, hx⟩ := h
  obtain rfl := Option.some.inj hx
  have hcs := r.of_getD (p := fun cs => cs.map Condition.withoutNulls = cs) rfl
    Condition.map_withoutNulls_of_list hconditions
  have ht := r.of_getD (p := fun t? => t?.map Timeframe.withoutNulls = t?) rfl
    Timeframe.map_withoutNulls_of_nullable htimeframe
  simp only [withoutNulls, hcs, ht]

/-- A form whose document reads back is itself read back without its null values, which changes
no request, and unchanged if it was read before. -/
theorem readsBack {indented : Bool} {x : FilterForm} (hx : x.toJson.ReadsBack indented) :
    Json.read? read (x.toJson.text indented) = some x.withoutNulls ∧
      (∀ catalog, x.withoutNulls.compile catalog = x.compile catalog) ∧
      ∀ text, Json.read? read text = some x →
        Json.read? read (x.toJson.text indented) = some x := by
  have hread : Json.read? read (x.toJson.text indented) = some x.withoutNulls := by
    rw [hx.read?_text]
    exact read_toJson (Json.readsBack_iff.1 hx).2
  refine ⟨hread, x.compile_withoutNulls, fun text htext => ?_⟩
  obtain ⟨doc, -, hdoc⟩ := Option.bind_eq_some_iff.1 htext
  rw [hread, withoutNulls_of_read hdoc]

/-- A form that leaves the upper ends of its ranges open by null values. -/
def openRanges : FilterForm where
  conditions := [
    { field := "price", operator := .between, value := some (.num (.int 5)), value2 := some .null }]
  timeframe := some { field := "@timestamp", gte := some (.str "now-1d"), lte := some .null }
  size := some 10

theorem openRanges_readsBack :
    openRanges.toJson.ReadsBack true ∧
      Json.read? read (openRanges.toJson.text true) = some openRanges.withoutNulls ∧
      (∀ catalog, openRanges.withoutNulls.compile catalog = openRanges.compile catalog) ∧
      ∀ text, Json.read? read text = some openRanges →
        Json.read? read (openRanges.toJson.text true) = some openRanges := by
  have hfive : (Json.Number.int 5).reread = some (.int 5) := Json.reread_int ⟨by decide, by decide⟩
  have hten : (Json.Number.ofCount 10).reread = some (.ofCount 10) :=
    Json.reread_int ⟨by decide, by decide⟩
  have hreads : openRanges.toJson.ReadsBack true := by
    refine Json.readsBack_iff.2 ⟨?_, ?_⟩
    · simp [openRanges, toJson, Condition.toJson, Timeframe.toJson, Json.optional, Json.reread,
        Json.rereadItems, Json.rereadMembers, Json.document, Json.documents, Json.memberDocuments,
        hfive, hten]
    · simp [openRanges, toJson, Condition.toJson, Timeframe.toJson, Json.optional, Json.dialect]
  exact ⟨hreads, readsBack hreads⟩

end FilterForm
end SearchQuery
