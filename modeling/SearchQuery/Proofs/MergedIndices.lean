import SearchQuery.Proofs.MappingFields
import Mathlib.Data.List.Rotate

/-! # Documents of several indices

The properties of a mapping may stand alone, under `mappings`, or under the name of an index. A
document of indices has the entries that the mappings of its indices have by themselves; of several
entries of one name it has that of the first index. -/
namespace SearchQuery.Catalog

/-- The object of properties in the mapping of an index. -/
def indexProperties? (index : Json) : Option (List (String × Json)) :=
  (index.member? "mappings").bind properties?

def indices (doc : Json) : List (String × Json) := doc.members?.getD []

/-- A document that has no properties but those of its indices. -/
structure ByIndex (doc : Json) : Prop where
  no_properties : properties? doc = none
  no_mappings : indexProperties? doc = none

def bareMapping (ps : List (String × Json)) : Json := .keyed "properties" (.obj ps)

def underMappings (ps : List (String × Json)) : Json := .keyed "mappings" (bareMapping ps)

/-- The entry for a key that the mapping of an index has when it stands alone. -/
def indexField? (key : String) (index : Json) : Option Field :=
  (indexProperties? index).bind fun ps => (ofMapping (bareMapping ps)).toOption.bind (get? · key)

variable {doc doc' : Json} {c c' : Catalog} {ms ns before after : List (String × Json)}

section Shapes

theorem roots_bareMapping (ps : List (String × Json)) : roots (bareMapping ps) = [ps] := rfl

theorem roots_underMappings (ps : List (String × Json)) : roots (underMappings ps) = [ps] := rfl

theorem ByIndex.roots_eq (h : ByIndex doc) :
    roots doc = (indices doc).filterMap fun m => indexProperties? m.2 := by
  have hmappings : (doc.member? "mappings").bind properties? = none := h.no_mappings
  rw [roots, h.no_properties, hmappings]
  rfl

theorem byIndex_obj_iff : ByIndex (.obj ms) ↔
    (∀ ps, ms.lookup "properties" ≠ some (.obj ps)) ∧
      ∀ mapping, ms.lookup "mappings" = some mapping → properties? mapping = none := by
  have hproperties : properties? (.obj ms) = none ↔
      ∀ ps, ms.lookup "properties" ≠ some (.obj ps) := by
    simp [Option.eq_none_iff_forall_ne_some, properties?_eq_some, Json.member?]
  have hmappings : indexProperties? (.obj ms) = none ↔
      ∀ mapping, ms.lookup "mappings" = some mapping → properties? mapping = none := by
    simp [indexProperties?, Option.bind_eq_none_iff, Json.member?]
  rw [← hproperties, ← hmappings]
  exact ⟨fun h => ⟨h.no_properties, h.no_mappings⟩, fun h => ⟨h.1, h.2⟩⟩

/-- A document of indices stays one without some of its members and in another order of them. -/
theorem ByIndex.of_subset (h : ByIndex (.obj ms)) (hdistinct : (ms.map Prod.fst).Nodup)
    (hsubset : ns ⊆ ms) : ByIndex (.obj ns) := by
  have hlookup {name : String} {v : Json} (hv : ns.lookup name = some v) :
      ms.lookup name = some v :=
    (Json.lookup_eq_some_iff_mem hdistinct).2 (hsubset (Json.mem_of_lookup_eq_some hv))
  obtain ⟨hproperties, hmappings⟩ := byIndex_obj_iff.1 h
  exact byIndex_obj_iff.2 ⟨fun ps hps => hproperties ps (hlookup hps),
    fun mapping hmapping => hmappings mapping (hlookup hmapping)⟩

theorem byIndex_keyed {name : String} (hname : name ≠ "properties") (ps : List (String × Json)) :
    ByIndex (.keyed name (underMappings ps)) := by
  refine byIndex_obj_iff.2 ⟨fun inner => ?_, fun mapping hmapping => ?_⟩
  · simp [List.lookup_cons, beq_false_of_ne hname.symm]
  · rw [List.lookup_cons] at hmapping
    split at hmapping
    · obtain rfl := Option.some.inj hmapping
      rfl
    · cases hmapping

/-- Under each name a mapping that stands alone has the first field that its properties define. -/
theorem get?_bareMapping {ps : List (String × Json)} (h : ofMapping (bareMapping ps) = .ok c)
    (key : String) (f : Field) : c.get? key = some f ↔ f.name = key ∧
      ∃ place, Defines [] ps place f ∧
        ∀ place' f', Defines [] ps place' f' → f'.name = key → place ≤ place' := by
  have hfields : InOrder (Defines [] ps) (propertyFields {} ps) := propertyFields_inOrder [] ps
  rw [get?_ofMapping h, roots_bareMapping, List.flatMap_singleton, hfields.find?_eq_some_iff]
  simp only [decide_eq_true_eq, not_lt]

/-- Properties make the same catalog in each of the three places where they may stand. -/
theorem ofMapping_shapes (ps : List (String × Json)) : ∃ c, ofMapping (bareMapping ps) = .ok c ∧
    ofMapping (underMappings ps) = .ok c ∧
    ∀ name, name ≠ "properties" → ofMapping (.keyed name (underMappings ps)) = .ok c := by
  refine ⟨_, ofMapping_eq_ok_iff.2 ⟨by simp [roots_bareMapping], rfl⟩, ?_, fun name hname => ?_⟩
  · exact ofMapping_eq_ok_iff.2 ⟨by simp [roots_underMappings], rfl⟩
  · have hroots : roots (.keyed name (underMappings ps)) = [ps] := (byIndex_keyed hname ps).roots_eq
    exact ofMapping_eq_ok_iff.2 ⟨by simp [hroots], by rw [hroots, roots_bareMapping]⟩

end Shapes

section Merge

theorem ofMapping_eq_error_iff {e : Error} :
    ofMapping doc = .error e ↔ e = .noProperties ∧ roots doc = [] := by
  unfold ofMapping
  cases roots doc <;> simp [eq_comm]

theorem ByIndex.ofMapping_eq_error_iff (h : ByIndex doc) {e : Error} :
    ofMapping doc = .error e ↔
      e = .noProperties ∧ ∀ m ∈ indices doc, indexProperties? m.2 = none := by
  rw [Catalog.ofMapping_eq_error_iff, h.roots_eq, List.filterMap_eq_nil_iff]

theorem indexField?_eq_find? (key : String) (index : Json) : indexField? key index =
    (indexProperties? index).bind fun ps =>
      (propertyFields {} ps).find? fun f => f.name = key := by
  unfold indexField?
  refine Option.bind_congr fun ps _ => ?_
  obtain ⟨c, hc, -⟩ := ofMapping_shapes ps
  rw [hc, Except.toOption, Option.bind_some, get?_ofMapping hc, roots_bareMapping,
    List.flatMap_singleton]

/-- The first index that has an entry of its own gives the entry of the document. -/
theorem ByIndex.get?_ofMapping (h : ByIndex doc) (hc : ofMapping doc = .ok c) (key : String) :
    c.get? key = (indices doc).findSome? fun m => indexField? key m.2 := by
  rw [Catalog.get?_ofMapping hc, h.roots_eq, List.find?_flatMap, ← List.head?_filterMap,
    List.filterMap_filterMap, List.head?_filterMap]
  simp only [indexField?_eq_find?]

/-- Documents of indices that yield the same entries have the same catalog. -/
theorem ByIndex.ofMapping_congr (h : ByIndex doc) (h' : ByIndex doc')
    (hnone : (∀ m ∈ indices doc, indexProperties? m.2 = none) ↔
      ∀ m ∈ indices doc', indexProperties? m.2 = none)
    (hentries : ∀ key, (indices doc).findSome? (fun m => indexField? key m.2) =
      (indices doc').findSome? fun m => indexField? key m.2) : ofMapping doc = ofMapping doc' := by
  have herror (e : Error) : ofMapping doc = .error e ↔ ofMapping doc' = .error e := by
    rw [h.ofMapping_eq_error_iff, h'.ofMapping_eq_error_iff, hnone]
  cases hc : ofMapping doc with
  | error e => exact ((herror e).1 hc).symm
  | ok c =>
    cases hc' : ofMapping doc' with
    | error e =>
      have hok := hc.symm.trans ((herror e).2 hc')
      cases hok
    | ok c' =>
      refine congrArg Except.ok (ext_get? fun key => ?_)
      rw [h.get?_ofMapping hc, h'.get?_ofMapping hc', hentries]

/-- An index with no properties, or with those of an index before it, adds nothing. -/
theorem ofMapping_repeated {m : String × Json} (h : ByIndex (.obj (before ++ m :: after)))
    (hdistinct : ((before ++ m :: after).map Prod.fst).Nodup)
    (hrepeats : ∀ ps, indexProperties? m.2 = some ps →
      ∃ m' ∈ before, indexProperties? m'.2 = some ps) :
    ofMapping (.obj (before ++ m :: after)) = ofMapping (.obj (before ++ after)) := by
  have hsublist : (before ++ after).Sublist (before ++ m :: after) :=
    (List.sublist_cons_self m after).append_left before
  have hnone : (∀ m' ∈ before, indexProperties? m'.2 = none) → indexProperties? m.2 = none := by
    intro hbefore
    refine Option.eq_none_iff_forall_ne_some.2 fun ps hps => ?_
    obtain ⟨m', hm', hps'⟩ := hrepeats ps hps
    simp [hbefore m' hm'] at hps'
  refine h.ofMapping_congr (h.of_subset hdistinct hsublist.subset) ?_ fun key => ?_
  · simp only [indices, Json.members?, Option.getD_some, List.forall_mem_append,
      List.forall_mem_cons]
    constructor
    · rintro ⟨hbefore, -, hafter⟩
      exact ⟨hbefore, hafter⟩
    · rintro ⟨hbefore, hafter⟩
      exact ⟨hbefore, hnone hbefore, hafter⟩
  · simp only [indices, Json.members?, Option.getD_some, List.findSome?_append]
    cases hfirst : before.findSome? fun m => indexField? key m.2 with
    | some f => rfl
    | none =>
      -- an entry of the index would be one of the earlier index, too
      have hentry : indexField? key m.2 = none := by
        rw [indexField?, Option.bind_eq_none_iff]
        intro ps hps
        obtain ⟨m', hm', hps'⟩ := hrepeats ps hps
        have hentry' := List.findSome?_eq_none_iff.1 hfirst m' hm'
        rwa [indexField?, hps'] at hentry'
      rw [List.findSome?_cons, hentry]

/-- The order of a list does not matter where at most one member yields anything. -/
theorem findSome?_perm {α β : Type} {xs ys : List α} (h : xs.Perm ys) {f : α → Option β}
    (hcount : xs.countP (fun x => (f x).isSome) ≤ 1) : xs.findSome? f = ys.findSome? f := by
  rw [← List.length_filterMap_eq_countP] at hcount
  rw [← List.head?_filterMap, ← List.head?_filterMap,
    eq_of_perm_of_length_le_one (h.filterMap f) hcount]

theorem ofMapping_perm (h : ByIndex (.obj ms)) (hdistinct : (ms.map Prod.fst).Nodup)
    (hperm : ms.Perm ns) :
    ((∃ c, ofMapping (.obj ms) = .ok c) ↔ ∃ c, ofMapping (.obj ns) = .ok c) ∧
      ∀ c c', ofMapping (.obj ms) = .ok c → ofMapping (.obj ns) = .ok c' → ∀ key,
        c.get? key ≠ c'.get? key → 1 < ms.countP fun m => (indexField? key m.2).isSome := by
  have h' : ByIndex (.obj ns) := h.of_subset hdistinct hperm.symm.subset
  refine ⟨?_, fun c c' hc hc' key hne => ?_⟩
  · have hroots : (roots (.obj ms)).Perm (roots (.obj ns)) := by
      rw [h.roots_eq, h'.roots_eq]
      exact hperm.filterMap _
    simp only [ofMapping_eq_ok_iff, exists_and_left, exists_eq, and_true]
    rw [← List.length_pos_iff, ← List.length_pos_iff, hroots.length_eq]
  · refine Nat.lt_of_not_le fun hle => hne ?_
    rw [h.get?_ofMapping hc, h'.get?_ofMapping hc']
    exact findSome?_perm hperm hle

end Merge

/-- A document of indices has a catalog when some index has properties, and for each key this has
the entry of the first index that yields one by itself. The three shapes of a mapping make one
catalog, which has the first definition of each name. An index that repeats the properties of an
earlier one changes nothing, and the order of the indices matters only to keys that more than one of
them yields. -/
theorem ofMapping_indices :
    (∀ doc, ByIndex doc →
      (∀ e, ofMapping doc = .error e ↔
        e = .noProperties ∧ ∀ m ∈ indices doc, indexProperties? m.2 = none) ∧
      ∀ c, ofMapping doc = .ok c → ∀ key,
        c.get? key = (indices doc).findSome? fun m => indexField? key m.2) ∧
    (∀ ps, ∃ c, (ofMapping (bareMapping ps) = .ok c ∧ ofMapping (underMappings ps) = .ok c ∧
        ∀ name, name ≠ "properties" → ofMapping (.keyed name (underMappings ps)) = .ok c) ∧
      ∀ key f, c.get? key = some f ↔ f.name = key ∧ ∃ place, Defines [] ps place f ∧
        ∀ place' f', Defines [] ps place' f' → f'.name = key → place ≤ place') ∧
    (∀ before m after, ByIndex (.obj (before ++ m :: after)) →
      ((before ++ m :: after).map Prod.fst).Nodup →
      (∀ ps, indexProperties? m.2 = some ps → ∃ m' ∈ before, indexProperties? m'.2 = some ps) →
      ofMapping (.obj (before ++ m :: after)) = ofMapping (.obj (before ++ after))) ∧
    ∀ ms ns : List (String × Json), ByIndex (.obj ms) → (ms.map Prod.fst).Nodup → ms.Perm ns →
      ((∃ c, ofMapping (.obj ms) = .ok c) ↔ ∃ c, ofMapping (.obj ns) = .ok c) ∧
      ∀ c c', ofMapping (.obj ms) = .ok c → ofMapping (.obj ns) = .ok c' → ∀ key,
        c.get? key ≠ c'.get? key → 1 < ms.countP fun m => (indexField? key m.2).isSome := by
  refine ⟨fun doc h => ⟨fun e => h.ofMapping_eq_error_iff, fun c hc => h.get?_ofMapping hc⟩,
    fun ps => ?_, fun _ _ _ => ofMapping_repeated, fun _ _ => ofMapping_perm⟩
  obtain ⟨c, hc, hshapes⟩ := ofMapping_shapes ps
  exact ⟨c, ⟨hc, hshapes⟩, get?_bareMapping hc⟩

/-- An index with a field `sku` of some type and another field. -/
def skuIndex (type name : String) : Json :=
  underMappings [("sku", .keyed "type" (.str type)), (name, .keyed "type" (.str "text"))]

/-- Two indices with a field `sku` of different types, one without properties, and the first one
again. -/
def skuIndices : List (String × Json) :=
  [("old", skuIndex "keyword" "label"), ("empty", .keyed "aliases" (.obj [])),
    ("new", skuIndex "long" "title"), ("copy", skuIndex "keyword" "label")]

/-- The type of `sku` is that of the index in front. The copy at the end changes nothing. -/
theorem skuIndices_merged : ∃ c c',
    (ByIndex (.obj skuIndices) ∧ (skuIndices.map Prod.fst).Nodup) ∧
    (ofMapping (.obj skuIndices) = .ok c ∧ ofMapping (.obj (skuIndices.rotate 2)) = .ok c') ∧
    ((c.get? "sku").map Field.type = some .keyword ∧ (c'.get? "sku").map Field.type = some .long) ∧
    1 < (skuIndices.countP fun m => (indexField? "sku" m.2).isSome) ∧
    c.get? "title" = skuIndices.findSome? (fun m => indexField? "title" m.2) ∧
    ofMapping (.obj skuIndices) = ofMapping (.obj skuIndices.dropLast) := by
  obtain ⟨hmerged, -, hrepeated, hreordered⟩ := ofMapping_indices
  have hindices : ByIndex (.obj skuIndices) := ⟨rfl, rfl⟩
  have hdistinct : (skuIndices.map Prod.fst).Nodup := by decide
  have hrotated := hreordered skuIndices (skuIndices.rotate 2) hindices hdistinct
    (List.rotate_perm skuIndices 2).symm
  have hcopy := hrepeated skuIndices.dropLast ("copy", skuIndex "keyword" "label") [] hindices
    hdistinct fun ps hps => ⟨_, List.mem_cons_self, hps⟩
  exact ⟨_, _, ⟨hindices, hdistinct⟩, ⟨rfl, rfl⟩, by decide,
    hrotated.2 _ _ rfl rfl "sku" (by decide), (hmerged _ hindices).2 _ rfl "title", hcopy⟩

end SearchQuery.Catalog
