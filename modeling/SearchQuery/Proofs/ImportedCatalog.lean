import SearchQuery.Proofs.CatalogRoundTrip
import SearchQuery.Proofs.CommandOutcomes

/-! # Imported catalogs

An import writes the JSON text of a catalog whatever the name of the file is, and a file whose
name says that it is TOML is read as TOML. So an imported catalog can be loaded when its file is
named otherwise, and then compiles forms as the catalog itself does. -/
namespace SearchQuery

open SearchQuery.Action FileTree Command

/-! ### Texts in files -/

theorem decodeText_toUTF8 (s : String) : decodeText s.toUTF8 = .ok s := by
  rw [decodeText, String.fromUTF8?, String.toUTF8_eq_toByteArray, dif_pos s.isValidUTF8]
  rfl

/-- No TOML document starts with a brace. -/
theorem Toml.parse?_of_brace {text : String} {cs : List Char} (h : text.toList = '{' :: cs) :
    parse? text = none := by
  have hspace : skipSpace ('{' :: cs) = '{' :: cs := by simp [skipSpace, isSpace]
  have hpart : scanKeyPart? ('{' :: cs) = none := by
    have hbare : isBareChar '{' = false := by decide
    simp [scanKeyPart?, hbare]
  have hkey : scanKey? depth ('{' :: cs) = none := by
    rw [depth, scanKey?, hspace, hpart]
    rfl
  have hlines (fuel : Nat) : scanLines? (fuel + 1) [] [] ('{' :: cs) = none := by
    rw [scanLines?, hspace]
    simp [hkey]
  have hmark : dropMark ('{' :: cs) = '{' :: cs := rfl
  simp only [parse?, h, hmark, hlines, Option.map_none]

namespace Catalog

theorem exists_toList_text (c : Catalog) : ∃ cs, c.text.toList = '{' :: cs := by
  rw [text, Json.pretty, String.toList_ofList, toJson]
  cases c.entries.map fun e => (e.1, e.2.toJson) with
  | nil => exact ⟨_, rfl⟩
  | cons m ms => exact ⟨_, rfl⟩

theorem ofTomlText_of_brace {text : String} {cs : List Char} (h : text.toList = '{' :: cs) :
    ofTomlText text = .error .catalogSyntax := by
  rw [ofTomlText, Toml.read?, Toml.parse?_of_brace h]
  rfl

theorem result_load {input : ByteArray} {path text : String} {t : FileTree}
    (h : t.read path >>= decodeText = .ok text) : (load (host input) path).result t =
      (if Path.extension? path = some "toml" then ofTomlText text else ofJsonText text, t) := by
  rw [load, result_bind_of_ok ((readText_eq_ok input path).2 h)]
  dsimp only
  rw [result_bind_log, result_ofExcept]
  split <;> rfl

/-- The text that an import writes is the catalog in every file but one of TOML. -/
theorem result_load_of_import {path : String} {t t' : FileTree} {c : Catalog} (hnamed : c.AllNamed)
    (hwrite : t.write path (line c.text).toUTF8 = .ok t') (input : ByteArray) :
    (load (host input) path).result t' =
      (if Path.extension? path = some "toml" then .error .catalogSyntax else .ok c, t') := by
  have hread : t'.read path >>= decodeText = .ok (line c.text) :=
    bind_eq_ok_iff.2 ⟨_, read_of_write hwrite, decodeText_toUTF8 _⟩
  obtain ⟨cs, hcs⟩ := exists_toList_text c
  have htoml : ofTomlText (line c.text) = .error .catalogSyntax :=
    ofTomlText_of_brace (by rw [line, String.toList_append, hcs, List.cons_append])
  have hspaces : ∀ s ∈ "\n".toList, Json.Token.isSpace s = true := by
    simp [Json.Token.isSpace]
  have hjson : ofJsonText (line c.text) = .ok c := hnamed.ofJsonText_append hspaces
  rw [result_load hread, htoml, hjson]

end Catalog

namespace Command

/-- What a compile does with a catalog at hand. -/
def compileWith {m : Type → Type} [Monad m] (h : Host m) (env : Environment)
    (given file : Option String) (catalog : Catalog) (size : Option UInt64)
    (lint compact : Bool) : Action m Outcome := do
  let config ← loadConfig h env given
  let form ← readDocument FilterForm.read (← readInput h file)
  Action.log (compileEvents config (some catalog) form size lint)
  pure (compileForm config (some catalog) form size lint compact)

variable {input : ByteArray} {env : Environment} {given : Option String} {t t' : FileTree}

/-- A compile with a catalog file is one with the catalog in it. -/
theorem result_compile {path : String} {catalog : Catalog}
    (h : (Catalog.load (host input) path).result t = (.ok catalog, t)) (file : Option String)
    (size : Option UInt64) (lint compact : Bool) :
    (perform (host input) env given (.compile file (some path) size lint compact)).result t =
      (compileWith (host input) env given file catalog size lint compact).result t := by
  have hleaves := leaves_loadConfig input env given t
  rcases hconfig : (loadConfig (host input) env given).result t with ⟨e | config, t'⟩
  · exact (result_bind_of_error hconfig).trans (result_bind_of_error hconfig).symm
  · obtain rfl : t' = t := by simpa [hconfig] using hleaves
    have hcatalog : (loadCatalog (host input) config (some path)).result t' =
        (.ok (some catalog), t') := result_bind_of_ok h
    have hwith := result_bind_of_ok (f := fun config => do
      let form ← readDocument FilterForm.read (← readInput (host input) file)
      Action.log (compileEvents config (some catalog) form size lint)
      pure (compileForm config (some catalog) form size lint compact)) hconfig
    exact (result_bind_of_ok hconfig).trans <| (result_bind_of_ok hcatalog).trans hwith.symm

theorem ReadsMapping.allNamed {mapping : String} {catalog : Catalog}
    (h : ReadsMapping t mapping catalog) : catalog.AllNamed := by
  obtain ⟨_, _, -, -, hcatalog⟩ := h
  exact Catalog.allNamed_of_ofMapping hcatalog

/-- An import that can read its mapping and write its file succeeds. -/
theorem ReadsMapping.result_import {mapping out : String} {catalog : Catalog}
    (h : ReadsMapping t mapping catalog)
    (hwrite : t.write out (line catalog.text).toUTF8 = .ok t') :
    (perform (host input) env given (.importCatalog mapping (some out))).result t =
      (.ok { output := line ("Wrote " ++ String.ofList (Json.digitChars catalog.size) ++
        " fields to " ++ out) }, t') := by
  obtain ⟨text, doc, htext, hdoc, hcatalog⟩ := h
  have hderive : (Action.ofExcept (Catalog.ofMapping doc) :
      Action (StateM FileTree) Catalog).result t = (.ok catalog, t) := by
    rw [result_ofExcept, hcatalog]
  have hout : (ofFile ((host input).writeText out (line catalog.text))).result t =
      (.ok (), t') := by
    rw [result_writeText, hwrite]
  exact (result_bind_of_ok ((readText_eq_ok input mapping).2 htext)).trans <|
    (result_bind_of_ok (readDocument_eq_ok.2 hdoc)).trans <|
    (result_bind_of_ok hderive).trans <| result_bind_of_ok hout

/-! ### An import -/

/-- A mapping with one field, in a file. -/
def skuMapping : Json := .keyed "properties" (.keyed "sku" (.keyed "type" (.str "keyword")))

def skuFiles : FileTree := ({} : FileTree).putFile .start "m.json" skuMapping.compact.toUTF8

theorem readsMapping_skuFiles : ∃ catalog, ReadsMapping skuFiles "m.json" catalog := by
  have hlocate : skuFiles.locate "m.json" = .ok (.name .start "m.json" false) := rfl
  have hread : skuFiles.read "m.json" = .ok skuMapping.compact.toUTF8 :=
    read_of_locate hlocate (by decide) (by rw [skuFiles, entries_putFile, if_pos rfl])
  have hdoc : skuMapping.ReadsBack false := by
    rw [Json.readsBack_iff]
    constructor
    · simp [skuMapping, Json.keyed, Json.reread, Json.rereadMembers, Json.document,
        Json.memberDocuments]
    · simp [skuMapping, Json.keyed, Json.dialect]
  exact ⟨_, skuMapping.compact, skuMapping,
    bind_eq_ok_iff.2 ⟨_, hread, decodeText_toUTF8 _⟩, hdoc, rfl⟩

/-- An import of the mapping into a new file next to it succeeds. -/
theorem turn_skuFiles (args : List String) {out : String}
    (hparse : Invocation.parse args = .ok ⟨none, false, .importCatalog "m.json" (some out)⟩)
    (hlocate : skuFiles.locate out = .ok (.name .start out false))
    (hsize : out.utf8ByteSize ≤ Path.maxNameSize) (hout : out ≠ "m.json") :
    (Call.turn ⟨{}, .empty, args, {}⟩ skuFiles).outcome.exitCode = 0 ∧
      ∃ catalog, ReadsMapping skuFiles "m.json" catalog ∧
        skuFiles.write out (line catalog.text).toUTF8 =
          .ok (Call.turn ⟨{}, .empty, args, {}⟩ skuFiles).after := by
  obtain ⟨catalog, hreads⟩ := readsMapping_skuFiles
  have hfree : skuFiles.entries[(Directory.start.key, out)]? = none := by
    rw [skuFiles, entries_putFile, if_neg (by simp [hout.symm])]
    exact Std.HashMap.getElem?_empty
  have hwrite := write_of_locate (line catalog.text).toUTF8 hlocate hsize (by simp [hfree])
  have hresult : (Call.action ⟨{}, .empty, args, {}⟩
      ⟨none, false, .importCatalog "m.json" (some out)⟩).result skuFiles = (.ok _, _) :=
    hreads.result_import hwrite
  rw [Call.turn_of_ok hparse hresult]
  exact ⟨rfl, catalog, hreads, hwrite⟩

/-! ### Every import -/

variable {c : Call} {inv : Invocation} {mapping out : String}

/-- An import that succeeds leaves a file from which the catalog of the mapping is loaded, unless
the name of the file says that it is TOML, and with which a compile does what it does with that
catalog. -/
theorem import_loads (hparse : Invocation.parse c.args = .ok inv)
    (htask : inv.task = .importCatalog mapping (some out))
    (hcode : (c.turn t).outcome.exitCode = 0) :
    ∃ catalog, ReadsMapping t mapping catalog ∧
      (∀ input, (Catalog.load (host input) out).result (c.turn t).after =
        (if Path.extension? out = some "toml" then .error .catalogSyntax else .ok catalog,
          (c.turn t).after)) ∧
      (Path.extension? out ≠ some "toml" → ∀ input env given file size lint compact,
        (perform (host input) env given (.compile file (some out) size lint compact)).result
            (c.turn t).after =
          (compileWith (host input) env given file catalog size lint compact).result
            (c.turn t).after) := by
  rcases hresult : (c.action inv).result t with ⟨e | o, t'⟩
  · rw [Call.turn_of_error hparse hresult] at hcode
    cases hcode
  · rw [Call.turn_of_ok hparse hresult] at hcode ⊢
    have heffect := perform_effect hresult
    rw [htask] at heffect
    cases heffect with
    | @importCatalog _ _ catalog _ _ _ hreads hwrite =>
      have hload := Catalog.result_load_of_import hreads.allNamed hwrite
      refine ⟨catalog, hreads, hload, fun hname input env given file size lint compact => ?_⟩
      refine result_compile ?_ file size lint compact
      rw [hload, if_neg hname]

def jsonImport : Call :=
  ⟨{}, .empty, ["catalog", "import", "m.json", "-o", "fields.json"], {}⟩

theorem jsonImport_loads :
    (jsonImport.turn skuFiles).outcome.exitCode = 0 ∧
      ∃ catalog, ReadsMapping skuFiles "m.json" catalog ∧
        (Catalog.load (host .empty) "fields.json").result (jsonImport.turn skuFiles).after =
          (.ok catalog, (jsonImport.turn skuFiles).after) := by
  have hcode := (turn_skuFiles jsonImport.args rfl rfl (by decide) (by decide)).1
  obtain ⟨catalog, hreads, hload, -⟩ := import_loads (c := jsonImport) rfl rfl hcode
  have hname : Path.extension? "fields.json" ≠ some "toml" := by decide
  exact ⟨hcode, catalog, hreads, by rw [hload, if_neg hname]⟩

def tomlImport : Call :=
  ⟨{}, .empty, ["catalog", "import", "m.json", "-o", "fields.toml"], {}⟩

/-- Into a file whose name says that it is TOML the import succeeds, and no catalog is loaded. -/
theorem tomlImport_notLoaded :
    (tomlImport.turn skuFiles).outcome.exitCode = 0 ∧
      (∃ catalog, ReadsMapping skuFiles "m.json" catalog) ∧
      ∀ catalog, (Catalog.load (host .empty) "fields.toml").result
        (tomlImport.turn skuFiles).after ≠ (.ok catalog, (tomlImport.turn skuFiles).after) := by
  have hname : Path.extension? "fields.toml" = some "toml" := by decide
  obtain ⟨hcode, catalog, hreads, hwrite⟩ :=
    turn_skuFiles tomlImport.args rfl rfl (by decide) (by decide)
  have hload := Catalog.result_load_of_import hreads.allNamed hwrite .empty
  refine ⟨hcode, ⟨catalog, hreads⟩, fun other hother => ?_⟩
  rw [if_pos hname] at hload
  cases hload.symm.trans hother

end Command
end SearchQuery
