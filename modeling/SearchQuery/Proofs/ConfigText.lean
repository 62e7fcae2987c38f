import SearchQuery.Config
import SearchQuery.Proofs.TomlPairs
import SearchQuery.Proofs.WrittenValues

/-! # Configurations as text

What is written for a configuration is read as this configuration, whatever its catalog is called.
Only a size that takes more than the 63 bits below the sign of a TOML integer cannot be written. -/
namespace SearchQuery.Config

open Document Toml

/-- The largest size that can be written. -/
def maxSize : Nat := 9223372036854775807

theorem signedLimit_eq : Json.signedLimit = maxSize + 1 := rfl

theorem exists_toToml_iff {c : Config} :
    (∃ text, c.toToml = .ok text) ↔ c.defaultSize.toNat ≤ maxSize := by
  have hlimit := signedLimit_eq
  unfold toToml
  split
  · simp only [reduceCtorEq, exists_false, false_iff]
    omega
  · simp only [Except.ok.injEq, exists_eq', true_iff]
    omega

theorem toToml_eq_error_iff {c : Config} {e : Error} :
    c.toToml = .error e ↔ maxSize < c.defaultSize.toNat ∧ e = .configSize := by
  have hlimit := signedLimit_eq
  unfold toToml
  split
  · have hlarge : maxSize < c.defaultSize.toNat := by omega
    simp [hlarge, eq_comm]
  · simp only [reduceCtorEq, false_iff, not_and]
    omega

theorem names_toJson {c : Config} {ms : List (String × Json)} (h : c.toJson = .obj ms) :
    (ms.map Prod.fst).Sublist members := by
  obtain rfl := Json.obj.inj h
  rw [List.map_append]
  exact (Json.names_optional "catalog" _).append (List.Sublist.refl _)

/-- The lines of the TOML text are those of the members. -/
theorem spellsLines_toToml {c : Config} {text : String} (h : c.toToml = .ok text) :
    ∃ ms, c.toJson = .obj ms ∧ SpellsLines text.toList ms := by
  unfold toToml at h
  split at h
  · cases h
  · rename_i hlimit
    obtain rfl := Except.ok.inj h
    refine ⟨_, rfl, ?_⟩
    have hsize : SpellsValue (Json.digitChars c.defaultSize.toNat) (.num (.ofCount c.defaultSize)) :=
      spellsValue_count (Nat.lt_of_not_le hlimit)
    have hpretty := SpellsLines.nil.pair (by decide : IsBareKey "pretty")
      (spellsValue_bool c.pretty)
    have hstrict := hpretty.pair (by decide : IsBareKey "strict") (spellsValue_bool c.strict)
    have hlint := hstrict.pair (by decide : IsBareKey "lint_on_compile")
      (spellsValue_bool c.lintOnCompile)
    have hrest := hlint.pair (by decide : IsBareKey "default_size") hsize
    cases hcatalog : c.catalog with
    | none => simpa [Json.optional] using hrest
    | some path =>
      have hall := hrest.pair (by decide : IsBareKey "catalog") (spellsValue_string path)
      simpa [Json.optional] using hall

/-- A configuration is read from its document. -/
theorem read_toJson {d : Dialect} {depth : Nat} (hdepth : d.depth = depth + 1) (c : Config) :
    read d c.toJson.document = some c := by
  have hms : c.toJson = .obj _ := rfl
  rw [hms, read, record?_document hdepth (by decide) (names_toJson hms)]
  generalize ({ d with depth } : Dialect) = inner
  have hcatalog : (c.catalog.map Json.str).elim (some none)
      (fun v => Reader.nullable Reader.text inner v.document) = some c.catalog :=
    elim_optional fun _ _ => rfl
  have hsize : Reader.count inner (Json.num (.ofCount c.defaultSize)).document =
      some c.defaultSize := by
    have hlt : c.defaultSize.toNat < UInt64.size := c.defaultSize.toNat_lt
    simp [Json.document, Reader.count, Json.Number.count?, Json.Number.ofCount, hlt]
  have hbool (b : Bool) : Reader.bool inner (Json.bool b).document = some b := rfl
  simp [Record.getD_ofMembers, List.lookup_append, List.lookup_cons, hcatalog, hsize, hbool]

/-- What is written for a configuration is read as this configuration. -/
theorem read?_toToml {c : Config} {text : String} (h : c.toToml = .ok text) :
    Toml.read? read text = some c := by
  obtain ⟨ms, hms, hlines⟩ := spellsLines_toToml h
  have hkeys : (ms.map Prod.fst).Nodup := (names_toJson hms).nodup (by decide)
  rw [Toml.read?, hlines.parse?_eq hkeys, ← hms]
  exact read_toJson rfl c

end SearchQuery.Config
