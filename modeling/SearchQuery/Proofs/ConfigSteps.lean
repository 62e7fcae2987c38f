import SearchQuery.Proofs.ConfigText
import SearchQuery.Proofs.ImportedCatalog

/-! # Configurations kept in files

One configuration is loaded, set and saved in any order, while its files change. A step that fails
changes neither the configuration nor any file, and what was saved is loaded until something else
is saved in its place. -/
namespace SearchQuery.Config

open SearchQuery.Action FileTree

inductive Step
  /-- Takes the configuration in a file. -/
  | load (path : String)
  | set (c : Config)
  /-- Takes the configuration that a JSON text spells. -/
  | parse (text : String)
  | save (path : String)

/-- A configuration, and the files that are there. -/
structure State where
  config : Config
  tree : FileTree

variable (input : ByteArray)

/-- The configuration after a step that succeeds. -/
def perform (c : Config) : Step → Action (StateM FileTree) Config
  | .load path => loadFrom (host input) path
  | .set c' => pure c'
  | .parse text => ofOption .json (Json.read? read text)
  | .save path => do
    save (host input) c path
    pure c

/-- The directories above the path can be made, and then a file can be written there. -/
def CanSave (t : FileTree) (path : String) : Prop :=
  ∃ mid content t', (host input).ensureDirectories (Path.above path) t = (.ok (), mid) ∧
    mid.write path content = .ok t'

namespace State

def result (s : State) (step : Step) : Except Error Config × FileTree :=
  (perform input s.config step).result s.tree

/-- The state after a step, which keeps the configuration when it fails. -/
def next (s : State) (step : Step) : State :=
  match s.result input step with
  | (.ok c, t) => ⟨c, t⟩
  | (.error _, t) => ⟨s.config, t⟩

/-- The state after some steps. -/
def run (s : State) (steps : List Step) : State := steps.foldl (next input) s

/-- The step writes the configuration at a place. -/
def SavesAt (s : State) (step : Step) (place : Place) : Prop :=
  ∃ path, step = .save path ∧ (s.result input step).1 = .ok s.config ∧
    (s.next input step).tree.LeadsTo path place

/-- None of the steps writes a configuration at a place. -/
def Spares (place : Place) : State → List Step → Prop
  | _, [] => True
  | s, step :: steps => ¬ s.SavesAt input step place ∧ Spares place (s.next input step) steps

/-- What holds of a step, whatever the configuration and the files are. -/
structure IsLawful (s : State) (step : Step) : Prop where
  /-- A step that fails leaves the configuration and the content of every file. -/
  failure : ∀ e, (s.result input step).1 = .error e →
    (s.next input step).config = s.config ∧ s.tree.SameFiles (s.next input step).tree ∧
      ∀ path content, s.tree.read path = .ok content →
        (s.next input step).tree.read path = .ok content
  /-- Only saving changes the files. -/
  tree : (∀ path, step ≠ .save path) → (s.next input step).tree = s.tree
  /-- Loading gives the defaults for a file that is not there, and else what its text says. -/
  load : ∀ path, step = .load path → ∀ c, s.result input step = (.ok c, s.tree) ↔
    s.tree.exists? path = false ∧ c = {} ∨
      ∃ text, s.tree.read path >>= decodeText = .ok text ∧ Toml.read? Config.read text = some c
  save : ∀ path, step = .save path → ((s.result input step).1 = .ok s.config ↔
    CanSave input s.tree path ∧ s.config.defaultSize.toNat ≤ maxSize)
  /-- Where a file can be saved, only a size that is too large is in the way. -/
  size : ∀ path, step = .save path → CanSave input s.tree path → ∀ e,
    (s.result input step).1 = .error e ↔
      maxSize < s.config.defaultSize.toNat ∧ e = .configSize ∧ e.kind = .config
  /-- What was saved is loaded as long as nothing else is saved in its place. -/
  saved : ∀ path, step = .save path → (s.result input step).1 = .ok s.config → ∀ later,
    (∀ place, (s.next input step).tree.LeadsTo path place →
      Spares input place (s.next input step) later) →
    ((s.next input step).run input later).result input (.load path) =
      (.ok s.config, ((s.next input step).run input later).tree)

end State

variable {input} {s : State} {step : Step} {c : Config} {path : String} {t t' mid : FileTree}
  {e : Error}

/-! ### Loading and saving -/

theorem result_loadFrom_eq_ok_iff : (loadFrom (host input) path).result t = (.ok c, t) ↔
    t.exists? path = false ∧ c = {} ∨
      ∃ text, t.read path >>= decodeText = .ok text ∧ Toml.read? read text = some c := by
  have hexists : Action.result (liftM ((host input).exists? path)) t = (.ok (t.exists? path), t) :=
    rfl
  constructor
  · intro h
    rw [loadFrom, result_bind_of_ok hexists] at h
    split at h
    · obtain ⟨text, htext, h⟩ := (leaves_readText input path).of_bind_ok h
      rw [result_bind_log] at h
      exact .inr ⟨text, (readText_eq_ok input path).1 htext, ofOption_eq_ok.1 h⟩
    · cases h
      exact .inl ⟨by simp_all, rfl⟩
  · rintro (⟨hmissing, rfl⟩ | ⟨text, htext, hread⟩)
    · rw [loadFrom, result_bind_of_ok hexists, hmissing]
      rfl
    · obtain ⟨content, hcontent, -⟩ := bind_eq_ok_iff.1 htext
      rw [loadFrom, result_bind_of_ok hexists, if_pos (exists?_of_read hcontent)]
      rw [result_bind_of_ok ((readText_eq_ok input path).2 htext), result_bind_log]
      exact ofOption_eq_ok.2 hread

/-- The directories are made first, then the text, which is written last. -/
theorem result_save_of_ok
    (hdirs : (host input).ensureDirectories (Path.above path) t = (.ok (), mid)) :
    (save (host input) c path).result t = match c.toToml with
      | .error e => (.error e, mid)
      | .ok text => (ofFile ((host input).writeText path text)).result mid := by
  rw [save, result_bind_of_ok (result_ofFile_eq_ok.2 hdirs)]
  cases htoml : c.toToml with
  | error e => exact result_bind_of_error (by rw [result_ofExcept])
  | ok text => exact result_bind_of_ok (by rw [result_ofExcept])

theorem save_eq_ok_iff : (save (host input) c path).result t = (.ok (), t') ↔
    ∃ mid text, (host input).ensureDirectories (Path.above path) t = (.ok (), mid) ∧
      c.toToml = .ok text ∧ mid.write path text.toUTF8 = .ok t' := by
  constructor
  · intro h
    obtain ⟨_, mid, hdirs, h⟩ := of_result_bind_ok h
    obtain ⟨text, htext, h⟩ := (leaves_ofExcept c.toToml).of_bind_ok h
    exact ⟨mid, text, result_ofFile_eq_ok.1 hdirs, by simpa using htext,
      of_writeText input path h⟩
  · rintro ⟨mid, text, hdirs, htext, hwrite⟩
    rw [result_save_of_ok hdirs, htext]
    simp only
    rw [result_writeText, hwrite]

/-- A configuration is saved where this can be, unless its size is too large. -/
theorem exists_save_iff : (∃ t', (save (host input) c path).result t = (.ok (), t')) ↔
    CanSave input t path ∧ c.defaultSize.toNat ≤ maxSize := by
  simp only [save_eq_ok_iff, ← exists_toToml_iff]
  constructor
  · rintro ⟨t', mid, text, hdirs, htext, hwrite⟩
    exact ⟨⟨mid, _, t', hdirs, hwrite⟩, text, htext⟩
  · rintro ⟨⟨mid, content, t', hdirs, hwrite⟩, text, htext⟩
    obtain ⟨t'', hwrite⟩ := exists_write hwrite text.toUTF8
    exact ⟨t'', mid, text, hdirs, htext, hwrite⟩

theorem CanSave.save_eq_error_iff (h : CanSave input t path) :
    ((save (host input) c path).result t).1 = .error e ↔
      maxSize < c.defaultSize.toNat ∧ e = .configSize := by
  obtain ⟨mid, content, t', hdirs, hwrite⟩ := h
  rw [result_save_of_ok hdirs, ← toToml_eq_error_iff]
  cases htoml : c.toToml with
  | error e => simp
  | ok text =>
    obtain ⟨t'', hwrite⟩ := exists_write hwrite text.toUTF8
    simp only
    rw [result_writeText, hwrite]
    simp

/-- A configuration that cannot be saved leaves all files, and all directories. -/
theorem extends_of_save_error (h : (save (host input) c path).result t = (.error e, t')) :
    t.Extends t' := by
  have hmade := extends_ensureDirectories input (Path.above path) t
  rcases hdirs : (host input).ensureDirectories (Path.above path) t with ⟨cause | _, mid⟩
  · rw [hdirs] at hmade
    have hfail : (ofFile ((host input).ensureDirectories (Path.above path))).result t =
        (.error (.file cause), mid) := by
      rw [result_ofFile, hdirs]
      rfl
    rw [save, result_bind_of_error hfail] at h
    cases h
    exact hmade
  · rw [hdirs] at hmade
    rw [result_save_of_ok hdirs] at h
    split at h
    · cases h
      exact hmade
    · rw [result_writeText] at h
      split at h <;> cases h
      exact hmade

/-! ### Steps -/

namespace State

theorem tree_next : (s.next input step).tree = (s.result input step).2 := by
  rw [next]
  rcases s.result input step with ⟨_ | c, t⟩ <;> rfl

theorem config_next_of_error (h : (s.result input step).1 = .error e) :
    (s.next input step).config = s.config := by
  rw [next]
  rcases hresult : s.result input step with ⟨_ | c, t⟩
  · rfl
  · rw [hresult] at h
    cases h

theorem result_save (s : State) (path : String) : s.result input (.save path) =
    (((save (host input) s.config path).result s.tree).1.map fun _ => s.config,
      ((save (host input) s.config path).result s.tree).2) := by
  rw [result, perform, result_bind]
  rcases (save (host input) s.config path).result s.tree with ⟨_ | _, t⟩ <;> rfl

theorem tree_of_ne_save (h : ∀ path, step ≠ .save path) : (s.next input step).tree = s.tree := by
  rw [tree_next]
  cases step with
  | load path => exact leaves_loadFrom input path s.tree
  | set c => rfl
  | parse text => exact leaves_ofOption _ _ s.tree
  | save path => exact absurd rfl (h path)

/-- A step keeps all files, unless it writes the configuration to one of them. -/
theorem next_cases (input : ByteArray) (s : State) (step : Step) :
    s.tree.Extends (s.next input step).tree ∨
      ∃ path mid content, step = .save path ∧ (s.result input step).1 = .ok s.config ∧
        s.tree.Extends mid ∧ mid.write path content = .ok (s.next input step).tree := by
  by_cases hsave : ∃ path, step = .save path
  · obtain ⟨path, rfl⟩ := hsave
    rw [tree_next, result_save]
    rcases hresult : (save (host input) s.config path).result s.tree with ⟨_ | ⟨⟩, t⟩
    · exact .inl (extends_of_save_error hresult)
    · obtain ⟨mid, text, hdirs, -, hwrite⟩ := save_eq_ok_iff.1 hresult
      have hmade := extends_ensureDirectories input (Path.above path) s.tree
      rw [hdirs] at hmade
      exact .inr ⟨path, mid, _, rfl, rfl, hmade, hwrite⟩
  · rw [tree_of_ne_save (by simpa using hsave)]
    exact .inl (.refl _)

theorem keepsDirectories_next (s : State) (step : Step) :
    s.tree.KeepsDirectories (s.next input step).tree := by
  rcases next_cases input s step with hkept | ⟨path, mid, _, -, -, hmid, hwrite⟩
  · exact hkept.directories
  · exact hmid.directories.trans (keepsDirectories_of_write hwrite)

/-- A file changes only when the configuration is saved in its place. -/
theorem fileAt?_next {place : Place} (h : ¬ s.SavesAt input step place) :
    (s.next input step).tree.fileAt? place = s.tree.fileAt? place := by
  rcases next_cases input s step with
    hkept | ⟨path, mid, _, hstep, hok, hmid, hwrite⟩
  · exact hkept.files place
  · by_contra hne
    rw [← hmid.files place] at hne
    exact h ⟨path, hstep, hok, (leadsTo_of_write hwrite hne).2⟩

theorem keepsDirectories_run (s : State) (steps : List Step) :
    s.tree.KeepsDirectories (s.run input steps).tree := by
  induction steps generalizing s with
  | nil => exact .refl _
  | cons step steps ih => exact (keepsDirectories_next s step).trans (ih _)

theorem fileAt?_run {place : Place} {steps : List Step} (h : Spares input place s steps) :
    (s.run input steps).tree.fileAt? place = s.tree.fileAt? place := by
  induction steps generalizing s with
  | nil => rfl
  | cons step steps ih => exact (ih h.2).trans (fileAt?_next h.1)

/-- What was saved is loaded as long as nothing else is saved in its place. -/
theorem load_run_of_save
    (hsave : (save (host input) c path).result t = (.ok (), s.tree)) {later : List Step}
    (hlater : ∀ place, s.tree.LeadsTo path place → Spares input place s later) :
    (loadFrom (host input) path).result (s.run input later).tree =
      (.ok c, (s.run input later).tree) := by
  obtain ⟨mid, text, -, htext, hwrite⟩ := save_eq_ok_iff.1 hsave
  have hread : (s.run input later).tree.read path = .ok text.toUTF8 :=
    read_of_keepsDirectories (keepsDirectories_run s later) (read_of_write hwrite)
      fun place hplace => fileAt?_run (hlater place hplace)
  have hdecode : (s.run input later).tree.read path >>= decodeText = .ok text :=
    bind_eq_ok_iff.2 ⟨_, hread, decodeText_toUTF8 text⟩
  exact result_loadFrom_eq_ok_iff.2 (.inr ⟨text, hdecode, read?_toToml htext⟩)

theorem result_save_eq_ok_iff : (s.result input (.save path)).1 = .ok s.config ↔
    ∃ t', (save (host input) s.config path).result s.tree = (.ok (), t') := by
  rw [result_save]
  rcases (save (host input) s.config path).result s.tree with ⟨_ | ⟨⟩, t⟩
  · exact ⟨nofun, nofun⟩
  · exact ⟨fun _ => ⟨t, rfl⟩, fun _ => rfl⟩

theorem result_save_eq_error_iff : (s.result input (.save path)).1 = .error e ↔
    ((save (host input) s.config path).result s.tree).1 = .error e := by
  rw [result_save]
  rcases (save (host input) s.config path).result s.tree with ⟨_ | ⟨⟩, t⟩
  · simp [Except.map]
  · exact ⟨nofun, nofun⟩

theorem of_result_eq_error (h : (s.result input step).1 = .error e) :
    s.tree.Extends (s.next input step).tree := by
  rcases next_cases input s step with hkept | ⟨_, _, _, _, hok, -⟩
  · exact hkept
  · rw [h] at hok
    cases hok

theorem isLawful (s : State) (step : Step) : s.IsLawful input step where
  failure e h :=
    have hkept := of_result_eq_error h
    ⟨config_next_of_error h, hkept.files, fun _ _ => hkept.read_eq_ok⟩
  tree := tree_of_ne_save
  load path hstep c := by
    subst hstep
    exact result_loadFrom_eq_ok_iff
  save path hstep := by
    subst hstep
    exact result_save_eq_ok_iff.trans exists_save_iff
  size path hstep hcan e := by
    subst hstep
    rw [result_save_eq_error_iff, hcan.save_eq_error_iff]
    constructor
    · rintro ⟨hsize, rfl⟩
      exact ⟨hsize, rfl, rfl⟩
    · rintro ⟨hsize, he, -⟩
      exact ⟨hsize, he⟩
  saved path hstep hok later hlater := by
    subst hstep
    obtain ⟨t', hsave⟩ := result_save_eq_ok_iff.1 hok
    have htree : t' = (s.next input (.save path)).tree := by
      rw [tree_next, result_save, hsave]
    exact load_run_of_save (htree ▸ hsave) hlater

/-- Whatever has been loaded, set and saved before, every step is lawful. A write that fails is taken
to leave its file as it was, as `FileTree.write` does. -/
theorem run_isLawful (input : ByteArray) (start : State) (steps : List Step) (step : Step) :
    (start.run input steps).IsLawful input step := isLawful _ _

/-- A configuration that is not saved yet, and no files. -/
def unsaved : State := ⟨{ catalog := some "fields.json", defaultSize := 25, pretty := false }, {}⟩

theorem unsaved_isLawful :
    (unsaved.result .empty (.save "config.toml")).1 = .ok unsaved.config ∧
      let saved := unsaved.run .empty [.save "config.toml", .set {}]
      saved.config = {} ∧
        saved.result .empty (.load "config.toml") = (.ok unsaved.config, saved.tree) := by
  have hwrite : unsaved.tree.write "config.toml" .empty = .ok _ :=
    write_of_locate .empty rfl (by decide) fun _ h => by simp [unsaved] at h
  have hcan : CanSave .empty unsaved.tree "config.toml" := ⟨_, .empty, _, rfl, hwrite⟩
  have hlawful := run_isLawful .empty unsaved [] (.save "config.toml")
  have hok := (hlawful.save _ rfl).2 ⟨hcan, by decide⟩
  refine ⟨hok, rfl, hlawful.saved _ rfl hok [.set {}] fun place _ => ⟨?_, trivial⟩⟩
  rintro ⟨_, hstep, -⟩
  cases hstep

end State

end SearchQuery.Config
