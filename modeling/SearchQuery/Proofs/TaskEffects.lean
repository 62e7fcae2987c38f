import SearchQuery.Command.Run
import SearchQuery.Proofs.FileChanges

/-! # Effects of tasks

A task on a file tree reads first and changes files last, so when it fails all files are as they
were. What a task does when it succeeds is told apart by kind. -/
namespace SearchQuery

namespace Action

variable {α β : Type}

/-- What an action on a file tree gives, and the tree that it leaves. -/
def result (x : Action (StateM FileTree) α) (t : FileTree) : Except Error α × FileTree := x.run t

/-- What an action on a file tree logs. -/
def events (x : Action (StateM FileTree) α) (t : FileTree) : List Event := (x.logged t).1.2

/-- The action leaves every tree as it is. -/
def Leaves (x : Action (StateM FileTree) α) : Prop := ∀ t, (x.result t).2 = t

/-- The action changes no file. -/
def KeepsFiles (x : Action (StateM FileTree) α) : Prop :=
  ∀ t : FileTree, t.SameFiles (x.result t).2

/-- The action changes no file when it fails. -/
def FailsClean (x : Action (StateM FileTree) α) : Prop :=
  ∀ (t t' : FileTree) (e : Error), x.result t = (.error e, t') → t.SameFiles t'

variable {x : Action (StateM FileTree) α} {f : α → Action (StateM FileTree) β} {t t' : FileTree}

/-! ### Results -/

@[simp] theorem result_pure (a : α) :
    (pure a : Action (StateM FileTree) α).result t = (.ok a, t) := rfl

@[simp] theorem result_fail (e : Error) :
    (fail e : Action (StateM FileTree) α).result t = (.error e, t) := rfl

@[simp] theorem result_lift (x : StateM FileTree α) :
    (liftM x : Action (StateM FileTree) α).result t = (.ok (x t).1, (x t).2) := rfl

@[simp] theorem result_ofExcept (r : Except Error α) :
    (ofExcept r : Action (StateM FileTree) α).result t = (r, t) := rfl

@[simp] theorem result_ofOption (e : Error) (a? : Option α) :
    (ofOption e a? : Action (StateM FileTree) α).result t = (a?.elim (.error e) .ok, t) := by
  cases a? <;> rfl

@[simp] theorem result_log (events : List Event) :
    (log events : Action (StateM FileTree) Unit).result t = (.ok (), t) := rfl

theorem ofOption_eq_ok {e : Error} {a? : Option α} {a : α} :
    (ofOption e a? : Action (StateM FileTree) α).result t = (.ok a, t) ↔ a? = some a := by
  cases a? <;> simp

theorem result_bind (x : Action (StateM FileTree) α) (f : α → Action (StateM FileTree) β)
    (t : FileTree) : (x >>= f).result t = match x.result t with
      | (.ok a, t') => (f a).result t'
      | (.error e, t') => (.error e, t') := by
  show Action.result (Action.bind x f) t = _
  simp only [result, run, Action.bind, bind, Functor.map, StateT.bind, StateT.map]
  rcases x.logged t with ⟨⟨_ | a, events⟩, t'⟩ <;> rfl

theorem result_bind_of_ok {a : α} (h : x.result t = (.ok a, t')) :
    (x >>= f).result t = (f a).result t' := by
  rw [result_bind, h]

theorem result_bind_of_error {e : Error} (h : x.result t = (.error e, t')) :
    (x >>= f).result t = (.error e, t') := by
  rw [result_bind, h]

/-- What is logged of a value does not change it. -/
theorem result_bind_log (x : Action (StateM FileTree) α) (events : α → List Event) (t : FileTree) :
    (x >>= fun a => log (events a) >>= fun _ => pure a).result t = x.result t := by
  rw [result_bind]
  rcases x.result t with ⟨_ | a, t'⟩ <;> rfl

theorem of_result_bind_ok {b : β} (h : (x >>= f).result t = (.ok b, t')) :
    ∃ a mid, x.result t = (.ok a, mid) ∧ (f a).result mid = (.ok b, t') := by
  rw [result_bind] at h
  rcases hx : x.result t with ⟨_ | a, mid⟩
  · simp [hx] at h
  · exact ⟨a, mid, rfl, by simpa [hx] using h⟩

theorem of_result_bind_error {e : Error} (h : (x >>= f).result t = (.error e, t')) :
    x.result t = (.error e, t') ∨
      ∃ a mid, x.result t = (.ok a, mid) ∧ (f a).result mid = (.error e, t') := by
  rw [result_bind] at h
  rcases hx : x.result t with ⟨_ | a, mid⟩
  · exact .inl (by simpa [hx] using h)
  · exact .inr ⟨a, mid, rfl, by simpa [hx] using h⟩

theorem result_ofFile (x : StateM FileTree (Except FileError α)) (t : FileTree) :
    (ofFile x).result t = ((x t).1.mapError .file, (x t).2) := rfl

theorem result_ofFile_eq_ok {x : StateM FileTree (Except FileError α)} {a : α} :
    (ofFile x).result t = (.ok a, t') ↔ x t = (.ok a, t') := by
  rw [result_ofFile]
  rcases x t with ⟨_ | b, mid⟩
  · exact ⟨nofun, nofun⟩
  · constructor <;> rintro ⟨⟩ <;> rfl

/-! ### Actions that only read -/

theorem leaves_pure (a : α) : Leaves (pure a) := fun _ => rfl

theorem leaves_fail (e : Error) : Leaves (fail e : Action (StateM FileTree) α) := fun _ => rfl

theorem leaves_ofExcept (r : Except Error α) :
    Leaves (ofExcept r : Action (StateM FileTree) α) := fun _ => rfl

theorem leaves_ofOption (e : Error) (a : Option α) :
    Leaves (ofOption e a : Action (StateM FileTree) α) := fun _ => by simp

theorem leaves_log (events : List Event) :
    Leaves (log events : Action (StateM FileTree) Unit) := fun _ => rfl

theorem leaves_lift {x : StateM FileTree α} (h : ∀ t, (x t).2 = t) :
    Leaves (liftM x : Action (StateM FileTree) α) := h

theorem leaves_ofFile {x : StateM FileTree (Except FileError α)} (h : ∀ t, (x t).2 = t) :
    Leaves (ofFile x) := fun t => by rw [result_ofFile, h]

theorem Leaves.bind (hx : Leaves x) (hf : ∀ a, Leaves (f a)) : Leaves (x >>= f) := fun t => by
  have hleft := hx t
  rw [result_bind]
  rcases h : x.result t with ⟨_ | a, t'⟩
  · rwa [h] at hleft
  · rw [h] at hleft
    obtain rfl : t' = t := hleft
    exact hf a t'

theorem Leaves.of_bind_ok (hx : Leaves x) {b : β} (h : (x >>= f).result t = (.ok b, t')) :
    ∃ a, x.result t = (.ok a, t) ∧ (f a).result t = (.ok b, t') := by
  obtain ⟨a, mid, ha, hb⟩ := of_result_bind_ok h
  obtain rfl : mid = t := by simpa [ha] using hx t
  exact ⟨a, ha, hb⟩

/-! ### Failures -/

theorem Leaves.keepsFiles (h : Leaves x) : KeepsFiles x := fun t => by
  rw [h t]
  exact .refl t

theorem KeepsFiles.failsClean (h : KeepsFiles x) : FailsClean x := fun t t' e hx => by
  simpa [hx] using h t

theorem Leaves.failsClean (h : Leaves x) : FailsClean x := h.keepsFiles.failsClean

/-- A failure is clean when everything before it changed no file. -/
theorem KeepsFiles.failsClean_bind (hx : KeepsFiles x) (hf : ∀ a, FailsClean (f a)) :
    FailsClean (x >>= f) := fun t t' e h => by
  rcases of_result_bind_error h with hfail | ⟨a, mid, ha, hfail⟩
  · exact hx.failsClean t t' e hfail
  · have hmid : t.SameFiles mid := by simpa [ha] using hx t
    exact hmid.trans (hf a mid t' e hfail)

theorem FailsClean.bind_pure (hx : FailsClean x) (g : α → β) :
    FailsClean (x >>= fun a => pure (g a)) := fun t t' e h => by
  rcases of_result_bind_error h with hfail | ⟨a, mid, -, hfail⟩
  · exact hx t t' e hfail
  · cases hfail

end Action

open SearchQuery.Action

/-! ### Reading -/

namespace FileTree

variable (input : ByteArray) (path : String)

theorem leaves_readText : Leaves (ofFile ((host input).readText path)) :=
  leaves_ofFile fun _ => rfl

theorem readText_eq_ok {t : FileTree} {text : String} :
    (ofFile ((host input).readText path)).result t = (.ok text, t) ↔
      t.read path >>= decodeText = .ok text := by
  rw [result_ofFile]
  show ((t.read path >>= decodeText).mapError _, t) = _ ↔ _
  cases t.read path >>= decodeText with
  | error e => exact ⟨nofun, nofun⟩
  | ok decoded =>
    show (Except.ok decoded, t) = (.ok text, t) ↔ _
    simp

theorem leaves_exists? :
    Leaves (liftM ((host input).exists? path) : Action (StateM FileTree) Bool) :=
  leaves_lift fun _ => rfl

theorem leaves_input : Leaves (ofFile (host input).input) := leaves_ofFile fun _ => rfl

end FileTree

open FileTree

theorem Config.leaves_loadFrom (input : ByteArray) (path : String) :
    Leaves (loadFrom (host input) path) := by
  refine (leaves_exists? input path).bind fun there => ?_
  split
  · exact (leaves_readText input path).bind fun _ => (leaves_ofOption _ _).bind fun _ =>
      (leaves_log _).bind fun _ => leaves_pure _
  · exact (leaves_log _).bind fun _ => leaves_pure _

theorem Catalog.leaves_load (input : ByteArray) (path : String) :
    Leaves (load (host input) path) :=
  (leaves_readText input path).bind fun _ => (leaves_ofExcept _).bind fun _ =>
    (leaves_log _).bind fun _ => leaves_pure _

namespace Command

variable {input : ByteArray} {env : Environment} {given : Option String} {t t' : FileTree}

theorem leaves_loadConfig (input : ByteArray) (env : Environment) (given : Option String) :
    Leaves (loadConfig (host input) env given) := by
  cases given with
  | some path => exact Config.leaves_loadFrom input path
  | none =>
    rw [loadConfig, Config.load]
    split
    · exact Config.leaves_loadFrom input _
    · exact leaves_pure _

theorem leaves_loadCatalog (input : ByteArray) (config : Config) (given : Option String) :
    Leaves (loadCatalog (host input) config given) := by
  rw [loadCatalog]
  split
  · exact (Catalog.leaves_load input _).bind fun _ => leaves_pure _
  · exact leaves_pure _

theorem leaves_readInput (input : ByteArray) (file : Option String) :
    Leaves (readInput (host input) file) := by
  cases file with
  | some path => exact leaves_readText input path
  | none => exact leaves_input input

theorem leaves_readDocument {α : Type} (read : Document.Reader α) (text : String) :
    Leaves (readDocument read text : Action (StateM FileTree) α) := leaves_ofOption _ _

theorem readDocument_eq_ok {α : Type} {read : Document.Reader α} {text : String} {a : α} :
    (readDocument read text : Action (StateM FileTree) α).result t = (.ok a, t) ↔
      Json.read? read text = some a := ofOption_eq_ok

end Command

/-! ### Changing files -/

namespace FileTree

variable (input : ByteArray) (path : String)

theorem change_of_ok {f : FileTree → Except FileError FileTree} {t t' : FileTree}
    (h : f t = .ok t') : change f t = (.ok (), t') := by
  rw [change, h]

theorem change_of_error {f : FileTree → Except FileError FileTree} {t : FileTree} {e : FileError}
    (h : f t = .error e) : change f t = (.error e, t) := by
  rw [change, h]

/-- Making a directory changes no file, whether it succeeds or not. -/
theorem extends_makeDirectory (t : FileTree) :
    t.Extends ((host input).makeDirectory path t).2 := by
  show t.Extends (change (fun t => t.makeDirectory path) t).2
  cases hmade : t.makeDirectory path with
  | ok t' =>
    rw [change_of_ok hmade]
    exact extends_of_makeDirectory hmade
  | error e =>
    rw [change_of_error hmade]
    exact .refl t

theorem extends_bind {α β : Type} {x : StateM FileTree α} {f : α → StateM FileTree β}
    (hx : ∀ t, Extends t (x t).2) (hf : ∀ a t, Extends t (f a t).2) (t : FileTree) :
    t.Extends ((x >>= f) t).2 := (hx t).trans (hf _ _)

theorem extends_ensureDirectory (t : FileTree) :
    t.Extends ((host input).ensureDirectory path t).2 := by
  refine extends_bind (extends_makeDirectory input path) (fun made t => ?_) t
  split
  · exact extends_bind (fun t => .refl t) (fun _ t => .refl t) t
  · exact .refl t

theorem extends_ensureDirectories (paths : List String) (t : FileTree) :
    t.Extends ((host input).ensureDirectories paths t).2 := by
  induction paths generalizing t with
  | nil => exact .refl t
  | cons path above ih =>
    refine extends_bind (extends_ensureDirectory input path) (fun made t => ?_) t
    split
    · refine extends_bind ih (fun above t => ?_) t
      split
      · exact extends_ensureDirectory input path t
      · exact .refl t
    · exact .refl t

theorem keepsFiles_ensureDirectories (paths : List String) :
    KeepsFiles (ofFile ((host input).ensureDirectories paths)) := fun t => by
  rw [result_ofFile]
  exact (extends_ensureDirectories input paths t).files

theorem result_writeText (text : String) (t : FileTree) :
    (ofFile ((host input).writeText path text)).result t =
      match t.write path text.toUTF8 with
      | .ok t' => (.ok (), t')
      | .error e => (.error (.file e), t) := by
  rw [result_ofFile]
  show ((change (fun t => t.write path text.toUTF8) t).1.mapError _,
    (change (fun t => t.write path text.toUTF8) t).2) = _
  cases hwrite : t.write path text.toUTF8 with
  | ok t' =>
    rw [change_of_ok hwrite]
    rfl
  | error e =>
    rw [change_of_error hwrite]
    rfl

theorem failsClean_writeText (text : String) :
    FailsClean (ofFile ((host input).writeText path text)) := fun t t' e h => by
  rw [result_writeText] at h
  split at h <;> cases h
  exact .refl t

theorem of_writeText {text : String} {t t' : FileTree}
    (h : (ofFile ((host input).writeText path text)).result t = (.ok (), t')) :
    t.write path text.toUTF8 = .ok t' := by
  rw [result_writeText] at h
  split at h <;> cases h
  assumption

end FileTree

/-! ### Tasks -/

namespace Command

variable {input : ByteArray} {env : Environment} {given : Option String} {t t' : FileTree}

/-- What a lint reads: the configuration, the catalog and the request. -/
structure ReadsLint (input : ByteArray) (env : Environment) (given file catalog : Option String)
    (t : FileTree) (config : Config) (found : Option Catalog) (request : Json) : Prop where
  hconfig : (loadConfig (host input) env given).result t = (.ok config, t)
  hcatalog : (loadCatalog (host input) config catalog).result t = (.ok found, t)
  hrequest : ∃ text, (readInput (host input) file).result t = (.ok text, t) ∧
    Json.read? .json text = some request

/-- What an import reads: the mapping, from which the catalog is made. -/
def ReadsMapping (t : FileTree) (mapping : String) (catalog : Catalog) : Prop :=
  ∃ text doc, t.read mapping >>= decodeText = .ok text ∧ Json.read? .json text = some doc ∧
    Catalog.ofMapping doc = .ok catalog

/-- What a task that succeeds does: its outcome, and the tree that it leaves. -/
inductive Effect (input : ByteArray) (env : Environment) (given : Option String) (t : FileTree) :
    Task → Outcome → FileTree → Prop
  | compile {file catalog size lint compact o} (hcode : o.exitCode = 0) :
      Effect input env given t (.compile file catalog size lint compact) o t
  | lint {file catalog strict config found request}
      (hreads : ReadsLint input env given file catalog t config found request) :
      Effect input env given t (.lint file catalog strict)
        (lintRequest config found request strict) t
  | listCatalog {pattern catalog o} (hcode : o.exitCode = 0) :
      Effect input env given t (.listCatalog pattern catalog) o t
  | printCatalog {mapping o} (hcode : o.exitCode = 0) :
      Effect input env given t (.importCatalog mapping none) o t
  | importCatalog {mapping out catalog o t'} (hcode : o.exitCode = 0)
      (hreads : ReadsMapping t mapping catalog)
      (hwrite : t.write out (line catalog.text).toUTF8 = .ok t') :
      Effect input env given t (.importCatalog mapping (some out)) o t'
  | showConfig {o} (hcode : o.exitCode = 0) : Effect input env given t .showConfig o t
  | initConfig {force path content o mid t'} (hcode : o.exitCode = 0)
      (hpath : given.or (Config.path? env) = some path)
      (hexists : t.exists? path = false ∨ force = true)
      (hdirs : t.SameFiles mid) (hwrite : mid.write path content = .ok t') :
      Effect input env given t (.initConfig force) o t'

/-- Reads the configuration, the catalog and a document, and reports on them. -/
def reportOn {m : Type → Type} [Monad m] {α : Type} (h : Host m) (env : Environment)
    (given catalog file : Option String) (read : Document.Reader α)
    (events : Config → Option Catalog → α → List Event)
    (report : Config → Option Catalog → α → Outcome) : Action m Outcome := do
  let config ← loadConfig h env given
  let found ← loadCatalog h config catalog
  let a ← readDocument read (← readInput h file)
  log (events config found a)
  pure (report config found a)

section Report

variable {α : Type} {read : Document.Reader α} {catalog file : Option String}
  {events : Config → Option Catalog → α → List Event}
  {report : Config → Option Catalog → α → Outcome}

theorem leaves_reportOn :
    Leaves (reportOn (host input) env given catalog file read events report) :=
  (leaves_loadConfig input env given).bind fun config =>
    (leaves_loadCatalog input config catalog).bind fun _ =>
      (leaves_readInput input file).bind fun text =>
        (leaves_readDocument read text).bind fun _ => (leaves_log _).bind fun _ => leaves_pure _

/-- A report is made of what has been read from the tree, which stays as it is. -/
theorem result_reportOn_eq_ok {o : Outcome} :
    (reportOn (host input) env given catalog file read events report).result t = (.ok o, t') ↔
      t' = t ∧ ∃ config found a, (loadConfig (host input) env given).result t = (.ok config, t) ∧
        (loadCatalog (host input) config catalog).result t = (.ok found, t) ∧
        (∃ text, (readInput (host input) file).result t = (.ok text, t) ∧
          Json.read? read text = some a) ∧ o = report config found a := by
  constructor
  · intro h
    obtain ⟨config, hconfig, h⟩ := (leaves_loadConfig input env given).of_bind_ok h
    obtain ⟨found, hfound, h⟩ := (leaves_loadCatalog input config catalog).of_bind_ok h
    obtain ⟨text, htext, h⟩ := (leaves_readInput input file).of_bind_ok h
    obtain ⟨a, ha, h⟩ := (leaves_readDocument read text).of_bind_ok h
    obtain ⟨_, -, h⟩ := (leaves_log _).of_bind_ok h
    cases h
    exact ⟨rfl, config, found, a, hconfig, hfound, ⟨text, htext, readDocument_eq_ok.1 ha⟩, rfl⟩
  · rintro ⟨rfl, config, found, a, hconfig, hfound, ⟨text, htext, ha⟩, rfl⟩
    exact (result_bind_of_ok hconfig).trans <| (result_bind_of_ok hfound).trans <|
      (result_bind_of_ok htext).trans <| (result_bind_of_ok (readDocument_eq_ok.2 ha)).trans <|
        result_bind_of_ok (result_log _)

end Report

theorem perform_compile (input : ByteArray) (env : Environment) (given file catalog : Option String)
    (size : Option UInt64) (lint compact : Bool) :
    perform (host input) env given (.compile file catalog size lint compact) =
      reportOn (host input) env given catalog file FilterForm.read
        (fun config found form => compileEvents config found form size lint)
        fun config found form => compileForm config found form size lint compact := rfl

theorem perform_lint (input : ByteArray) (env : Environment) (given file catalog : Option String)
    (strict : Bool) : perform (host input) env given (.lint file catalog strict) =
      reportOn (host input) env given catalog file .json
        (fun _ found request => Lint.events found request)
        fun config found request => lintRequest config found request strict := rfl

theorem compile_effect {file catalog : Option String} {size : Option UInt64} {lint compact : Bool}
    {o : Outcome}
    (h : (perform (host input) env given (.compile file catalog size lint compact)).result t =
      (.ok o, t')) : Effect input env given t (.compile file catalog size lint compact) o t' := by
  rw [perform_compile, result_reportOn_eq_ok] at h
  obtain ⟨rfl, config, found, form, -, -, -, rfl⟩ := h
  exact .compile rfl

theorem lint_effect {file catalog : Option String} {strict : Bool} {o : Outcome}
    (h : (perform (host input) env given (.lint file catalog strict)).result t = (.ok o, t')) :
    Effect input env given t (.lint file catalog strict) o t' := by
  rw [perform_lint, result_reportOn_eq_ok] at h
  obtain ⟨rfl, config, found, request, hconfig, hfound, hrequest, rfl⟩ := h
  exact .lint ⟨hconfig, hfound, hrequest⟩

/-- A lint that can read what it needs reports on it. -/
theorem ReadsLint.result_lint {file catalog : Option String} {config : Config}
    {found : Option Catalog} {request : Json}
    (h : ReadsLint input env given file catalog t config found request) (strict : Bool) :
    (perform (host input) env given (.lint file catalog strict)).result t =
      (.ok (lintRequest config found request strict), t) := by
  rw [perform_lint, result_reportOn_eq_ok]
  exact ⟨rfl, config, found, request, h.hconfig, h.hcatalog, h.hrequest, rfl⟩

theorem list_effect {pattern catalog : Option String} {o : Outcome}
    (h : (perform (host input) env given (.listCatalog pattern catalog)).result t = (.ok o, t')) :
    Effect input env given t (.listCatalog pattern catalog) o t' := by
  obtain ⟨config, -, h⟩ := (leaves_loadConfig input env given).of_bind_ok h
  obtain ⟨found, -, h⟩ := (leaves_loadCatalog input config catalog).of_bind_ok h
  cases found with
  | none => cases h
  | some found =>
    cases h
    exact .listCatalog rfl

theorem import_effect {mapping : String} {output : Option String} {o : Outcome}
    (h : (perform (host input) env given (.importCatalog mapping output)).result t = (.ok o, t')) :
    Effect input env given t (.importCatalog mapping output) o t' := by
  obtain ⟨text, htext, h⟩ := (leaves_readText input mapping).of_bind_ok h
  obtain ⟨doc, hdoc, h⟩ := (leaves_readDocument .json text).of_bind_ok h
  obtain ⟨catalog, hcatalog, h⟩ := (leaves_ofExcept (Catalog.ofMapping doc)).of_bind_ok h
  cases output with
  | none =>
    cases h
    exact .printCatalog rfl
  | some out =>
    obtain ⟨_, mid, hwrite, h⟩ := of_result_bind_ok h
    cases h
    have hreads : ReadsMapping t mapping catalog :=
      ⟨text, doc, (readText_eq_ok input mapping).1 htext, readDocument_eq_ok.1 hdoc,
        by simpa using hcatalog⟩
    exact .importCatalog rfl hreads (of_writeText input out hwrite)

theorem show_effect {o : Outcome}
    (h : (perform (host input) env given .showConfig).result t = (.ok o, t')) :
    Effect input env given t .showConfig o t' := by
  obtain ⟨config, -, h⟩ := (leaves_loadConfig input env given).of_bind_ok h
  obtain ⟨text, -, h⟩ := (leaves_ofExcept config.toToml).of_bind_ok h
  cases h
  exact .showConfig rfl

theorem init_effect {force : Bool} {o : Outcome}
    (h : (perform (host input) env given (.initConfig force)).result t = (.ok o, t')) :
    Effect input env given t (.initConfig force) o t' := by
  obtain ⟨path, hpath, h⟩ := (leaves_ofOption _ _).of_bind_ok h
  obtain ⟨there, hthere, h⟩ := (leaves_exists? input path).of_bind_ok h
  dsimp only at h
  split at h
  · cases h
  · rename_i hguard
    obtain ⟨_, _, hsave, h⟩ := of_result_bind_ok h
    cases h
    obtain ⟨_, mid, hdirs, hsave⟩ := of_result_bind_ok hsave
    obtain ⟨content, -, hwrite⟩ := (leaves_ofExcept (Config.toToml {})).of_bind_ok hsave
    have hexists : t.exists? path = there := by
      rw [result_lift] at hthere
      exact Except.ok.inj (Prod.mk.inj hthere).1
    have hdirs' : t.SameFiles mid := by
      have hkept := keepsFiles_ensureDirectories input (Path.above path) t
      rwa [hdirs] at hkept
    refine .initConfig rfl (ofOption_eq_ok.1 hpath) ?_ hdirs' (of_writeText input path hwrite)
    rw [hexists]
    cases there <;> simp_all

/-- What a task does when it succeeds, told apart by kind. -/
theorem perform_effect {task : Task} {o : Outcome}
    (h : (perform (host input) env given task).result t = (.ok o, t')) :
    Effect input env given t task o t' := by
  cases task with
  | compile => exact compile_effect h
  | lint => exact lint_effect h
  | listCatalog => exact list_effect h
  | importCatalog => exact import_effect h
  | showConfig => exact show_effect h
  | initConfig => exact init_effect h

theorem failsClean_save (input : ByteArray) (config : Config) (path : String) :
    FailsClean (Config.save (host input) config path) := by
  refine (keepsFiles_ensureDirectories input (Path.above path)).failsClean_bind fun _ => ?_
  exact (leaves_ofExcept config.toToml).keepsFiles.failsClean_bind fun text =>
    failsClean_writeText input path text

/-- A task that fails changes no file. -/
theorem failsClean_perform (input : ByteArray) (env : Environment) (given : Option String)
    (task : Task) : FailsClean (perform (host input) env given task) := by
  have hconfig := leaves_loadConfig input env given
  cases task with
  | compile | lint => exact leaves_reportOn.failsClean
  | listCatalog pattern catalog =>
    refine Leaves.failsClean ?_
    refine hconfig.bind fun config => (leaves_loadCatalog input config catalog).bind fun found => ?_
    cases found with
    | none => exact leaves_fail _
    | some found => exact leaves_pure _
  | importCatalog mapping output =>
    refine (leaves_readText input mapping).keepsFiles.failsClean_bind fun text => ?_
    refine (leaves_readDocument .json text).keepsFiles.failsClean_bind fun doc => ?_
    refine (leaves_ofExcept (Catalog.ofMapping doc)).keepsFiles.failsClean_bind fun catalog => ?_
    cases output with
    | none => exact (leaves_pure _).failsClean
    | some out => exact (failsClean_writeText input out _).bind_pure _
  | showConfig =>
    refine Leaves.failsClean ?_
    exact hconfig.bind fun config => (leaves_ofExcept config.toToml).bind fun _ => leaves_pure _
  | initConfig force =>
    refine (leaves_ofOption _ _).keepsFiles.failsClean_bind fun path => ?_
    refine (leaves_exists? input path).keepsFiles.failsClean_bind fun there => ?_
    dsimp only
    split
    · exact (leaves_fail _).failsClean
    · exact (failsClean_save input {} path).bind_pure _

end Command

end SearchQuery
