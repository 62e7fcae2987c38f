import SearchQuery.Proofs.TaskEffects

/-! # Outcomes of commands

What can be said of every command line that is run, whatever the files are, and so of every one
in a sequence of them: failures change no file and print their error behind what is logged, exit
codes say what they should, and only the commands that write a file change one. -/
namespace SearchQuery.Command

open SearchQuery.Action FileTree

/-- One run of the program: its environment, its standard input and its arguments, and how its
errors and events are worded. -/
structure Call where
  env : Environment
  input : ByteArray
  args : List String
  console : Console := {}

/-- A call with the files before and after it. -/
structure Turn where
  call : Call
  before : FileTree
  outcome : Outcome
  after : FileTree

/-- What a call does to the files. -/
def Call.turn (c : Call) (t : FileTree) : Turn :=
  let r := runLine (host c.input) c.env c.args c.console t
  ⟨c, t, r.1, r.2⟩

/-- The task that an invocation asks for. -/
def Call.action (c : Call) (inv : Invocation) : Action (StateM FileTree) Outcome :=
  perform (host c.input) c.env inv.config inv.task

/-- What is logged of an invocation. -/
def Call.log (c : Call) (inv : Invocation) (t : FileTree) : String :=
  c.console.log inv.verbose c.env.log ((c.action inv).events t)

/-- The turns of some calls, one after the other on the same files. -/
def session : List Call → FileTree → List Turn
  | [], _ => []
  | c :: cs, t => c.turn t :: session cs (c.turn t).after

/-- The file at a place is another one after the turn. -/
def Turn.Changes (turn : Turn) (place : Place) : Prop :=
  turn.after.fileAt? place ≠ turn.before.fileAt? place

/-- What holds of a turn in which the arguments ask for an invocation. -/
structure Turn.IsLawful (turn : Turn) (inv : Invocation) : Prop where
  /-- A failure prints its error and nothing else, the log apart, and changes no file. -/
  failure : turn.outcome.exitCode = 1 → turn.outcome.output = "" ∧
    (∃ e, (turn.call.action inv).result turn.before = (.error e, turn.after) ∧
      turn.outcome.errors = turn.call.log inv turn.before ++
        line ("Error: " ++ e.message (turn.call.console.report e))) ∧
    ∀ place, ¬ turn.Changes place
  /-- Nothing is logged unless that is asked for. -/
  quiet : inv.verbose = false → turn.call.env.log = none → turn.call.log inv turn.before = ""
  exitCode : turn.outcome.exitCode ≤ 2
  /-- Only a lint that has read its request ends with 2. -/
  lintOnly : turn.outcome.exitCode = 2 → ∃ file catalog strict config found request,
    inv.task = .lint file catalog strict ∧
      ReadsLint turn.call.input turn.call.env inv.config file catalog turn.before config found
        request
  /-- A lint that has read its request prints the report on it, and ends with 2 if the report has
  errors, or warnings that count. -/
  lint : ∀ {file catalog strict config found request}, inv.task = .lint file catalog strict →
    ReadsLint turn.call.input turn.call.env inv.config file catalog turn.before config found
      request →
    turn.outcome.output = line ((Lint.lint found request).toJson.text config.pretty) ∧
      (turn.outcome.exitCode = 2 ↔ (Lint.lint found request).ok = false ∨
        (strict = true ∨ config.strict = true) ∧ (Lint.lint found request).hasWarnings = true)
  writers : ∀ place, turn.Changes place →
    (∃ mapping out, inv.task = .importCatalog mapping (some out)) ∨
      ∃ force, inv.task = .initConfig force
  importChanges : ∀ {mapping out}, inv.task = .importCatalog mapping (some out) →
    ∀ place, turn.Changes place → turn.before.LeadsTo out place ∧ turn.after.LeadsTo out place
  initChanges : ∀ {force}, inv.task = .initConfig force → ∀ place, turn.Changes place →
    ∃ path, inv.config.or (Config.path? turn.call.env) = some path ∧
      turn.after.LeadsTo path place ∧ (turn.before.exists? path = false ∨ force = true)

@[simp] theorem Outcome.exitCode_withLog (log : String) (o : Outcome) :
    (o.withLog log).exitCode = o.exitCode := rfl

/-- No event is as serious as a warning. -/
theorem Console.log_quiet (console : Console) (events : List Event) :
    console.log false none events = "" := by
  have hhidden : events.filter (console.shows false none) = [] :=
    List.filter_eq_nil_iff.2 fun e _ => by cases e <;> exact Bool.false_ne_true
  rw [Console.log, hhidden]
  rfl

theorem Call.run_eq (c : Call) (inv : Invocation) (t : FileTree) :
    run (host c.input) c.env inv c.console t = match (c.action inv).result t with
      | (.ok o, t') => (o.withLog (c.log inv t), t')
      | (.error e, t') => ((Outcome.ofError e (c.console.report e)).withLog (c.log inv t), t') := by
  simp only [run, log, action]
  generalize perform (host c.input) c.env inv.config inv.task = x
  simp only [bind, StateT.bind, result, events, Action.run, Functor.map, StateT.map]
  rcases x.logged t with ⟨⟨_ | o, events⟩, t'⟩ <;> rfl

theorem lintRequest_exitCode (config : Config) (found : Option Catalog) (request : Json)
    (strict : Bool) : (lintRequest config found request strict).exitCode =
      if (Lint.lint found request).ok = false ∨ (strict = true ∨ config.strict = true) ∧
        (Lint.lint found request).hasWarnings = true then 2 else 0 := by
  simp [lintRequest]

theorem lintRequest_exitCode_eq_two (config : Config) (found : Option Catalog) (request : Json)
    (strict : Bool) : (lintRequest config found request strict).exitCode = 2 ↔
      (Lint.lint found request).ok = false ∨ (strict = true ∨ config.strict = true) ∧
        (Lint.lint found request).hasWarnings = true := by
  rw [lintRequest_exitCode]
  split <;> simp [*]

theorem lintRequest_exitCode_ne_one (config : Config) (found : Option Catalog) (request : Json)
    (strict : Bool) : (lintRequest config found request strict).exitCode ≠ 1 := by
  rw [lintRequest_exitCode]
  split <;> decide

variable {c : Call} {inv : Invocation} {t t' : FileTree}

theorem Call.log_quiet (hverbose : inv.verbose = false) (hfilter : c.env.log = none) :
    c.log inv t = "" := by
  rw [log, hverbose, hfilter, Console.log_quiet]

theorem Turn.isLawful_of_error {e : Error} (h : (c.action inv).result t = (.error e, t')) :
    Turn.IsLawful ⟨c, t, (Outcome.ofError e (c.console.report e)).withLog (c.log inv t), t'⟩ inv := by
  have hfiles : ∀ place, t'.fileAt? place = t.fileAt? place :=
    failsClean_perform c.input c.env inv.config inv.task t t' e h
  exact {
    failure := fun _ => ⟨rfl, ⟨e, h, rfl⟩, fun place hchange => hchange (hfiles place)⟩
    quiet := Call.log_quiet
    exitCode := Nat.le_succ 1
    lintOnly := nofun
    lint := fun {file catalog strict config found request} htask hreads => by
      rw [Call.action, htask, hreads.result_lint strict] at h
      cases h
    writers := fun place hchange => absurd (hfiles place) hchange
    importChanges := fun _ place hchange => absurd (hfiles place) hchange
    initChanges := fun _ place hchange => absurd (hfiles place) hchange }

/-- A task other than a lint says with 0 that it has succeeded. -/
theorem Turn.isLawful_of_zero {o : Outcome} (hcode : o.exitCode = 0)
    (hlint : ∀ file catalog strict, inv.task ≠ .lint file catalog strict)
    (writers : ∀ place, Turn.Changes ⟨c, t, o, t'⟩ place →
      (∃ mapping out, inv.task = .importCatalog mapping (some out)) ∨
        ∃ force, inv.task = .initConfig force)
    (importChanges : ∀ {mapping out}, inv.task = .importCatalog mapping (some out) →
      ∀ place, Turn.Changes ⟨c, t, o, t'⟩ place → t.LeadsTo out place ∧ t'.LeadsTo out place)
    (initChanges : ∀ {force}, inv.task = .initConfig force →
      ∀ place, Turn.Changes ⟨c, t, o, t'⟩ place →
        ∃ path, inv.config.or (Config.path? c.env) = some path ∧ t'.LeadsTo path place ∧
          (t.exists? path = false ∨ force = true)) :
    Turn.IsLawful ⟨c, t, o, t'⟩ inv where
  failure hfail := by simp [hcode] at hfail
  quiet := Call.log_quiet
  exitCode := by simp [hcode]
  lintOnly hfail := by simp [hcode] at hfail
  lint htask := absurd htask (hlint _ _ _)
  writers := writers
  importChanges := importChanges
  initChanges := initChanges

theorem Turn.isLawful_of_effect {o : Outcome}
    (h : Effect c.input c.env inv.config t inv.task o t') :
    Turn.IsLawful ⟨c, t, o.withLog (c.log inv t), t'⟩ inv := by
  generalize hlog : c.log inv t = log
  obtain ⟨config, verbose, task⟩ := inv
  have hsame : ∀ place, ¬ Turn.Changes ⟨c, t, o.withLog log, t⟩ place :=
    fun place hchange => hchange rfl
  cases h with
  | @lint file catalog strict settings found request hreads =>
    exact {
      failure := fun hfail => absurd hfail (lintRequest_exitCode_ne_one _ _ _ _)
      quiet := Call.log_quiet
      exitCode := by
        rw [Outcome.exitCode_withLog, lintRequest_exitCode]
        split <;> decide
      lintOnly := fun _ => ⟨file, catalog, strict, settings, found, request, rfl, hreads⟩
      lint := fun {_ _ _ settings' found' request'} htask hreads' => by
        cases htask
        have hresult := (hreads.result_lint strict).symm.trans (hreads'.result_lint strict)
        rw [Except.ok.inj (Prod.mk.inj hresult).1]
        exact ⟨rfl, lintRequest_exitCode_eq_two _ _ _ _⟩
      writers := fun place h => absurd h (hsame place)
      importChanges := nofun
      initChanges := nofun }
  | compile hcode | listCatalog hcode | printCatalog hcode | showConfig hcode =>
    exact isLawful_of_zero hcode (by simp) (fun place h => absurd h (hsame place)) nofun nofun
  | importCatalog hcode hreads hwrite =>
    refine isLawful_of_zero hcode (by simp) (fun _ _ => .inl ⟨_, _, rfl⟩) ?_ nofun
    rintro mapping out ⟨⟩ place hchange
    exact leadsTo_of_write hwrite hchange
  | initConfig hcode hpath hexists hdirs hwrite =>
    refine isLawful_of_zero hcode (by simp) (fun _ _ => .inr ⟨_, rfl⟩) nofun ?_
    rintro force ⟨⟩ place hchange
    refine ⟨_, hpath, (leadsTo_of_write hwrite ?_).2, hexists⟩
    rw [hdirs place]
    exact hchange

theorem Call.turn_eq (c : Call) (t : FileTree) (hparse : Invocation.parse c.args = .ok inv) :
    c.turn t = ⟨c, t, (run (host c.input) c.env inv c.console t).1,
      (run (host c.input) c.env inv c.console t).2⟩ := by
  rw [turn, runLine, hparse]

theorem Call.turn_of_ok {o : Outcome} (hparse : Invocation.parse c.args = .ok inv)
    (h : (c.action inv).result t = (.ok o, t')) :
    c.turn t = ⟨c, t, o.withLog (c.log inv t), t'⟩ := by
  rw [c.turn_eq t hparse, c.run_eq, h]

theorem Call.turn_of_error {e : Error} (hparse : Invocation.parse c.args = .ok inv)
    (h : (c.action inv).result t = (.error e, t')) :
    c.turn t = ⟨c, t, (Outcome.ofError e (c.console.report e)).withLog (c.log inv t), t'⟩ := by
  rw [c.turn_eq t hparse, c.run_eq, h]

/-- Every turn is lawful, whatever files it starts from. -/
theorem Call.turn_isLawful (c : Call) (t : FileTree) (hparse : Invocation.parse c.args = .ok inv) :
    (c.turn t).IsLawful inv := by
  rcases hresult : (c.action inv).result t with ⟨e | o, t'⟩
  · rw [turn_of_error hparse hresult]
    exact Turn.isLawful_of_error hresult
  · rw [turn_of_ok hparse hresult]
    exact Turn.isLawful_of_effect (perform_effect hresult)

/-- In a sequence of calls every turn is lawful. -/
theorem session_isLawful {cs : List Call} {t : FileTree} {turn : Turn} {inv : Invocation}
    (hturn : turn ∈ session cs t) (hparse : Invocation.parse turn.call.args = .ok inv) :
    turn.IsLawful inv := by
  induction cs generalizing t with
  | nil => cases hturn
  | cons c cs ih =>
    rcases List.mem_cons.1 hturn with rfl | hlater
    · exact c.turn_isLawful t hparse
    · exact ih hlater

/-- A configuration is made, a request is linted strictly, and a second configuration has no place,
for there is no home directory. -/
def initLintInit : List Call :=
  [⟨{ config := some "lsq.toml" }, .empty, ["config", "init"], {}⟩,
    ⟨{ config := some "lsq.toml" }, "\x7b\"size\": 10\x7d".toUTF8, ["lint", "--strict"], {}⟩,
    ⟨{ configHome := some "/etc" }, .empty, ["config", "init", "-v"], {}⟩]

theorem initLintInit_isLawful :
    ∃ first second third, session initLintInit {} = [first, second, third] ∧
      first.IsLawful ⟨none, false, .initConfig false⟩ ∧
      second.IsLawful ⟨none, false, .lint none none true⟩ ∧
      third.outcome.exitCode = 1 ∧ third.outcome.output = "" ∧
      third.IsLawful ⟨none, true, .initConfig false⟩ := by
  have hfirst : _ ∈ session initLintInit {} := List.mem_cons_self
  have hsecond : _ ∈ session initLintInit {} := List.mem_cons_of_mem _ List.mem_cons_self
  have hthird : _ ∈ session initLintInit {} :=
    List.mem_cons_of_mem _ (List.mem_cons_of_mem _ List.mem_cons_self)
  have hlawful := session_isLawful hthird rfl
  exact ⟨_, _, _, rfl, session_isLawful hfirst rfl, session_isLawful hsecond rfl, rfl,
    (hlawful.failure rfl).1, hlawful⟩

end SearchQuery.Command
