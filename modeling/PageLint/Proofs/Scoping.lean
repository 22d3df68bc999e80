import PageLint.Analysis

/-!
# Scopes of settings

Settings are put in force for the rest of a scope, or for a scope that is entered and left again. A
scope is left when what runs in it is done and also when it fails. Whatever is set or reset in it,
the settings from before it are in force again: no program touches the settings that it returns to.
An analysis only looks at the settings in force, when it reads the page and when each pass runs, so
it changes nothing, and in a scope of its own it does not depend on what is in force around it.

* `Scope.analyzeNow?`, `Scope.analyzeNow?_eq` — an analysis that looks up the settings in force
* `Program`, `Program.run` — programs that set, reset, enter scopes, fail and analyse pages
* `Program.run_scoped` — a program leaves the settings to return to as they are
* `Program.run_alike` — what a program does depends on the settings in force alone
* `settings_scoped` — leaving a scope restores, and nothing else that is not asked to changes
-/

namespace PageLint.Config

/-! ## Analyses under the settings in force -/

namespace Scope

/-- Runs passes in order, each under the settings that are in force when its turn comes. -/
def runPassesNow (ids : List String) (document : Document) :
    List Pass → Collector → StateM Scope (Collector × List Event)
  | [], collector => return (collector, [])
  | pass :: passes, collector => do
    let scope ← get
    let (findings, events) := pass.run scope.active ids document
    let collected := collector.addAll findings
    let (final, more) ← runPassesNow ids document passes collected
    return (final,
      events ++ .passFinished pass.label (collected.count - collector.count) :: more)

/-- Analyses the source of a page: it is read under the settings that are in force when reading
starts, and then the passes run. -/
def analyzeNow? (source : String) (file : Option String) : StateM Scope (Option Analysis) := do
  let scope ← get
  match readPage? scope.active source file with
  | none => return none
  | some page =>
    let read : Event := .pageRead file page.document.children.length page.elementIds.length
    let (collector, events) ← runPassesNow page.elementIds page.document Pass.all {}
    return some { page, collector, events := page.events ++ read :: events }

theorem runPassesNow_eq (ids : List String) (document : Document) (passes : List Pass)
    (collector : Collector) (s : Scope) :
    (runPassesNow ids document passes collector).run s =
      (runPasses s.active ids document passes collector, s) := by
  induction passes generalizing collector with
  | nil => rfl
  | cons pass passes ih =>
    have hrest := ih (collector.addAll (pass.run s.active ids document).1)
    simp only [runPassesNow, StateT.run_bind, StateT.run_get, pure_bind, hrest]
    rfl

/-- **An analysis is that under the settings in force when it starts**, and changes none. -/
theorem analyzeNow?_eq (source : String) (file : Option String) (s : Scope) :
    (analyzeNow? source file).run s = (analyze? s.active source file, s) := by
  rw [analyze?, analyzeInto?]
  cases hread : readPage? s.active source file with
  | none =>
    simp only [analyzeNow?, StateT.run_bind, StateT.run_get, pure_bind, hread]
    rfl
  | some page =>
    have hpasses := runPassesNow_eq page.elementIds page.document Pass.all {} s
    simp only [analyzeNow?, StateT.run_bind, StateT.run_get, pure_bind, hread, hpasses]
    rfl

@[simp] theorem active_enter (s : Scope) (c : Config) : (s.enter c).active = c := rfl

/-- A scope is left to what was in force before it was entered, when the settings to return to are
as they were then. -/
theorem leave_of_outer {s inner : Scope} {c : Config} (h : inner.outer = (s.enter c).outer) :
    inner.leave = s := by
  rw [leave, h]
  rfl

end Scope

/-! ## Programs -/

/-- Settings as they are given: at hand, or as the fields of an object that is still to be read. -/
inductive Given where
  | settings (c : Config)
  | fields (fields : List (String × Json))

/-- The settings that are given, or why they are refused. -/
def Given.read : Given → Except Fault Config
  | settings c => .ok c
  | fields fs => ofFields fs

/-- A program that changes settings, in scopes and outside them, and analyses pages. -/
inductive Program where
  | nothing
  | andThen (first second : Program)
  | set (given : Given)
  | reset
  | analyze (source : String) (file : Option String)
  /-- Enters a scope with settings of its own, and leaves it when the body is done or fails. -/
  | within (given : Given) (body : Program)
  /-- Fails, as does an analysis that looks at a value of no use to it. -/
  | fail
  /-- Goes on when the body fails. -/
  | attempt (body : Program)

/-- Analyses a page in a scope with settings of its own. -/
def Program.analyzeUnder (given : Given) (source : String) (file : Option String) : Program :=
  within given (analyze source file)

/-- How a run ends, if it does: an analysis may go on for ever. -/
inductive Ending where
  | done
  | failed
  | unending
  deriving DecidableEq, Repr

/-- Something that a program has done. -/
inductive Action where
  | set (c : Config)
  | reset
  /-- Settings have been refused. -/
  | refused (fault : Fault)
  | analyzed (source : String) (file : Option String) (analysis : Analysis)
  /-- A scope has been left. -/
  | left

/-- An action with the settings in force before and after it. For a scope that has been left, these
are the settings in force when it was entered and when it had been left. -/
structure Entry where
  action : Action
  before : Config
  after : Config

/-- What a run gives: the settings that are then in force and to return to, how it ends, and what
has been done on the way. -/
structure Outcome where
  scope : Scope
  ending : Ending
  log : List Entry

namespace Outcome

/-- Nothing but one action has been done. -/
def one (action : Action) (ending : Ending) (s s' : Scope) : Outcome :=
  { scope := s', ending, log := [{ action, before := s.active, after := s'.active }] }

/-- The analyses of a run, in order. -/
def analyses (o : Outcome) : List Analysis :=
  o.log.filterMap fun e =>
    match e.action with
    | .analyzed _ _ analysis => some analysis
    | _ => none

/-- A run is gone on with when it is done. -/
def andThen (o : Outcome) (next : Scope → Outcome) : Outcome :=
  match o.ending with
  | .done => { next o.scope with log := o.log ++ (next o.scope).log }
  | _ => o

/-- Leaves the scope that a run has been in, which had been entered from `s`. -/
def leave (s : Scope) (o : Outcome) : Outcome :=
  match o.ending with
  | .unending => o
  | _ =>
    let left := one .left o.ending s o.scope.leave
    { left with log := o.log ++ left.log }

end Outcome

/-- Goes on with the settings that are given, or fails. -/
def Given.andThen (given : Given) (s : Scope) (next : Config → Outcome) : Outcome :=
  match given.read with
  | .ok c => next c
  | .error fault => .one (.refused fault) .failed s s

/-- What a program does. -/
def Program.run : Program → Scope → Outcome
  | nothing, s => { scope := s, ending := .done, log := [] }
  | andThen first second, s => (first.run s).andThen second.run
  | set given, s => given.andThen s fun c => .one (.set c) .done s (s.set c)
  | reset, s => .one .reset .done s s.reset
  | analyze source file, s =>
    match (Scope.analyzeNow? source file).run s with
    | (some analysis, s') => .one (.analyzed source file analysis) .done s s'
    | (none, s') => { scope := s', ending := .unending, log := [] }
  | within given body, s => given.andThen s fun c => (body.run (s.enter c)).leave s
  | fail, s => { scope := s, ending := .failed, log := [] }
  | attempt body, s =>
    let o := body.run s
    match o.ending with
    | .failed => { o with ending := .done }
    | _ => o

/-! ## What a program leaves as it is -/

/-- What an action may do to the settings in force: only those that are set and the default come
into force, and an analysis is that under the settings in force. -/
def Entry.Kept (e : Entry) : Prop :=
  match e.action with
  | .set c => e.after = c
  | .reset => e.after = {}
  | .analyzed source file analysis =>
    e.after = e.before ∧ PageLint.analyze? e.before source file = some analysis
  | .refused _ | .left => e.after = e.before

/-- A run leaves the settings to return to as they are, and every action of it does what it may. -/
structure Outcome.Scoped (s : Scope) (o : Outcome) : Prop where
  outer : o.ending ≠ .unending → o.scope.outer = s.outer
  kept : ∀ e ∈ o.log, e.Kept

namespace Outcome

variable {s : Scope} {o : Outcome}

theorem Scoped.of_nothing (ending : Ending) : Scoped s { scope := s, ending, log := [] } :=
  ⟨fun _ => rfl, List.forall_mem_nil _⟩

theorem Scoped.of_one {action : Action} {ending : Ending} {s' : Scope} (houter : s'.outer = s.outer)
    (hkept : Entry.Kept { action, before := s.active, after := s'.active }) :
    Scoped s (one action ending s s') :=
  ⟨fun _ => houter, List.forall_mem_singleton.2 hkept⟩

theorem Scoped.andThen (h : o.Scoped s) {next : Scope → Outcome}
    (hnext : (next o.scope).Scoped o.scope) : (o.andThen next).Scoped s := by
  unfold Outcome.andThen
  split
  · rename_i hdone
    refine ⟨fun hending => ?_, List.forall_mem_append.2 ⟨h.kept, hnext.kept⟩⟩
    exact (hnext.outer hending).trans (h.outer (by rw [hdone]; decide))
  · exact h

/-- **Leaving a scope puts the settings in force that were in force when it was entered.** -/
theorem Scoped.scope_leave {c : Config} (h : o.Scoped (s.enter c))
    (hending : o.ending ≠ .unending) : (o.leave s).scope = s := by
  have hleave : o.scope.leave = s := Scope.leave_of_outer (h.outer hending)
  unfold Outcome.leave
  split
  · contradiction
  · exact hleave

theorem Scoped.leave {c : Config} (h : o.Scoped (s.enter c)) : (o.leave s).Scoped s := by
  by_cases hending : o.ending = .unending
  · unfold Outcome.leave
    rw [hending]
    exact ⟨fun hended => absurd hending hended, h.kept⟩
  · refine ⟨fun _ => by rw [h.scope_leave hending], ?_⟩
    have hleave : o.scope.leave = s := Scope.leave_of_outer (h.outer hending)
    unfold Outcome.leave
    split
    · contradiction
    · refine List.forall_mem_append.2 ⟨h.kept, List.forall_mem_singleton.2 ?_⟩
      exact congrArg Scope.active hleave

theorem ending_leave (s : Scope) (o : Outcome) : (o.leave s).ending = o.ending := by
  unfold Outcome.leave
  split <;> rfl

theorem analyses_leave (s : Scope) (o : Outcome) : (o.leave s).analyses = o.analyses := by
  unfold Outcome.leave
  split
  · rfl
  · simp [analyses, one]

end Outcome

namespace Program

theorem run_analyze (source : String) (file : Option String) (s : Scope) :
    (analyze source file).run s =
      match PageLint.analyze? s.active source file with
      | some analysis => .one (.analyzed source file analysis) .done s s
      | none => { scope := s, ending := .unending, log := [] } := by
  rw [run, Scope.analyzeNow?_eq]
  cases PageLint.analyze? s.active source file <;> rfl

theorem run_within_of_ok {given : Given} {c : Config} (h : given.read = .ok c) (body : Program)
    (s : Scope) : (within given body).run s = (body.run (s.enter c)).leave s := by
  rw [run, Given.andThen, h]

theorem run_within_of_error {given : Given} {fault : Fault} (h : given.read = .error fault)
    (body : Program) (s : Scope) :
    (within given body).run s = .one (.refused fault) .failed s s := by
  rw [run, Given.andThen, h]

/-- **What a program does is scoped.** -/
theorem run_scoped (p : Program) (s : Scope) : (p.run s).Scoped s := by
  -- A scope is left to what it was entered from because its body has kept that.
  induction p generalizing s with
  | nothing => exact .of_nothing .done
  | andThen first second ih ih' => exact (ih s).andThen (ih' _)
  | set given =>
    rw [run, Given.andThen]
    split
    · exact .of_one rfl rfl
    · exact .of_one rfl rfl
  | reset => exact .of_one rfl rfl
  | analyze source file =>
    rw [run_analyze]
    split
    · rename_i analysis hanalysis
      exact .of_one rfl ⟨rfl, hanalysis⟩
    · exact .of_nothing .unending
  | within given body ih =>
    cases hread : given.read with
    | ok c =>
      rw [run_within_of_ok hread]
      exact (ih (s.enter c)).leave
    | error fault =>
      rw [run_within_of_error hread]
      exact .of_one rfl rfl
  | fail => exact .of_nothing .failed
  | attempt body ih =>
    rw [run]
    split
    · rename_i hfailed
      exact ⟨fun _ => (ih s).outer (by rw [hfailed]; decide), (ih s).kept⟩
    · exact ih s

end Program

/-! ## What a program depends on -/

/-- Two runs that do the same, from settings to return to that may differ. -/
structure Outcome.Alike (o o' : Outcome) : Prop where
  active : o'.scope.active = o.scope.active
  ending : o'.ending = o.ending
  log : o'.log = o.log

/-- **What a program does depends on the settings in force alone**, not on those to return to. -/
theorem Program.run_alike (p : Program) {s s' : Scope} (h : s'.active = s.active) :
    (p.run s).Alike (p.run s') := by
  induction p generalizing s s' with
  | nothing => exact ⟨h, rfl, rfl⟩
  | andThen first second ih ih' =>
    obtain ⟨hactive, hending, hlog⟩ := ih h
    rw [run, run, Outcome.andThen, Outcome.andThen, hending]
    split
    · obtain ⟨hactive', hending', hlog'⟩ := ih' hactive
      exact ⟨hactive', hending', by rw [hlog, hlog']⟩
    · exact ⟨hactive, hending, hlog⟩
  | set given =>
    rw [run, run, Given.andThen, Given.andThen]
    split
    · exact ⟨rfl, rfl, by rw [Outcome.one, Outcome.one, h]; rfl⟩
    · exact ⟨h, rfl, by rw [Outcome.one, Outcome.one, h]⟩
  | reset => exact ⟨rfl, rfl, by rw [run, run, Outcome.one, Outcome.one, h]; rfl⟩
  | analyze source file =>
    rw [run_analyze, run_analyze, h]
    split
    · exact ⟨h, rfl, by rw [Outcome.one, Outcome.one, h]⟩
    · exact ⟨h, rfl, rfl⟩
  | within given body ih =>
    cases hread : given.read with
    | error fault =>
      rw [run_within_of_error hread, run_within_of_error hread]
      exact ⟨h, rfl, by rw [Outcome.one, Outcome.one, h]⟩
    | ok c =>
      rw [run_within_of_ok hread, run_within_of_ok hread]
      have henter : (s'.enter c).active = (s.enter c).active := rfl
      obtain ⟨hactive, hending, hlog⟩ := ih henter
      by_cases hended : (body.run (s.enter c)).ending = .unending
      · rw [Outcome.leave, Outcome.leave, hending, hended]
        exact ⟨hactive, hending, hlog⟩
      · have hleave := Scope.leave_of_outer ((run_scoped body (s.enter c)).outer hended)
        have hleave' := Scope.leave_of_outer ((run_scoped body (s'.enter c)).outer
          (by rwa [hending]))
        rw [Outcome.leave, Outcome.leave, hending]
        split
        · contradiction
        · rw [Outcome.one, Outcome.one, hleave, hleave', h, hlog]
          exact ⟨h, rfl, rfl⟩
  | fail => exact ⟨h, rfl, rfl⟩
  | attempt body ih =>
    obtain ⟨hactive, hending, hlog⟩ := ih h
    rw [run, run, hending]
    split
    · exact ⟨hactive, rfl, hlog⟩
    · exact ⟨hactive, hending, hlog⟩

/-! ## Scopes -/

/-- What a scope with settings of its own does, whatever runs in it. -/
structure Program.ScopeRestored (given : Given) (body : Program) (s : Scope) : Prop where
  /-- When the scope has been left, all is as it was when it was entered. -/
  restored : ((within given body).run s).ending ≠ .unending → ((within given body).run s).scope = s
  /-- It is left in the way in which its body ends, done or failed. -/
  passedOn : ∀ c, given.read = .ok c →
    ((within given body).run s).ending = (body.run (s.enter c)).ending
  /-- When its settings are refused, it is not entered, and the program fails. -/
  refused : ∀ fault, given.read = .error fault →
    ((within given body).run s).ending = .failed ∧ ((within given body).run s).scope = s
  /-- What it gives does not depend on the settings around it. -/
  isolated : ∀ s', ((within given body).run s').ending = ((within given body).run s).ending ∧
    ((within given body).run s').analyses = ((within given body).run s).analyses

theorem Program.scopeRestored (given : Given) (body : Program) (s : Scope) :
    ScopeRestored given body s := by
  cases hread : given.read with
  | error fault =>
    have hrun := run_within_of_error hread body
    refine ⟨fun _ => by rw [hrun]; rfl, fun c hc => ?_, fun _ _ => by rw [hrun]; exact ⟨rfl, rfl⟩,
      fun s' => by rw [hrun, hrun]; exact ⟨rfl, rfl⟩⟩
    rw [hread] at hc
    cases hc
  | ok c =>
    have hrun := run_within_of_ok hread body
    refine ⟨fun hended => ?_, fun c' hc => ?_, fun fault hfault => ?_, fun s' => ?_⟩
    · rw [hrun, Outcome.ending_leave] at hended
      rw [hrun]
      exact (run_scoped body (s.enter c)).scope_leave hended
    · obtain rfl : c = c' := Except.ok.inj (hread.symm.trans hc)
      rw [hrun, Outcome.ending_leave]
    · rw [hread] at hfault
      cases hfault
    · have halike : (body.run (s.enter c)).Alike (body.run (s'.enter c)) := run_alike body rfl
      simp only [hrun, Outcome.ending_leave, Outcome.analyses_leave]
      exact ⟨halike.ending, by rw [Outcome.analyses, Outcome.analyses, halike.log]⟩

/-- **Settings are scoped**: in every program, each scope that is left, nested or not, brings the
settings back that were in force when it was entered, and analyses and refused settings change
nothing. An analysis in a scope of its own is that under its settings, whatever is in force around
it. -/
theorem settings_scoped :
    (∀ (p : Program) (s : Scope), (p.run s).Scoped s) ∧
    (∀ (given : Given) (body : Program) (s : Scope), Program.ScopeRestored given body s) ∧
    (∀ (source : String) (file : Option String) (s : Scope),
      ((Program.analyze source file).run s).scope = s) ∧
    (∀ (given : Given) (fault : Fault) (s : Scope), given.read = .error fault →
      ((Program.set given).run s).ending = .failed ∧ ((Program.set given).run s).scope = s) ∧
    ∀ (c : Config) (source : String) (file : Option String) (s : Scope),
      let o := (Program.analyzeUnder (.settings c) source file).run s
      o.analyses = (PageLint.analyze? c source file).toList ∧
        (o.ending = .unending ↔ PageLint.analyze? c source file = none) ∧
        (o.ending ≠ .unending → o.scope = s) := by
  refine ⟨Program.run_scoped, Program.scopeRestored, fun source file s => ?_,
    fun given fault s hread => ?_, fun c source file s => ?_⟩
  · rw [Program.run_analyze]
    split <;> rfl
  · rw [Program.run, Given.andThen, hread]
    exact ⟨rfl, rfl⟩
  · have hread : (Given.settings c).read = .ok c := rfl
    have hrun := Program.run_within_of_ok hread (.analyze source file) s
    refine ⟨?_, ?_, (Program.scopeRestored (.settings c) (.analyze source file) s).restored⟩
    · rw [Program.analyzeUnder, hrun, Outcome.analyses_leave, Program.run_analyze,
        Scope.active_enter]
      cases PageLint.analyze? c source file <;> rfl
    · rw [Program.analyzeUnder, hrun, Outcome.ending_leave, Program.run_analyze, Scope.active_enter]
      cases PageLint.analyze? c source file <;> simp [Outcome.one]

/-- A program that sets, resets, analyses and is refused settings in a scope, and fails in a scope
inside it. -/
def failingInside : Program :=
  .within (.settings { doctypeMaxLine := 7 })
    (.andThen (.set (.settings { doctypeMaxLine := 1 }))
      (.andThen (.analyzeUnder (.settings {}) "\n\n<!DOCTYPE html>" none)
        (.andThen (.attempt (.set (.fields [("void_elements", .int 5)])))
          (.andThen .reset (.within (.fields [("doctype_max_line", .int 2)]) .fail)))))

/-- All scopes are left, the inner ones to the settings of the outer one and the outer one to those
around it, in the order in which it happens. -/
theorem failingInside_scoped :
    let s : Scope := { active := { doctypeMaxLine := 9 } }
    (failingInside.run s).ending = .failed ∧ (failingInside.run s).scope = s ∧
      (∀ e ∈ (failingInside.run s).log, e.Kept) ∧
      ((Program.set (.fields [("void_elements", .int 5)])).run s).scope = s ∧
      (failingInside.run s).log.map (fun e => (e.before.doctypeMaxLine, e.after.doctypeMaxLine)) =
        [(7, 1), (3, 3), (1, 1), (1, 1), (1, 3), (3, 3), (9, 9)] := by
  intro s
  have hending : (failingInside.run s).ending = .failed := by decide +kernel
  refine ⟨hending, (settings_scoped.2.1 _ _ s).restored ?_,
    (settings_scoped.1 failingInside s).kept,
    (settings_scoped.2.2.2.1 _ (.noItems (.int 5)) s rfl).2, by decide +kernel⟩
  exact fun h => Ending.noConfusion (hending.symm.trans h)

end PageLint.Config
