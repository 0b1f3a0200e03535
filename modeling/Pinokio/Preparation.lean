/-
# Pinokio.Preparation -- the process from its start to its exit code

`prepare_browser` (`main.rs`) beside the gateway it prepares the browser for: the download
of a browser archive one step of `ensure_installed` at a time, the look at the binary, its
identification and the `OnceLock` that sessions wait for, or the two stores that announce
a failure. The gateway is the one of `Pinokio.Server`, whose shutdown now has two causes:
a signal from outside, and the token that a failed preparation cancels.

Between `startup_failed` and the token other threads go on. To the gateway the two stores
are one (`Shared.seen`), and each step here is one of its steps or none (`gatewayOf_step`).
-/
import Pinokio.BrowserArchive.Success
import Pinokio.Chromium.Identity
import Pinokio.Config.Ranges
import Pinokio.Server.NoAdmission

namespace Pinokio.Preparation

open BrowserArchive (Beyond Replica ReplicaAction Volume World installKey)
open Server (AppState EnvAction Request RequestAction)

/-! ## `prepare_browser` -/

/-- Where the task is. -/
inductive Task where
  | start
  | installing (call : Replica)
  | checking
  /-- The error is logged. -/
  | failing
  /-- `startup_failed` is stored, the token is still to be cancelled. -/
  | cancelling
  | identifying
  | recording (info : BrowserInfo)
  | returned

inductive TaskAction where
  /-- The task is polled for the first time. -/
  | begin
  | install (a : ReplicaAction)
  /-- Goes on after `ensure_installed`. -/
  | installed
  /-- `chrome_path.is_file()`; `found` is the answer for a path outside the install root. -/
  | check (beyond : Beyond) (found : Bool)
  | store
  | cancel
  | identify (run : VersionRun) (hash : Except String String)
  | record

/-- `AppState` and what the task works on. -/
structure Shared where
  app : AppState
  /-- The `OnceLock`. -/
  browser : Option BrowserInfo
  task : Task
  volume : Volume

/-- What a process is started with: a configuration that was accepted. -/
structure Setup where
  system : System
  config : Config
  accepted : Config.fromEnv system = .ok config
  pid : Nat

def Setup.limits (P : Setup) : Gate.Limits :=
  Config.gateLimits (Config.bounded_of_fromEnv P.accepted)

/-- The call of `ensure_installed` for an archive. -/
def Setup.call (P : Setup) (archive : Config.BrowserArchive) : Replica :=
  Replica.start archive.url archive.sha256 P.pid

section

variable (P : Setup)

/-- What the task does first. -/
def beginTask : Task :=
  match P.config.browserArchive with
  | some archive =>
    if P.config.browserEngine = .downloaded then .installing (P.call archive) else .checking
  | none => .checking

/-- `chrome_path.is_file()`: the path of a downloaded browser is in its install directory. -/
def chromeIsFile (v : Volume) (beyond : Beyond) (found : Bool) : Bool :=
  match P.config.browserEngine, P.config.browserArchive with
  | .downloaded, some archive =>
    BrowserArchive.binaryIsFile P.system.archives v (P.call archive) beyond
  | _, _ => found

/-- One step of `prepare_browser`. -/
def taskStep (s : Shared) (a : TaskAction) : Option Shared :=
  match s.task, a with
  | .start, .begin => some { s with task := beginTask P }
  -- killing the process is no step of it
  | .installing _, .install .kill => none
  | .installing call, .install a =>
    (BrowserArchive.ensureInstalledStep P.system.archives s.volume call a).map fun q =>
      { s with volume := q.1, task := .installing q.2 }
  | .installing call, .installed =>
    match call.phase with
    | .finished (.ok _) => some { s with task := .checking }
    | .finished (.error _) => some { s with task := .failing }
    | _ => none
  | .checking, .check beyond found =>
    some { s with task := if chromeIsFile P s.volume beyond found then .identifying else .failing }
  | .failing, .store =>
    some { s with app := { s.app with startupFailed := true }, task := .cancelling }
  | .cancelling, .cancel =>
    some { s with
      app := { s.app with gate := { s.app.gate with cancelled := true } }, task := .returned }
  | .identifying, .identify run hash =>
    some { s with task := .recording (identify P.config run hash) }
  | .recording info, .record =>
    some { s with
      app := { s.app with browser := true }, browser := s.browser.or (some info),
      task := .returned }
  | _, _ => none

/-! ## The process -/

inductive Event where
  | task (a : TaskAction)
  /-- SIGTERM or SIGINT. -/
  | signal
  /-- The signal handler notices that the shutdown was requested internally. -/
  | noticed
  | graceElapses
  | served
  | serveFails
  | drained
  | drainElapses

variable {Code : Type}

def gatewayStep (s : Shared) (requests : List (Request Code)) (e : EnvAction) : Option Shared :=
  (Server.envStep s.app requests e).map fun app => { s with app }

def eventStep (s : Shared) (requests : List (Request Code)) : Event → Option Shared
  | .task a => taskStep P s a
  | .signal => gatewayStep s requests .signal
  | .noticed => if s.app.shutdown then gatewayStep s requests .signal else none
  | .graceElapses => gatewayStep s requests .graceElapses
  | .served => gatewayStep s requests .served
  | .serveFails => gatewayStep s requests .serveFails
  | .drained => gatewayStep s requests .drained
  | .drainElapses => gatewayStep s requests .drainElapses

def program (codes : Proxy.CloseCodes Code) :
    Program Shared (Request Code) (RequestAction Code) Event where
  act s i r a := ((Server.program P.limits codes).act s.app i r a).map fun x =>
    ({ s with app := x.1 }, x.2)
  env s requests e := if s.app.main.isExited then none else eventStep P s requests e
  fresh r := r.isNew

abbrev State (Code : Type) := Pool.State Shared (Request Code)
abbrev Action (Code : Type) := Pool.Action (Request Code) (RequestAction Code) Event

def machine (codes : Proxy.CloseCodes Code) : Machine (State Code) (Action Code) :=
  Pool.machine (program P codes)

/-- The server listens and the task is spawned. -/
def init (v : Volume) : State Code where
  shared := { app := .new P.limits, browser := none, task := .start, volume := v }
  procs := []

end

/-! ## What the task has done -/

variable {Code : Type} {P : Setup} {codes : Proxy.CloseCodes Code}

/-- `startup_failed` is stored and the token not yet cancelled. -/
def Task.announcing : Task → Bool
  | cancelling => true
  | _ => false

/-- The binary was found. -/
def Task.found : Task → Bool
  | identifying | recording _ => true
  | _ => false

/-- The task has stored something, or is about to return. -/
def Task.stores : Task → Bool
  | cancelling | returned => true
  | _ => false

/-- Where the task is, and what it has stored. -/
def Shared.Consistent (s : Shared) : Prop :=
  s.app.browser = s.browser.isSome ∧
  match s.task with
  | .cancelling => s.app.startupFailed = true ∧ s.browser = none
  | .returned =>
    (s.app.startupFailed = true ∧ s.browser = none ∧ s.app.shutdown = true) ∨
      (s.app.startupFailed = false ∧ s.browser.isSome = true)
  | _ => s.app.startupFailed = false ∧ s.browser = none

/-- Everything one step of the task can do. -/
inductive TaskStep (P : Setup) (s : Shared) : TaskAction → Shared → Prop
  | begin (hp : s.task = .start) : TaskStep P s .begin { s with task := beginTask P }
  | install (call : Replica) (a : ReplicaAction) (v : Volume) (call' : Replica)
      (hp : s.task = .installing call)
      (h : BrowserArchive.ensureInstalledStep P.system.archives s.volume call a = some (v, call')) :
      TaskStep P s (.install a) { s with volume := v, task := .installing call' }
  | installed (call : Replica) (hp : s.task = .installing call)
      (h : call.phase = .finished (.ok ())) : TaskStep P s .installed { s with task := .checking }
  | installFailed (call : Replica) (e : BrowserArchive.InstallError)
      (hp : s.task = .installing call)
      (h : call.phase = .finished (.error e)) : TaskStep P s .installed { s with task := .failing }
  | found (beyond : Beyond) (found : Bool) (hp : s.task = .checking)
      (h : chromeIsFile P s.volume beyond found = true) :
      TaskStep P s (.check beyond found) { s with task := .identifying }
  | missing (beyond : Beyond) (found : Bool) (hp : s.task = .checking)
      (h : chromeIsFile P s.volume beyond found = false) :
      TaskStep P s (.check beyond found) { s with task := .failing }
  | store (hp : s.task = .failing) :
      TaskStep P s .store
        { s with app := { s.app with startupFailed := true }, task := .cancelling }
  | cancel (hp : s.task = .cancelling) :
      TaskStep P s .cancel
        { s with
          app := { s.app with gate := { s.app.gate with cancelled := true } }, task := .returned }
  | identify (run : VersionRun) (hash : Except String String) (hp : s.task = .identifying) :
      TaskStep P s (.identify run hash)
        { s with task := .recording (Pinokio.identify P.config run hash) }
  | record (info : BrowserInfo) (hp : s.task = .recording info) :
      TaskStep P s .record
        { s with
          app := { s.app with browser := true }, browser := s.browser.or (some info),
          task := .returned }

theorem taskStep_inv {s s' : Shared} {a : TaskAction} (h : taskStep P s a = some s') :
    TaskStep P s a s' := by
  unfold taskStep at h
  split at h
  · rename_i hp
    cases h
    exact .begin hp
  · cases h
  · rename_i call a hne hp
    obtain ⟨q, hq, h⟩ := Option.map_eq_some_iff.mp h
    cases h
    exact .install call a q.1 q.2 hp hq
  · rename_i call hp
    split at h
    · rename_i hphase
      cases h
      exact .installed call hp hphase
    · rename_i e hphase
      cases h
      exact .installFailed call e hp hphase
    · cases h
  · rename_i beyond found hp
    cases h
    split
    · rename_i hfile
      exact .found beyond found hp hfile
    · rename_i hfile
      exact .missing beyond found hp (Bool.eq_false_iff.mpr hfile)
  · rename_i hp
    cases h
    exact .store hp
  · rename_i hp
    cases h
    exact .cancel hp
  · rename_i run hash hp
    cases h
    exact .identify run hash hp
  · rename_i info hp
    cases h
    exact .record info hp
  · cases h

/-! ## Everything one step can do -/

/-- The step of the gateway's environment that an event is. -/
def Event.toEnv : Event → Option EnvAction
  | task _ => none
  | signal | noticed => some .signal
  | graceElapses => some .graceElapses
  | served => some .served
  | serveFails => some .serveFails
  | drained => some .drained
  | drainElapses => some .drainElapses

theorem gatewayStep_inv {s s' : Shared} {requests : List (Request Code)} {e : EnvAction}
    (h : gatewayStep s requests e = some s') :
    ∃ app, Server.envStep s.app requests e = some app ∧ s' = { s with app } := by
  obtain ⟨app, happ, heq⟩ := Option.map_eq_some_iff.mp h
  exact ⟨app, happ, heq.symm⟩

/-- What an event is: a step of the task, or one of the gateway's environment. -/
theorem eventStep_inv {s s' : Shared} {requests : List (Request Code)} {e : Event}
    (h : eventStep P s requests e = some s') :
    (∃ a, e = .task a ∧ TaskStep P s a s') ∨
      ∃ e' app, e.toEnv = some e' ∧ Server.envStep s.app requests e' = some app ∧
        s' = { s with app } := by
  cases e with
  | task a => exact Or.inl ⟨a, rfl, taskStep_inv h⟩
  | noticed =>
      obtain ⟨-, h⟩ := Option.ite_none_right_eq_some.mp h
      exact Or.inr ⟨.signal, (gatewayStep_inv h).imp fun app happ => ⟨rfl, happ⟩⟩
  | signal => exact Or.inr ⟨_, (gatewayStep_inv h).imp fun app happ => ⟨rfl, happ⟩⟩
  | graceElapses => exact Or.inr ⟨_, (gatewayStep_inv h).imp fun app happ => ⟨rfl, happ⟩⟩
  | served => exact Or.inr ⟨_, (gatewayStep_inv h).imp fun app happ => ⟨rfl, happ⟩⟩
  | serveFails => exact Or.inr ⟨_, (gatewayStep_inv h).imp fun app happ => ⟨rfl, happ⟩⟩
  | drained => exact Or.inr ⟨_, (gatewayStep_inv h).imp fun app happ => ⟨rfl, happ⟩⟩
  | drainElapses => exact Or.inr ⟨_, (gatewayStep_inv h).imp fun app happ => ⟨rfl, happ⟩⟩

/-- What the events around the task leave alone. -/
theorem envStep_frame {s s' : AppState} {requests : List (Request Code)} {e : Event}
    {e' : EnvAction} (he : e.toEnv = some e') (h : Server.envStep s requests e' = some s') :
    s'.browser = s.browser ∧ s'.startupFailed = s.startupFailed ∧
      (s.shutdown = true → s'.shutdown = true) := by
  cases e with
  | task a => cases he
  | signal | noticed =>
      cases he
      obtain ⟨-, h⟩ := Option.ite_none_right_eq_some.mp h
      cases h
      exact ⟨rfl, rfl, fun _ => rfl⟩
  | graceElapses =>
      cases he
      simp only [Server.envStep] at h
      split at h
      all_goals cases h
      all_goals exact ⟨rfl, rfl, id⟩
  | served | serveFails | drained | drainElapses =>
      cases he
      obtain ⟨-, h⟩ := Option.ite_none_right_eq_some.mp h
      cases h
      exact ⟨rfl, rfl, id⟩

/-- What a step of a request leaves alone. -/
theorem act_frame {s s' : AppState} {i : Nat} {r r' : Request Code} {a : RequestAction Code}
    (h : (Server.program P.limits codes).act s i r a = some (s', r')) :
    s'.browser = s.browser ∧ s'.startupFailed = s.startupFailed ∧ s'.main = s.main ∧
      s'.shutdown = s.shutdown := by
  rcases (Server.act_inv h).2.call_cases with ⟨rfl, -⟩ | ⟨b, hb, heq⟩
  · exact ⟨rfl, rfl, rfl, rfl⟩
  · have hcancelled := Server.callStep_cancelled (Gate.callStep_inv hb)
    rw [heq]
    exact ⟨rfl, rfl, rfl, hcancelled⟩

/-- A step of the process: the shared state is as it was but for the gate, or an event came. -/
theorem step_inv {s s' : State Code} {e : Action Code}
    (h : (machine P codes).step s e = some s') :
    (s'.shared = s.shared ∧ ∃ r, r.isNew = true ∧ s'.procs = s.procs ++ [r]) ∨
      (∃ i a r r', e = .act i a ∧ s.procs[i]? = some r ∧ s'.procs = s.procs.set i r' ∧
        (Server.program P.limits codes).act s.shared.app i r a = some (s'.shared.app, r') ∧
        s'.shared = { s.shared with app := s'.shared.app }) ∨
      ∃ e', e = .env e' ∧ s.shared.app.main.isExited = false ∧ s'.procs = s.procs ∧
        eventStep P s.shared s.procs e' = some s'.shared := by
  cases e with
  | spawn r =>
      obtain ⟨hfresh, rfl⟩ := Pool.step_spawn.mp h
      exact Or.inl ⟨rfl, r, hfresh, rfl⟩
  | act i a =>
      obtain ⟨r, shared, r', hr, hact, rfl⟩ := Pool.step_act.mp h
      obtain ⟨x, hx, heq⟩ := Option.map_eq_some_iff.mp hact
      obtain ⟨rfl, rfl⟩ := Prod.mk.inj heq
      exact Or.inr (Or.inl ⟨i, a, r, x.2, rfl, hr, rfl, hx, rfl⟩)
  | env e' =>
      obtain ⟨shared, henv, rfl⟩ := Pool.step_env.mp h
      obtain ⟨hm, henv⟩ := Option.ite_none_left_eq_some.mp henv
      exact Or.inr (Or.inr ⟨e', rfl, by simpa using hm, rfl, henv⟩)

/-! ## What is stored -/

theorem consistent_app {s : Shared} {app : AppState} (hC : s.Consistent)
    (hbrowser : app.browser = s.app.browser) (hfailed : app.startupFailed = s.app.startupFailed)
    (hshutdown : s.app.shutdown = true → app.shutdown = true) :
    Shared.Consistent { s with app } := by
  refine ⟨hbrowser.trans hC.1, ?_⟩
  have hC2 := hC.2
  cases htask : s.task with
  | returned =>
      simp only [htask] at hC2 ⊢
      rcases hC2 with ⟨hf, hb, hs⟩ | ⟨hf, hb⟩
      · exact Or.inl ⟨hfailed.trans hf, hb, hshutdown hs⟩
      · exact Or.inr ⟨hfailed.trans hf, hb⟩
  | _ =>
      simp only [htask] at hC2 ⊢
      exact ⟨hfailed.trans hC2.1, hC2.2⟩

/-- Before the task has stored anything, what it does first leaves nothing stored. -/
theorem consistent_pending {s : Shared} {task : Task}
    (hC : s.app.browser = s.browser.isSome ∧ s.app.startupFailed = false ∧ s.browser = none)
    (htask : task.stores = false) (v : Volume) :
    Shared.Consistent { s with task, volume := v } := by
  refine ⟨hC.1, ?_⟩
  cases task with
  | cancelling | returned => cases htask
  | _ => exact hC.2

theorem consistent_task {s s' : Shared} {a : TaskAction} (hC : s.Consistent)
    (h : TaskStep P s a s') : s'.Consistent := by
  obtain ⟨hb, hC⟩ := hC
  cases h with
  | begin hp =>
      simp only [hp] at hC
      apply consistent_pending ⟨hb, hC⟩ _ s.volume
      unfold beginTask
      split
      · split <;> rfl
      · rfl
  | install call a v call' hp h =>
      simp only [hp] at hC
      exact consistent_pending ⟨hb, hC⟩ rfl v
  | installed call hp h | installFailed call e hp h | found beyond found hp h
  | missing beyond found hp h | identify run hash hp =>
      simp only [hp] at hC
      exact consistent_pending ⟨hb, hC⟩ rfl s.volume
  | store hp =>
      simp only [hp] at hC
      exact ⟨hb, rfl, hC.2⟩
  | cancel hp =>
      simp only [hp] at hC
      exact ⟨hb, Or.inl ⟨hC.1, hC.2, rfl⟩⟩
  | record info hp =>
      simp only [hp] at hC
      refine ⟨?_, Or.inr ⟨hC.1, ?_⟩⟩
      · rw [hC.2]
        rfl
      · rw [hC.2]
        rfl

theorem consistent_step {s s' : State Code} {e : Action Code}
    (h : (machine P codes).step s e = some s') (hC : s.shared.Consistent) :
    s'.shared.Consistent := by
  rcases step_inv h with ⟨heq, -⟩ | ⟨i, a, r, r', -, -, -, hact, heq⟩ | ⟨e', -, -, -, hevent⟩
  · rw [heq]
    exact hC
  · obtain ⟨hb, hf, -, hs⟩ := act_frame hact
    rw [heq]
    exact consistent_app hC hb hf fun hshutdown => hs.trans hshutdown
  · rcases eventStep_inv hevent with ⟨a, -, htask⟩ | ⟨e'', app, he, henv, heq⟩
    · exact consistent_task hC htask
    · obtain ⟨hb, hf, hs⟩ := envStep_frame he henv
      rw [heq]
      exact consistent_app hC hb hf hs

/-! ## The gateway inside the process -/

/-- `AppState` as the gateway sees it, to which the two stores of a failure are one. -/
def Shared.seen (s : Shared) : AppState :=
  { s.app with startupFailed := s.app.startupFailed && !s.task.announcing }

def gatewayOf (s : State Code) : Server.State Code := { shared := s.shared.seen, procs := s.procs }

/-- Nothing a request does depends on `startup_failed`. -/
theorem requestStep_startupFailed (limits : Gate.Limits) (s : AppState) (i : Nat)
    (r : Request Code) (a : RequestAction Code) (b : Bool) :
    Server.requestStep limits codes { s with startupFailed := b } i r a =
      (Server.requestStep limits codes s i r a).map fun x =>
        ({ x.1 with startupFailed := b }, x.2) := by
  unfold Server.requestStep
  split
  · rw [Option.map_map]
    rfl
  all_goals
    try simp only [Option.map_map, Option.map_some, Option.map_none, Function.comp_def,
      Option.map_bind]
  all_goals
    try (split <;> simp only [Option.map_map, Function.comp_def, Option.map_none])

theorem act_startupFailed {s s' : AppState} {i : Nat} {r r' : Request Code}
    {a : RequestAction Code} (b : Bool)
    (h : (Server.program P.limits codes).act s i r a = some (s', r')) :
    (Server.program P.limits codes).act { s with startupFailed := b } i r a =
      some ({ s' with startupFailed := b }, r') := by
  obtain ⟨hm, h⟩ := Option.ite_none_left_eq_some.mp h
  show (if s.main.isExited = true then none
    else Server.requestStep P.limits codes { s with startupFailed := b } i r a) = _
  rw [if_neg hm, requestStep_startupFailed, h]
  rfl

theorem announcing_beginTask (P : Setup) : (beginTask P).announcing = false := by
  unfold beginTask
  split
  · split <;> rfl
  · rfl

/-- What the gateway sees of a step of the task. -/
theorem seen_task {s s' : Shared} {requests : List (Request Code)} {a : TaskAction}
    (hC : s.Consistent) (h : TaskStep P s a s') :
    s'.seen = s.seen ∨ ∃ e, Server.envStep s.seen requests e = some s'.seen := by
  obtain ⟨hbrowser, hC⟩ := hC
  cases h with
  | begin hp =>
      left
      simp only [Shared.seen, hp, announcing_beginTask]
      rfl
  | install call a v call' hp h | installed call hp h | installFailed call e hp h
  | found beyond found hp h | missing beyond found hp h | identify run hash hp =>
      left
      simp only [Shared.seen, hp]
      rfl
  | store hp =>
      left
      simp only [hp] at hC
      simp only [Shared.seen, hp, hC.1]
      rfl
  | cancel hp =>
      right
      simp only [hp] at hC
      refine ⟨.browserFails, ?_⟩
      have hno : s.app.browser = false := by
        rw [hbrowser, hC.2]
        rfl
      simp only [Shared.seen, hp, Server.envStep, hno, hC.1]
      rfl
  | record info hp =>
      right
      simp only [hp] at hC
      refine ⟨.browserReady, ?_⟩
      simp only [Shared.seen, hp, Server.envStep, hC.1]
      rfl

/-- What the gateway sees of the other events: the check of `startup_failed` before the exit
may come between its store and the cancellation. -/
theorem seen_env {s : Shared} {requests : List (Request Code)} {e : Event} {e' : EnvAction}
    {app : AppState} (hC : s.Consistent) (he : e.toEnv = some e')
    (h : Server.envStep s.app requests e' = some app) :
    ∃ e'', Server.envStep s.seen requests e'' = some (Shared.seen { s with app }) := by
  cases e with
  | task a => cases he
  | signal | noticed =>
      cases he
      obtain ⟨hcond, h⟩ := Option.ite_none_right_eq_some.mp h
      cases h
      exact ⟨.signal, if_pos hcond⟩
  | served =>
      cases he
      obtain ⟨hcond, h⟩ := Option.ite_none_right_eq_some.mp h
      cases h
      exact ⟨.served, if_pos hcond⟩
  | serveFails =>
      cases he
      obtain ⟨hcond, h⟩ := Option.ite_none_right_eq_some.mp h
      cases h
      exact ⟨.serveFails, if_pos hcond⟩
  | drainElapses =>
      cases he
      obtain ⟨hcond, h⟩ := Option.ite_none_right_eq_some.mp h
      cases h
      exact ⟨.drainElapses, if_pos hcond⟩
  | graceElapses =>
      cases he
      refine ⟨.graceElapses, ?_⟩
      simp only [Server.envStep] at h
      simp only [Server.envStep, Shared.seen]
      split at h
      · rename_i hm
        cases h
        rw [hm]
      · rename_i hm
        cases h
        rw [hm]
      · cases h
  | drained =>
      cases he
      obtain ⟨hcond, h⟩ := Option.ite_none_right_eq_some.mp h
      cases h
      cases htask : s.task with
      | cancelling =>
          -- the exit code is the one of a drain that took too long
          have hfailed : s.app.startupFailed = true := by
            have hC2 := hC.2
            simp only [htask] at hC2
            exact hC2.1
          refine ⟨.drainElapses, (if_pos hcond.1).trans ?_⟩
          simp only [Shared.seen, hfailed, htask, Task.announcing, Bool.not_true, Bool.and_false]
      | _ =>
          refine ⟨.drained, (if_pos hcond).trans ?_⟩
          simp only [Shared.seen, htask, Task.announcing, Bool.not_false, Bool.and_true]

theorem gatewayOf_step {s s' : State Code} {e : Action Code}
    (h : (machine P codes).step s e = some s') (hC : s.shared.Consistent) :
    ∃ bs, (Server.machine P.limits codes).run (gatewayOf s) bs = some (gatewayOf s') ∧
      bs.flatMap Pool.Action.ofProcs = e.ofProcs := by
  cases e with
  | spawn r =>
      obtain ⟨hnew, rfl⟩ := Pool.step_spawn.mp h
      refine ⟨[.spawn r], (Machine.run_singleton _).mpr (Pool.step_spawn.mpr ⟨hnew, rfl⟩), rfl⟩
  | act i a =>
      obtain ⟨r, shared, r', hr, hact, rfl⟩ := Pool.step_act.mp h
      obtain ⟨x, hx, heq⟩ := Option.map_eq_some_iff.mp hact
      obtain ⟨rfl, rfl⟩ := Prod.mk.inj heq
      have hseen : Shared.seen { s.shared with app := x.1 } = { x.1 with
          startupFailed := s.shared.app.startupFailed && !s.shared.task.announcing } := by
        unfold Shared.seen
        rw [(act_frame hx).2.1]
      refine ⟨[.act i a], (Machine.run_singleton _).mpr (Pool.step_act.mpr
        ⟨r, Shared.seen { s.shared with app := x.1 }, x.2, hr, ?_, rfl⟩), rfl⟩
      rw [hseen]
      exact act_startupFailed _ hx
  | env e' =>
      obtain ⟨shared, henv, rfl⟩ := Pool.step_env.mp h
      obtain ⟨hm, hevent⟩ := Option.ite_none_left_eq_some.mp henv
      have hseen : shared.seen = s.shared.seen ∨
          ∃ e, Server.envStep s.shared.seen s.procs e = some shared.seen := by
        rcases eventStep_inv hevent with ⟨a, -, htask⟩ | ⟨e'', app, he, henv, heq⟩
        · exact seen_task hC htask
        · rw [heq]
          exact Or.inr (seen_env hC he henv)
      rcases hseen with hsame | ⟨e, he⟩
      · refine ⟨[], ?_, rfl⟩
        simp only [gatewayOf, hsame]
        rfl
      · refine ⟨[.env e], (Machine.run_singleton _).mpr (Pool.step_env.mpr
          ⟨shared.seen, ?_, rfl⟩), rfl⟩
        show (if s.shared.app.main.isExited = true then none
          else Server.envStep s.shared.seen s.procs e) = _
        rw [if_neg hm]
        exact he

theorem consistent_init (v : Volume) : (init P v : State Code).shared.Consistent := ⟨rfl, rfl, rfl⟩

end Pinokio.Preparation
