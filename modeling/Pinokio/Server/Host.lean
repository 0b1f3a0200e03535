/-
# Pinokio.Server.Host -- the gateway on its host

The requests of `Server` over the process table of the kernel. The launch of a Chromium
forks a child, whose number becomes the `pgid` that `Chromium::shutdown` signals; the
child makes its own session in `pre_exec` and is then on its own. What a request sees
of its child (`Chromium.child`) is what the kernel has told it, and each `killpg`
reaches whatever goes by that group number when it is sent, which `delivered` records.
All other processes do what the kernel lets them do, at any time.

The gateway does not notice: a run here is one of the gateway (`gateway_run`).
-/
import Pinokio.Lib.Processes
import Pinokio.Server

namespace Pinokio

/-- A `killpg` is still to come, or may be. -/
def Shutdown.signals : Shutdown → Bool
  | tryWait | graceWait | killWait | sweep => true
  | removeDir | finished => false

namespace Signals

open Server
open Processes (Call Proc Table)

variable {Code : Type} {limits : Gate.Limits} {codes : Proxy.CloseCodes Code}

/-! ## The gateway on its host -/

/-- A process that was reached by a `killpg` of request `sender`. -/
structure Delivery where
  sender : Nat
  signal : Signal
  process : Proc Nat
  deriving DecidableEq, Repr

/-- Processes are labelled with the request whose child they descend from; `gateway`
is the number of the gateway's own process. -/
structure Host where
  app : AppState
  table : Table Nat
  gateway : Nat
  delivered : List Delivery

/-- A request with the number of its child, once that is forked; `leads` says that the
child has made its session. -/
structure Session (Code : Type) where
  request : Request Code
  pid : Option Nat
  leads : Bool

inductive SessionAction (Code : Type) where
  /-- `command.spawn()` forks, and the kernel picks the number. -/
  | fork (pid : Nat)
  /-- The child runs `setsid` in its `pre_exec`. -/
  | setsid
  | request (a : RequestAction Code)

inductive HostAction where
  /-- Some process calls the kernel. -/
  | call (c : Call Nat)
  | gateway (e : EnvAction)

def Host.call (h : Host) (c : Call Nat) : Option Host :=
  (h.table.step c).map fun table => { h with table }

/-- The signals of one step of request `i` to the group `n`. -/
def Host.killpg (h : Host) (i n : Nat) (signals : List Signal) : Host :=
  { h with delivered := h.delivered ++ signals.flatMap fun signal =>
      (h.table.group n).map fun process => { sender := i, signal, process } }

/-- What a step that made `p'` of the Chromium `p` is for the kernel: its child `n`
exited or was reaped, and the new signals went to the group `n`. -/
def Host.follow (h : Host) (i n : Nat) (p p' : Chromium) : Option Host :=
  (if p'.child = p.child then some h
    else match p'.child with
      | .running => some h
      | .exited => h.call (.exit n)
      | .reaped => h.call (.reap n)).map fun h =>
    h.killpg i n (p'.groupSignals.drop p.groupSignals.length)

/-- The same for a step of request `i` to `r'`; without a Chromium there is nothing to do. -/
def Host.track (h : Host) (i : Nat) (c : Session Code) (r' : Request Code) : Option Host :=
  match c.pid, c.request.chromium, r'.chromium with
  | some n, some p, some p' => h.follow i n p p'
  | _, _, _ => some h

/-- What a step of a request is for the kernel. -/
def Host.effect (h : Host) (i : Nat) (c : Session Code) (r' : Request Code) :
    RequestAction Code → Option Host
  -- the `setsid` or the `exec` of a child failed: it exits, and `spawn` waits for it
  | .spawnFails _ =>
    match c.pid with
    | some n => (h.call (.exit n)).bind fun h => h.call (.reap n)
    | none => some h
  | _ => h.track i c r'

/-! ## The stages of a request -/

/-- How far a request has come with its child: it has none, it launches one, its
shutdown may still signal it, it does not signal it any more. -/
inductive Stage where
  | early
  | launching
  | signalling
  | finished
  deriving DecidableEq, Repr

def Stage.rank : Stage → Nat
  | early => 0
  | launching => 1
  | signalling => 2
  | finished => 3

def stageOf : Phase Code → Stage
  | .authorize | .checkShutdown | .checkBrowser | .parseLaunch | .acquiring => .early
  | .launching => .launching
  | .starting _ _ | .connecting | .upgrading | .relaying _ => .signalling
  | .aborting shutdown _ | .closing shutdown _ | .detached shutdown =>
    if shutdown.signals then .signalling else .finished
  | .releasing _ | .ended _ => .finished

namespace Session

variable (c : Session Code)

def stage : Stage := stageOf c.request.phase

/-- The child runs the code of the gateway between its fork and its exec. -/
def preExec : Bool := c.stage = .launching && !c.leads

def reaped : Bool := c.request.chromium.any fun p => p.child = .reaped

/-- Its shutdown will still signal the group of its child, or its launch may come to that. -/
def answers : Bool := c.stage = .launching || c.stage = .signalling

/-- Its child is not reaped yet, and it alone can reap it. -/
def held : Bool := c.answers && !c.reaped

/-- Its child is reaped, and the last SIGKILL is still to be sent. -/
def awaitsSweep : Bool := c.stage = .signalling && c.reaped

/-- No other process can make this call: a child is reaped by its parent, the parent
sees it exit, and before its exec it calls nothing but `setsid`. -/
def protects (call : Call Nat) : Bool :=
  c.pid.any fun n => match call with
    | .fork parent _ _ => parent = n && c.preExec
    | .setsid pid | .setpgid pid _ => pid = n && c.preExec
    | .exit pid => pid = n && c.request.chromium.any fun p => p.child = .running
    | .reap pid =>
      pid = n && (c.held || c.request.chromium.any fun p => p.child = .running)

/-- When `spawn` returns: with the child after its exec, or dead before that; with an
error before the fork, or after it. -/
def ready (t : Table Nat) : RequestAction Code → Bool
  | .spawn => c.pid.any fun n => c.leads || (t.live? n).isNone
  | .spawnFails (.tempDir _) => c.pid.isNone
  | _ => true

end Session

/-- Neither the gateway nor a child in the hands of a request makes this call, and the
children of no request but its own launch are labelled with it. -/
def Host.permits (h : Host) (sessions : List (Session Code)) (call : Call Nat) : Bool :=
  (match call with
    | .fork _ _ label => label.isNone
    | .setsid pid | .setpgid pid _ | .exit pid | .reap pid => pid ≠ h.gateway) &&
  sessions.all fun c => !c.protects call

/-! ## The machine -/

/-- One step of request `i`. -/
def sessionStep (limits : Gate.Limits) (codes : Proxy.CloseCodes Code) (h : Host) (i : Nat)
    (c : Session Code) : SessionAction Code → Option (Host × Session Code)
  | .fork n =>
    if c.stage = .launching ∧ c.pid = none ∧ h.app.main.isExited = false then
      (h.call (.fork h.gateway n (some i))).map fun h => (h, { c with pid := some n, leads := false })
    else none
  | .setsid =>
    if c.preExec then
      c.pid.bind fun n => (h.call (.setsid n)).map fun h => (h, { c with leads := true })
    else none
  | .request a =>
    if c.ready h.table a then
      ((Server.program limits codes).act h.app i c.request a).bind fun x =>
        (Host.effect { h with app := x.1 } i c x.2 a).map fun h => (h, { c with request := x.2 })
    else none

def program (limits : Gate.Limits) (codes : Proxy.CloseCodes Code) :
    Program Host (Session Code) (SessionAction Code) HostAction where
  act := sessionStep limits codes
  env h sessions
    | .call call => if h.permits sessions call then h.call call else none
    | .gateway e =>
      ((Server.program limits codes).env h.app (sessions.map Session.request) e).map fun app =>
        { h with app }
  fresh c := c.request.isNew && c.pid.isNone

abbrev State (Code : Type) := Pool.State Host (Session Code)
abbrev Action (Code : Type) := Pool.Action (Session Code) (SessionAction Code) HostAction

/-- The gateway on its host, with any number of requests and of other processes. -/
def machine (limits : Gate.Limits) (codes : Proxy.CloseCodes Code) :
    Machine (State Code) (Action Code) := Pool.machine (program limits codes)

/-- A host on which the gateway runs, and nothing was launched by it. -/
structure Boot where
  table : Table Nat
  gateway : Nat
  gateway_mem : gateway ∈ table.procs.map Proc.pid
  origin_none : ∀ p ∈ table.procs, p.origin = none

def init (limits : Gate.Limits) (boot : Boot) : State Code :=
  { shared := { app := .new limits, table := boot.table, gateway := boot.gateway, delivered := [] }
    procs := [] }

/-! ## Everything one step can do -/

theorem call_inv {h h' : Host} {call : Call Nat} (hcall : h.call call = some h') :
    ∃ t, h.table.step call = some t ∧ h' = { h with table := t } := by
  obtain ⟨t, ht, rfl⟩ := Option.map_eq_some_iff.mp hcall
  exact ⟨t, ht, rfl⟩

/-- Everything one step of a request can do. -/
inductive SessionStep (limits : Gate.Limits) (codes : Proxy.CloseCodes Code) (h : Host) (i : Nat)
    (c : Session Code) : SessionAction Code → Host → Session Code → Prop
  | fork {n t} (hstage : c.stage = .launching) (hpid : c.pid = none)
      (ht : h.table.step (.fork h.gateway n (some i)) = some t) :
      SessionStep limits codes h i c (.fork n) { h with table := t }
        { c with pid := some n, leads := false }
  | setsid {n t} (hpre : c.preExec = true) (hpid : c.pid = some n)
      (ht : h.table.step (.setsid n) = some t) :
      SessionStep limits codes h i c .setsid { h with table := t } { c with leads := true }
  | request {a app r' h'} (hready : c.ready h.table a = true)
      (hreq : (Server.program limits codes).act h.app i c.request a = some (app, r'))
      (heff : Host.effect { h with app } i c r' a = some h') :
      SessionStep limits codes h i c (.request a) h' { c with request := r' }

theorem sessionStep_inv {h h' : Host} {i : Nat} {c c' : Session Code} {b : SessionAction Code}
    (hact : sessionStep limits codes h i c b = some (h', c')) :
    SessionStep limits codes h i c b h' c' := by
  cases b with
  | fork n =>
      obtain ⟨⟨hstage, hpid, -⟩, hact⟩ := Option.ite_none_right_eq_some.mp hact
      obtain ⟨h₁, hcall, heq⟩ := Option.map_eq_some_iff.mp hact
      obtain ⟨rfl, rfl⟩ := Prod.mk.inj heq
      obtain ⟨t, ht, rfl⟩ := call_inv hcall
      exact .fork hstage hpid ht
  | setsid =>
      obtain ⟨hpre, hact⟩ := Option.ite_none_right_eq_some.mp hact
      obtain ⟨n, hpid, hact⟩ := Option.bind_eq_some_iff.mp hact
      obtain ⟨h₁, hcall, heq⟩ := Option.map_eq_some_iff.mp hact
      obtain ⟨rfl, rfl⟩ := Prod.mk.inj heq
      obtain ⟨t, ht, rfl⟩ := call_inv hcall
      exact .setsid hpre hpid ht
  | request a =>
      obtain ⟨hready, hact⟩ := Option.ite_none_right_eq_some.mp hact
      obtain ⟨⟨app, r'⟩, hreq, hact⟩ := Option.bind_eq_some_iff.mp hact
      obtain ⟨h₁, heff, heq⟩ := Option.map_eq_some_iff.mp hact
      obtain ⟨rfl, rfl⟩ := Prod.mk.inj heq
      exact .request hready hreq heff

/-! ## The gateway inside the host -/

theorem call_app {h h' : Host} {call : Call Nat} (hcall : h.call call = some h') :
    h'.app = h.app := by
  obtain ⟨t, -, rfl⟩ := call_inv hcall
  rfl

theorem follow_app {h h' : Host} {i n : Nat} {p p' : Chromium}
    (hf : h.follow i n p p' = some h') : h'.app = h.app := by
  obtain ⟨h₁, hcall, rfl⟩ := Option.map_eq_some_iff.mp hf
  show h₁.app = h.app
  split at hcall
  · rw [Option.some.inj hcall]
  · split at hcall
    · rw [Option.some.inj hcall]
    · exact call_app hcall
    · exact call_app hcall

theorem effect_app {h h' : Host} {i : Nat} {c : Session Code} {r' : Request Code}
    {a : RequestAction Code} (heff : h.effect i c r' a = some h') : h'.app = h.app := by
  unfold Host.effect at heff
  split at heff
  next =>
    split at heff
    next =>
      obtain ⟨h₁, hexit, hreap⟩ := Option.bind_eq_some_iff.mp heff
      exact (call_app hreap).trans (call_app hexit)
    next => rw [Option.some.inj heff]
  next =>
    unfold Host.track at heff
    split at heff
    next => exact follow_app heff
    next => rw [Option.some.inj heff]

/-- The gateway without its host. -/
def gatewayOf (s : State Code) : Server.State Code := s.map Host.app Session.request

/-- What an action is for the gateway, when it notices. -/
def gatewayAction : Action Code → Option (Server.Action Code)
  | .spawn c => some (.spawn c.request)
  | .act i (.request a) => some (.act i a)
  | .env (.gateway e) => some (.env e)
  | _ => none

theorem gateway_step {s s' : State Code} {e : Action Code}
    (h : (machine limits codes).step s e = some s') :
    (Server.machine limits codes).run (gatewayOf s) (gatewayAction e).toList =
      some (gatewayOf s') := by
  cases e with
  | spawn c =>
      obtain ⟨hfresh, rfl⟩ := Pool.step_spawn.mp h
      refine (Machine.run_singleton _).mpr
        (Pool.step_spawn.mpr ⟨(Bool.and_eq_true_iff.mp hfresh).1, ?_⟩)
      simp [gatewayOf, Pool.State.map]
  | act i b =>
      obtain ⟨c, h', c', hc, hact, rfl⟩ := Pool.step_act.mp h
      have hquiet : c'.request = c.request → (s.procs.set i c').map Session.request =
          s.procs.map Session.request := Pool.map_set_of_eq hc
      cases sessionStep_inv hact with
      | fork | setsid => exact congrArg some (congrArg (Pool.State.mk _) (hquiet rfl).symm)
      | @request a app r' h' hready hreq heff =>
          refine (Machine.run_singleton _).mpr (Pool.step_act.mpr ⟨c.request, app, r', ?_, hreq, ?_⟩)
          · simp [gatewayOf, Pool.State.map, hc]
          · simp [gatewayOf, Pool.State.map, effect_app heff]
  | env e =>
      obtain ⟨h', henv, rfl⟩ := Pool.step_env.mp h
      cases e with
      | call call =>
          obtain ⟨-, henv⟩ := Option.ite_none_right_eq_some.mp henv
          exact congrArg some (congrArg (Pool.State.mk · _) (call_app henv).symm)
      | gateway e =>
          obtain ⟨app, happ, rfl⟩ := Option.map_eq_some_iff.mp henv
          exact (Machine.run_singleton _).mpr (Pool.step_env.mpr ⟨app, happ, rfl⟩)

/-- Every run on a host is a run of the gateway, by what its actions are for the gateway. -/
theorem gateway_run {s s' : State Code} {as : List (Action Code)}
    (hrun : (machine limits codes).run s as = some s') :
    (Server.machine limits codes).run (gatewayOf s) (as.filterMap gatewayAction) =
      some (gatewayOf s') := by
  have hstep : ∀ s e s', (machine limits codes).step s e = some s' → True →
      True ∧ ∃ bs, (Server.machine limits codes).run (gatewayOf s) bs = some (gatewayOf s') ∧
        bs.flatMap (fun b => [b]) = (gatewayAction e).toList :=
    fun s e s' h _ => ⟨trivial, _, gateway_step h, List.flatMap_singleton' _⟩
  obtain ⟨bs, hbs, hshown⟩ := Machine.run_shown (I := fun _ => True) hstep hrun trivial
  rw [List.flatMap_singleton'] at hshown
  rw [List.filterMap_eq_flatMap_toList, ← hshown]
  exact hbs

/-! ## What a step of a request does with its Chromium -/

/-- What the kernel has to do with a step that makes `p'` of the Chromium `p`. -/
inductive Moves (stage : Stage) (p p' : Chromium) : Prop
  | still (hc : p'.child = p.child) (hs : p'.groupSignals = p.groupSignals)
  | killpg (signal : Signal) (hstage : stage = .signalling) (hc : p'.child = p.child)
      (hs : p'.groupSignals = p.groupSignals ++ [signal])
  | reaps (hstage : stage = .signalling) (hne : p.child ≠ .running) (hc : p'.child = .reaped)
      (hs : p'.groupSignals = p.groupSignals)
  | exits (hrun : p.child = .running) (hc : p'.child = .exited)
      (hs : p'.groupSignals = p.groupSignals)

theorem startupStep_moves {elapsed : Bool} {p p' : Chromium} {startup startup' : Startup}
    {a : StartupAction} (h : startupStep elapsed p startup a = some (p', startup')) :
    Moves .signalling p p' := by
  rcases startupStep_chromium h with rfl | ⟨hne, rfl⟩
  · exact .still rfl rfl
  · exact .reaps rfl hne rfl rfl

/-- A shutdown signals only before it has removed the directory, and it does not go back. -/
theorem shutdownStep_moves {p p' : Chromium} {shutdown shutdown' : Shutdown}
    {a : ShutdownAction} (h : shutdownStep p shutdown a = some (p', shutdown')) :
    Moves (if shutdown.signals then .signalling else .finished) p p' ∧
      (shutdown'.signals = true → shutdown.signals = true) := by
  unfold shutdownStep at h
  split at h
  next =>
    refine ⟨?_, fun _ => rfl⟩
    split at h
    · obtain ⟨rfl, -⟩ := Prod.mk.inj (Option.some.inj h)
      exact .still rfl rfl
    · split at h
      next =>
        obtain ⟨rfl, -⟩ := Prod.mk.inj (Option.some.inj h)
        exact .killpg .sigterm rfl rfl rfl
      next hne =>
        obtain ⟨rfl, -⟩ := Prod.mk.inj (Option.some.inj h)
        exact .reaps rfl hne rfl rfl
  next =>
    obtain ⟨hne, h⟩ := Option.ite_none_left_eq_some.mp h
    obtain ⟨rfl, -⟩ := Prod.mk.inj (Option.some.inj h)
    exact ⟨.reaps rfl hne rfl rfl, fun _ => rfl⟩
  next =>
    obtain ⟨rfl, -⟩ := Prod.mk.inj (Option.some.inj h)
    exact ⟨.killpg .sigkill rfl rfl rfl, fun _ => rfl⟩
  next =>
    obtain ⟨hne, h⟩ := Option.ite_none_left_eq_some.mp h
    obtain ⟨rfl, -⟩ := Prod.mk.inj (Option.some.inj h)
    exact ⟨.reaps rfl hne rfl rfl, fun _ => rfl⟩
  next =>
    obtain ⟨rfl, -⟩ := Prod.mk.inj (Option.some.inj h)
    exact ⟨.killpg .sigkill rfl rfl rfl, fun _ => rfl⟩
  next =>
    obtain ⟨rfl, rfl⟩ := Prod.mk.inj (Option.some.inj h)
    exact ⟨.still rfl rfl, fun hs => by cases hs⟩
  next => cases h

variable {app app' : AppState} {i : Nat} {r r' : Request Code} {a : RequestAction Code}

/-- The stages follow each other. -/
theorem stage_rank_le (h : RequestStep limits codes app i r a app' r') :
    (stageOf r.phase).rank ≤ (stageOf r'.phase).rank := by
  have finished_le : ∀ stage : Stage, stage.rank ≤ Stage.finished.rank := by
    intro stage
    cases stage <;> decide
  have shutdown_le : ∀ {p p' : Chromium} {shutdown shutdown' : Shutdown} {b : ShutdownAction},
      shutdownStep p shutdown b = some (p', shutdown') →
      (if shutdown.signals then Stage.signalling else .finished).rank ≤
        (if shutdown'.signals then Stage.signalling else .finished).rank := by
    intro p p' shutdown shutdown' b hstep
    cases hs : shutdown'.signals with
    | true => rw [(shutdownStep_moves hstep).2 hs]
    | false => exact finished_le _
  cases h with
  | gate | exits | releaseDetached => exact Nat.le_refl _
  | abort b shutdown error p p' shutdown' hp hc hstep =>
      rw [hp]
      exact shutdown_le hstep
  | close b shutdown reason p p' shutdown' hp hc hstep =>
      rw [hp]
      exact shutdown_le hstep
  | detach b shutdown p p' shutdown' hp hc hstep =>
      rw [hp]
      exact shutdown_le hstep
  | dropSuspended => exact finished_le _
  | _ =>
      simp [‹r.phase = _›, stageOf, Stage.rank, Request.refuse, Request.dropChromium,
        Shutdown.signals]

/-- A step of a request that has a Chromium, for the kernel; only the launch gives it one. -/
theorem chromium_moves (h : RequestStep limits codes app i r a app' r') :
    (r'.chromium = r.chromium) ∨
      (a = .spawn ∧ stageOf r.phase = .launching ∧ stageOf r'.phase = .signalling ∧
        r'.chromium = some .spawned) ∨
      ∃ p p', r.chromium = some p ∧ r'.chromium = some p' ∧ Moves (stageOf r.phase) p p' := by
  cases h with
  | spawn hp => exact Or.inr (Or.inl ⟨rfl, by rw [hp]; rfl, rfl, rfl⟩)
  | startup b startup elapsed p p' startup' hp hc hstep =>
      refine Or.inr (Or.inr ⟨p, p', hc, rfl, ?_⟩)
      rw [hp]
      exact startupStep_moves hstep
  | abort b shutdown error p p' shutdown' hp hc hstep =>
      refine Or.inr (Or.inr ⟨p, p', hc, rfl, ?_⟩)
      rw [hp]
      exact (shutdownStep_moves hstep).1
  | close b shutdown reason p p' shutdown' hp hc hstep =>
      refine Or.inr (Or.inr ⟨p, p', hc, rfl, ?_⟩)
      rw [hp]
      exact (shutdownStep_moves hstep).1
  | detach b shutdown p p' shutdown' hp hc hstep =>
      refine Or.inr (Or.inr ⟨p, p', hc, rfl, ?_⟩)
      rw [hp]
      exact (shutdownStep_moves hstep).1
  | upgradeFails | dropSuspended =>
      cases hc : r.chromium with
      | none => exact Or.inl (by simp [Request.dropChromium, hc])
      | some p =>
          exact Or.inr (Or.inr ⟨p, p.dropped, rfl, by simp [Request.dropChromium, hc],
            .still rfl rfl⟩)
  | exits p p' hc hstep =>
      refine Or.inr (Or.inr ⟨p, p', hc, rfl, ?_⟩)
      obtain ⟨hrun, hs⟩ := Option.ite_none_right_eq_some.mp hstep
      obtain rfl := Option.some.inj hs
      exact .exits hrun rfl rfl
  | _ => exact Or.inl rfl

end Signals

end Pinokio
