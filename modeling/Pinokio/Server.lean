/-
# Pinokio.Server -- requests, sessions and the shutdown of the gateway

`ws_handler` (`server.rs`) from its first check to the upgrade, `session::run`
(`session.rs`) from there to the release of the permit, and the shutdown sequence
of `main` (`main.rs`), as one pool: a process is a request with the call of
`Gate::acquire` it makes and the Chromium it spawns, and later the session it has
become; the environment is `main` with its timers, its signals and the task that
prepares the browser.

A request moves from one suspension point to the next. Where it is suspended its
future can be dropped, because its client disconnected; `drop` is then what the
destructors of its locals do, in their order: first the Chromium, then the permit.
-/
import Pinokio.Chromium.Lifecycle
import Pinokio.Proxy
import Pinokio.Queue

namespace Pinokio.Server

open Proxy (CloseCodes CloseReason)

/-! ## The shared state -/

/-- Where `main` is: serving, in axum's graceful shutdown, waiting for the tracked
sessions, or back with an exit code. -/
inductive Main where
  | serving
  | stopping
  | draining
  | exited (success : Bool)
  deriving DecidableEq, Repr

def Main.accepts : Main → Bool
  | serving | stopping => true
  | _ => false

def Main.isExited : Main → Bool
  | exited _ => true
  | _ => false

/-- `AppState`, as far as it changes, and where `main` is. The token `shutdown` is
the one that the gate listens to. -/
structure AppState where
  gate : Gate.Shared
  browser : Bool
  startupFailed : Bool
  sessionCancel : Bool
  main : Main

def AppState.new (limits : Gate.Limits) : AppState :=
  { gate := .new limits, browser := false, startupFailed := false, sessionCancel := false,
    main := .serving }

/-- `state.shutdown.is_cancelled()`. -/
def AppState.shutdown (s : AppState) : Bool := s.gate.cancelled

/-! ## A request -/

/-- How a request, or the session it has become, is over. -/
inductive Ending where
  | refused (error : GatewayError)
  | closed (reason : CloseReason)
  | dropped
  | upgradeFailed
  | panicked
  deriving DecidableEq, Repr

/-- Where a request is. Up to `connecting` it is in `ws_handler`; in `upgrading` its
Chromium and its permit are owned by the callback of the upgrade; `relaying` and
`closing` are `session::run`. In `releasing` nothing but the permit is left to drop,
and in `detached` a task spawned by the `ChromiumGuard` has the Chromium. -/
inductive Phase (Code : Type) where
  | authorize
  | checkShutdown
  | checkBrowser
  | parseLaunch
  | acquiring
  | launching
  | starting (startup : Startup) (elapsed : Bool)
  | aborting (shutdown : Shutdown) (error : GatewayError)
  | connecting
  | upgrading
  | relaying (relay : Proxy.State Code)
  | closing (shutdown : Shutdown) (reason : CloseReason)
  | detached (shutdown : Shutdown)
  | releasing (ending : Ending)
  | ended (ending : Ending)

/-- A request. `authorized` and `launchOptions` are what `auth::is_authorized` and
the validation of the `launch` parameter say of it, which depends on the request
and on the configuration alone. -/
structure Request (Code : Type) where
  authorized : Bool
  launchOptions : Except String Unit
  call : Gate.Call
  chromium : Option Chromium
  phase : Phase Code

variable {Code : Type}

/-- A request that its handler has not been polled for yet. -/
def Request.new (authorized : Bool) (launchOptions : Except String Unit) : Request Code :=
  { authorized, launchOptions, call := .idle, chromium := none, phase := .authorize }

def Request.isNew (r : Request Code) : Bool :=
  match r.phase, r.call, r.chromium with
  | .authorize, .idle, none => true
  | _, _, _ => false

theorem isNew_call {r : Request Code} (h : r.isNew = true) : r.call = .idle := by
  unfold Request.isNew at h
  split at h
  next _ hcall _ => exact hcall
  next => cases h

theorem isNew_phase {r : Request Code} (h : r.isNew = true) : r.phase = .authorize := by
  unfold Request.isNew at h
  split at h
  next hphase _ _ => exact hphase
  next => cases h

theorem isNew_chromium {r : Request Code} (h : r.isNew = true) : r.chromium = none := by
  unfold Request.isNew at h
  split at h
  next _ _ hc => exact hc
  next => cases h

/-- The response, or its absence, is still to come from `ws_handler`. -/
def Phase.inHandler : Phase Code → Bool
  | checkShutdown | checkBrowser | parseLaunch | acquiring | launching | starting _ _
  | aborting _ _ | connecting | releasing (.refused _) => true
  | _ => false

/-- The future of `ws_handler` is suspended and owns a Chromium. -/
def Phase.suspended : Phase Code → Bool
  | starting startup _ => startup.suspended
  | aborting shutdown _ => shutdown.suspended
  | connecting => true
  | _ => false

/-- The future of `session::run` is tracked by `state.sessions`. -/
def Phase.tracked : Phase Code → Bool
  | relaying _ | closing _ _ | releasing (.closed _) => true
  | _ => false

/-- Why no Chromium was spawned. -/
inductive LaunchError where
  | tempDir (error : String)
  | spawn (error : String)
  deriving DecidableEq, Repr

def LaunchError.toGatewayError : LaunchError → GatewayError
  | tempDir error => .chromiumUnavailable s!"temp dir creation failed: {error}"
  | spawn error => .chromiumUnavailable s!"spawn failed: {error}"

inductive RequestAction (Code : Type) where
  /-- The next of the checks at the head of `ws_handler`. -/
  | check
  /-- A step of `Gate::acquire`, or its future is dropped. -/
  | gate (a : Gate.CallAction)
  /-- Goes on after a call that is over. -/
  | resume
  | spawn
  | spawnFails (error : LaunchError)
  | startup (a : StartupAction)
  /-- `chrome_startup_timeout` elapses. -/
  | startupElapses
  | connect
  | connectFails (error : String)
  /-- The upgrade completes, on sockets with these capacities, and the callback runs. -/
  | upgrade (clientCapacity upstreamCapacity : Nat)
  /-- The upgrade fails: the callback is dropped uncalled. -/
  | upgradeFails
  | relay (a : Proxy.Action Code)
  /-- A panic unwinds `session::run` out of the relay. -/
  | panic
  | shutdown (a : ShutdownAction)
  /-- The Chromium exits. -/
  | exits
  /-- The client disconnected: the future of `ws_handler` is dropped. -/
  | drop
  | dropPermit

def Request.refuse (r : Request Code) (error : GatewayError) : Request Code :=
  { r with phase := .ended (.refused error) }

/-- `drop` of everything but the permit, with a Chromium among the locals. -/
def Request.dropChromium (r : Request Code) (ending : Ending) : Request Code :=
  { r with chromium := r.chromium.map Chromium.dropped, phase := .releasing ending }

/-- A step of the shutdown of the Chromium of this request. -/
def Request.shutdownStep (r : Request Code) (shutdown : Shutdown) (a : ShutdownAction)
    (phase : Shutdown → Phase Code) : Option (Request Code) :=
  r.chromium.bind fun p => (Pinokio.shutdownStep p shutdown a).map fun x =>
    { r with chromium := some x.1, phase := phase x.2 }

/-- The next synchronous check of `ws_handler`. -/
def checkStep (s : AppState) (r : Request Code) : Option (Request Code) :=
  match r.phase with
  | .authorize =>
    -- the handler runs on a connection that axum still accepts
    if s.main.accepts then
      some (if r.authorized then { r with phase := .checkShutdown } else r.refuse .unauthorized)
    else none
  | .checkShutdown =>
    some (if s.shutdown then r.refuse .shuttingDown else { r with phase := .checkBrowser })
  | .checkBrowser =>
    some (if s.browser then { r with phase := .parseLaunch } else r.refuse .browserInstalling)
  | .parseLaunch =>
    some (match r.launchOptions with
      | .ok _ => { r with phase := .acquiring }
      | .error reason => r.refuse (.invalidLaunchOptions reason))
  | _ => none

/-- What follows an awaited call that is over. -/
def resumeStep (r : Request Code) : Option (Request Code) :=
  match r.phase with
  | .acquiring =>
    match r.call with
    | .holding => some { r with phase := .launching }
    | .returned error => some (r.refuse error)
    | .dropped => some { r with phase := .ended .dropped }
    | _ => none
  | .starting .ready _ => some { r with phase := .connecting }
  | .starting (.failed error) _ => some { r with phase := .aborting .tryWait error }
  -- the failed start is reported once its Chromium is shut down
  | .aborting .finished error => some { r with phase := .releasing (.refused error) }
  | .relaying relay =>
    match relay.phase with
    | .done reason => some { r with phase := .closing .tryWait reason }
    | _ => none
  | .closing .finished reason => some { r with phase := .releasing (.closed reason) }
  -- the detached teardown and the unwinding session end in either order
  | .detached .finished =>
    if r.call = .released then some { r with phase := .ended .panicked } else none
  | _ => none

/-- The future of `ws_handler` is dropped while it is suspended. In the gate this
is a step of the gate. -/
def dropStep (r : Request Code) : Option (Request Code) :=
  match r.phase with
  | .authorize => some { r with phase := .ended .dropped }
  | phase => if phase.suspended then some (r.dropChromium .dropped) else none

/-- One step of request `i`. -/
def requestStep (limits : Gate.Limits) (codes : CloseCodes Code) (s : AppState) (i : Nat)
    (r : Request Code) (a : RequestAction Code) : Option (AppState × Request Code) :=
  match r.phase, a with
  | _, .check => (checkStep s r).map (s, ·)
  | _, .resume => (resumeStep r).map (s, ·)
  | _, .drop => (dropStep r).map (s, ·)
  | .acquiring, .gate a =>
    if a = .dropPermit then none
    else (Gate.callStep limits s.gate i r.call a).map fun x =>
      ({ s with gate := x.1 }, { r with call := x.2 })
  | .launching, .spawn =>
    some (s, { r with chromium := some .spawned, phase := .starting .tryWait false })
  | .launching, .spawnFails error =>
    some (s, { r with phase := .releasing (.refused error.toGatewayError) })
  | .starting startup elapsed, .startup a =>
    r.chromium.bind fun p => (startupStep elapsed p startup a).map fun x =>
      (s, { r with chromium := some x.1, phase := .starting x.2 elapsed })
  | .starting startup _, .startupElapses => some (s, { r with phase := .starting startup true })
  | .connecting, .connect => some (s, { r with phase := .upgrading })
  | .connecting, .connectFails error =>
    some (s, { r with
      phase := .aborting .tryWait (.chromiumUnavailable s!"CDP connect failed: {error}") })
  | .upgrading, .upgrade clientCapacity upstreamCapacity =>
    some (s, { r with phase := .relaying (Proxy.init clientCapacity upstreamCapacity) })
  -- the callback owns the Chromium and the permit, and both go with it
  | .upgrading, .upgradeFails => some (s, r.dropChromium .upgradeFailed)
  | .relaying relay, .relay a =>
    -- the only cancellation a session listens to is `session_cancel`
    if a.isCancel && !s.sessionCancel then none
    else (Proxy.step codes relay a).map fun relay => (s, { r with phase := .relaying relay })
  -- unwinding drops the guard, whose task shuts the Chromium down
  | .relaying _, .panic => some (s, { r with phase := .detached .tryWait })
  | .aborting shutdown error, .shutdown a =>
    (r.shutdownStep shutdown a fun shutdown => .aborting shutdown error).map (s, ·)
  | .closing shutdown reason, .shutdown a =>
    (r.shutdownStep shutdown a fun shutdown => .closing shutdown reason).map (s, ·)
  | .detached shutdown, .shutdown a => (r.shutdownStep shutdown a .detached).map (s, ·)
  | .releasing ending, .dropPermit =>
    (Gate.callStep limits s.gate i r.call .dropPermit).map fun x =>
      ({ s with gate := x.1 }, { r with call := x.2, phase := .ended ending })
  | .detached _, .dropPermit =>
    (Gate.callStep limits s.gate i r.call .dropPermit).map fun x =>
      ({ s with gate := x.1 }, { r with call := x.2 })
  | _, .exits =>
    r.chromium.bind fun p => p.exits.map fun p => (s, { r with chromium := some p })
  | _, _ => none

/-! ## The gateway -/

/-- What happens around the requests. -/
inductive EnvAction where
  /-- `prepare_browser` records the browser. -/
  | browserReady
  /-- `prepare_browser` fails and requests the shutdown. -/
  | browserFails
  /-- SIGTERM, SIGINT or the requested shutdown is noticed. The handlers could be installed:
  where SIGTERM's could not, `main` stops serving at once, which is left out here. -/
  | signal
  /-- The grace period elapses. -/
  | graceElapses
  /-- axum has no connection left to serve. -/
  | served
  | serveFails
  /-- The tracker is closed and has no tracked future. -/
  | drained
  | drainElapses
  deriving DecidableEq, Repr

def envStep (s : AppState) (requests : List (Request Code)) : EnvAction → Option AppState
  | .browserReady => if s.startupFailed then none else some { s with browser := true }
  | .browserFails =>
    if s.browser then none
    else some { s with startupFailed := true, gate := { s.gate with cancelled := true } }
  | .signal =>
    if s.main = .serving then
      some { s with main := .stopping, gate := { s.gate with cancelled := true } }
    else none
  -- the grace timer runs beside both waits
  | .graceElapses =>
    match s.main with
    | .stopping | .draining => some { s with sessionCancel := true }
    | _ => none
  | .served =>
    -- `serve` waits for its connections, not for the sessions that left it by the upgrade
    if s.main = .stopping ∧ ∀ r ∈ requests, r.phase.inHandler = false then
      some { s with main := .draining }
    else none
  | .serveFails => if s.main.accepts then some { s with main := .exited false } else none
  | .drained =>
    if s.main = .draining ∧ ∀ r ∈ requests, r.phase.tracked = false then
      some { s with main := .exited !s.startupFailed }
    else none
  | .drainElapses => if s.main = .draining then some { s with main := .exited false } else none

/-- With `main` the process ends, and nothing in it runs any more. -/
def program (limits : Gate.Limits) (codes : CloseCodes Code) :
    Program AppState (Request Code) (RequestAction Code) EnvAction where
  act s i r a := if s.main.isExited then none else requestStep limits codes s i r a
  env s requests e := if s.main.isExited then none else envStep s requests e
  fresh r := r.isNew

abbrev State (Code : Type) := Pool.State AppState (Request Code)
abbrev Action (Code : Type) := Pool.Action (Request Code) (RequestAction Code) EnvAction

/-- The gateway with any number of requests. -/
def machine (limits : Gate.Limits) (codes : CloseCodes Code) :
    Machine (State Code) (Action Code) := Pool.machine (program limits codes)

def init (limits : Gate.Limits) : State Code := { shared := .new limits, procs := [] }

/-! ## Everything one step can do -/

variable {limits : Gate.Limits} {codes : CloseCodes Code}

/-- Everything one step of a request can do. -/
inductive RequestStep (limits : Gate.Limits) (codes : CloseCodes Code) (s : AppState) (i : Nat)
    (r : Request Code) : RequestAction Code → AppState → Request Code → Prop
  | authorized (hp : r.phase = .authorize) (hm : s.main.accepts = true)
      (hauth : r.authorized = true) :
      RequestStep limits codes s i r .check s { r with phase := .checkShutdown }
  | unauthorized (hp : r.phase = .authorize) (hm : s.main.accepts = true)
      (hauth : r.authorized = false) :
      RequestStep limits codes s i r .check s (r.refuse .unauthorized)
  | notShutdown (hp : r.phase = .checkShutdown) (hs : s.shutdown = false) :
      RequestStep limits codes s i r .check s { r with phase := .checkBrowser }
  | shuttingDown (hp : r.phase = .checkShutdown) (hs : s.shutdown = true) :
      RequestStep limits codes s i r .check s (r.refuse .shuttingDown)
  | browser (hp : r.phase = .checkBrowser) (hb : s.browser = true) :
      RequestStep limits codes s i r .check s { r with phase := .parseLaunch }
  | browserInstalling (hp : r.phase = .checkBrowser) (hb : s.browser = false) :
      RequestStep limits codes s i r .check s (r.refuse .browserInstalling)
  | launchOptions (hp : r.phase = .parseLaunch) (hl : r.launchOptions = .ok ()) :
      RequestStep limits codes s i r .check s { r with phase := .acquiring }
  | invalidLaunchOptions (reason) (hp : r.phase = .parseLaunch)
      (hl : r.launchOptions = .error reason) :
      RequestStep limits codes s i r .check s (r.refuse (.invalidLaunchOptions reason))
  | gate (a g c) (hp : r.phase = .acquiring) (hne : a ≠ .dropPermit)
      (h : Gate.callStep limits s.gate i r.call a = some (g, c)) :
      RequestStep limits codes s i r (.gate a) { s with gate := g } { r with call := c }
  | admitted (hp : r.phase = .acquiring) (hc : r.call = .holding) :
      RequestStep limits codes s i r .resume s { r with phase := .launching }
  | refused (error) (hp : r.phase = .acquiring) (hc : r.call = .returned error) :
      RequestStep limits codes s i r .resume s (r.refuse error)
  | dropped (hp : r.phase = .acquiring) (hc : r.call = .dropped) :
      RequestStep limits codes s i r .resume s { r with phase := .ended .dropped }
  | spawn (hp : r.phase = .launching) :
      RequestStep limits codes s i r .spawn s
        { r with chromium := some .spawned, phase := .starting .tryWait false }
  | spawnFails (error : LaunchError) (hp : r.phase = .launching) :
      RequestStep limits codes s i r (.spawnFails error) s
        { r with phase := .releasing (.refused error.toGatewayError) }
  | startup (a startup elapsed p p' startup') (hp : r.phase = .starting startup elapsed)
      (hc : r.chromium = some p) (h : startupStep elapsed p startup a = some (p', startup')) :
      RequestStep limits codes s i r (.startup a) s
        { r with chromium := some p', phase := .starting startup' elapsed }
  | startupElapses (startup elapsed) (hp : r.phase = .starting startup elapsed) :
      RequestStep limits codes s i r .startupElapses s { r with phase := .starting startup true }
  | started (elapsed) (hp : r.phase = .starting .ready elapsed) :
      RequestStep limits codes s i r .resume s { r with phase := .connecting }
  | startFailed (error elapsed) (hp : r.phase = .starting (.failed error) elapsed) :
      RequestStep limits codes s i r .resume s { r with phase := .aborting .tryWait error }
  | connect (hp : r.phase = .connecting) :
      RequestStep limits codes s i r .connect s { r with phase := .upgrading }
  | connectFails (error) (hp : r.phase = .connecting) :
      RequestStep limits codes s i r (.connectFails error) s
        { r with
          phase := .aborting .tryWait (.chromiumUnavailable s!"CDP connect failed: {error}") }
  | abort (a shutdown error p p' shutdown') (hp : r.phase = .aborting shutdown error)
      (hc : r.chromium = some p) (h : shutdownStep p shutdown a = some (p', shutdown')) :
      RequestStep limits codes s i r (.shutdown a) s
        { r with chromium := some p', phase := .aborting shutdown' error }
  | aborted (error) (hp : r.phase = .aborting .finished error) :
      RequestStep limits codes s i r .resume s { r with phase := .releasing (.refused error) }
  | upgrade (clientCapacity upstreamCapacity) (hp : r.phase = .upgrading) :
      RequestStep limits codes s i r (.upgrade clientCapacity upstreamCapacity) s
        { r with phase := .relaying (Proxy.init clientCapacity upstreamCapacity) }
  | upgradeFails (hp : r.phase = .upgrading) :
      RequestStep limits codes s i r .upgradeFails s (r.dropChromium .upgradeFailed)
  | relay (a relay relay') (hp : r.phase = .relaying relay)
      (hcancel : a.isCancel = true → s.sessionCancel = true)
      (h : Proxy.step codes relay a = some relay') :
      RequestStep limits codes s i r (.relay a) s { r with phase := .relaying relay' }
  | relayed (relay reason) (hp : r.phase = .relaying relay) (hr : relay.phase = .done reason) :
      RequestStep limits codes s i r .resume s { r with phase := .closing .tryWait reason }
  | panic (relay) (hp : r.phase = .relaying relay) :
      RequestStep limits codes s i r .panic s { r with phase := .detached .tryWait }
  | close (a shutdown reason p p' shutdown') (hp : r.phase = .closing shutdown reason)
      (hc : r.chromium = some p) (h : shutdownStep p shutdown a = some (p', shutdown')) :
      RequestStep limits codes s i r (.shutdown a) s
        { r with chromium := some p', phase := .closing shutdown' reason }
  | closed (reason) (hp : r.phase = .closing .finished reason) :
      RequestStep limits codes s i r .resume s { r with phase := .releasing (.closed reason) }
  | detach (a shutdown p p' shutdown') (hp : r.phase = .detached shutdown)
      (hc : r.chromium = some p) (h : shutdownStep p shutdown a = some (p', shutdown')) :
      RequestStep limits codes s i r (.shutdown a) s
        { r with chromium := some p', phase := .detached shutdown' }
  | detached (hp : r.phase = .detached .finished) (hc : r.call = .released) :
      RequestStep limits codes s i r .resume s { r with phase := .ended .panicked }
  | dropNew (hp : r.phase = .authorize) :
      RequestStep limits codes s i r .drop s { r with phase := .ended .dropped }
  | dropSuspended (hs : r.phase.suspended = true) :
      RequestStep limits codes s i r .drop s (r.dropChromium .dropped)
  | release (ending g c) (hp : r.phase = .releasing ending)
      (h : Gate.callStep limits s.gate i r.call .dropPermit = some (g, c)) :
      RequestStep limits codes s i r .dropPermit { s with gate := g }
        { r with call := c, phase := .ended ending }
  | releaseDetached (shutdown g c) (hp : r.phase = .detached shutdown)
      (h : Gate.callStep limits s.gate i r.call .dropPermit = some (g, c)) :
      RequestStep limits codes s i r .dropPermit { s with gate := g } { r with call := c }
  | exits (p p') (hc : r.chromium = some p) (h : p.exits = some p') :
      RequestStep limits codes s i r .exits s { r with chromium := some p' }

theorem shutdownStep_inv {r r' : Request Code} {shutdown : Shutdown} {a : ShutdownAction}
    {phase : Shutdown → Phase Code} (h : r.shutdownStep shutdown a phase = some r') :
    ∃ p p' shutdown', r.chromium = some p ∧
      Pinokio.shutdownStep p shutdown a = some (p', shutdown') ∧
      r' = { r with chromium := some p', phase := phase shutdown' } := by
  obtain ⟨p, hc, hp⟩ := Option.bind_eq_some_iff.mp h
  obtain ⟨⟨p', shutdown'⟩, hstep, rfl⟩ := Option.map_eq_some_iff.mp hp
  exact ⟨p, p', shutdown', hc, hstep, rfl⟩

theorem checkStep_inv {s : AppState} {i : Nat} {r r' : Request Code}
    (h : checkStep s r = some r') : RequestStep limits codes s i r .check s r' := by
  unfold checkStep at h
  split at h
  next hp =>
    obtain ⟨hm, h⟩ := Option.ite_none_right_eq_some.mp h
    obtain rfl := Option.some.inj h
    cases hauth : r.authorized with
    | true => simpa [hauth] using RequestStep.authorized hp hm hauth
    | false => simpa [hauth] using RequestStep.unauthorized hp hm hauth
  next hp =>
    obtain rfl := Option.some.inj h
    cases hs : s.shutdown with
    | true => simpa using RequestStep.shuttingDown hp hs
    | false => simpa using RequestStep.notShutdown hp hs
  next hp =>
    obtain rfl := Option.some.inj h
    cases hb : s.browser with
    | true => simpa using RequestStep.browser hp hb
    | false => simpa using RequestStep.browserInstalling hp hb
  next hp =>
    obtain rfl := Option.some.inj h
    split
    next hl => exact .launchOptions hp hl
    next reason hl => exact .invalidLaunchOptions reason hp hl
  next => cases h

theorem resumeStep_inv {s : AppState} {i : Nat} {r r' : Request Code}
    (h : resumeStep r = some r') : RequestStep limits codes s i r .resume s r' := by
  unfold resumeStep at h
  split at h
  next hp =>
    split at h
    next hc =>
      obtain rfl := Option.some.inj h
      exact .admitted hp hc
    next error hc =>
      obtain rfl := Option.some.inj h
      exact .refused error hp hc
    next hc =>
      obtain rfl := Option.some.inj h
      exact .dropped hp hc
    next => cases h
  next elapsed hp =>
    obtain rfl := Option.some.inj h
    exact .started elapsed hp
  next error elapsed hp =>
    obtain rfl := Option.some.inj h
    exact .startFailed error elapsed hp
  next error hp =>
    obtain rfl := Option.some.inj h
    exact .aborted error hp
  next relay hp =>
    split at h
    next reason hr =>
      obtain rfl := Option.some.inj h
      exact .relayed relay reason hp hr
    next => cases h
  next reason hp =>
    obtain rfl := Option.some.inj h
    exact .closed reason hp
  next hp =>
    obtain ⟨hc, h⟩ := Option.ite_none_right_eq_some.mp h
    obtain rfl := Option.some.inj h
    exact .detached hp hc
  next => cases h

theorem dropStep_inv {s : AppState} {i : Nat} {r r' : Request Code}
    (h : dropStep r = some r') : RequestStep limits codes s i r .drop s r' := by
  unfold dropStep at h
  split at h
  next hp =>
    obtain rfl := Option.some.inj h
    exact .dropNew hp
  next =>
    obtain ⟨hs, h⟩ := Option.ite_none_right_eq_some.mp h
    obtain rfl := Option.some.inj h
    exact .dropSuspended hs

theorem requestStep_inv {s s' : AppState} {i : Nat} {r r' : Request Code}
    {a : RequestAction Code} (h : requestStep limits codes s i r a = some (s', r')) :
    RequestStep limits codes s i r a s' r' := by
  unfold requestStep at h
  split at h
  case h_1 =>
    obtain ⟨t, ht, heq⟩ := Option.map_eq_some_iff.mp h
    obtain ⟨rfl, rfl⟩ := Prod.mk.inj heq
    exact checkStep_inv ht
  case h_2 =>
    obtain ⟨t, ht, heq⟩ := Option.map_eq_some_iff.mp h
    obtain ⟨rfl, rfl⟩ := Prod.mk.inj heq
    exact resumeStep_inv ht
  case h_3 =>
    obtain ⟨t, ht, heq⟩ := Option.map_eq_some_iff.mp h
    obtain ⟨rfl, rfl⟩ := Prod.mk.inj heq
    exact dropStep_inv ht
  case h_4 a hp =>
    obtain ⟨hne, h⟩ := Option.ite_none_left_eq_some.mp h
    obtain ⟨⟨g, c⟩, hx, heq⟩ := Option.map_eq_some_iff.mp h
    obtain ⟨rfl, rfl⟩ := Prod.mk.inj heq
    exact .gate a g c hp hne hx
  case h_5 hp =>
    obtain ⟨rfl, rfl⟩ := Prod.mk.inj (Option.some.inj h)
    exact .spawn hp
  case h_6 error hp =>
    obtain ⟨rfl, rfl⟩ := Prod.mk.inj (Option.some.inj h)
    exact .spawnFails error hp
  case h_7 startup elapsed a hp =>
    obtain ⟨p, hc, hmap⟩ := Option.bind_eq_some_iff.mp h
    obtain ⟨⟨p', startup'⟩, hx, heq⟩ := Option.map_eq_some_iff.mp hmap
    obtain ⟨rfl, rfl⟩ := Prod.mk.inj heq
    exact .startup a startup elapsed p p' startup' hp hc hx
  case h_8 startup elapsed hp =>
    obtain ⟨rfl, rfl⟩ := Prod.mk.inj (Option.some.inj h)
    exact .startupElapses startup elapsed hp
  case h_9 hp =>
    obtain ⟨rfl, rfl⟩ := Prod.mk.inj (Option.some.inj h)
    exact .connect hp
  case h_10 error hp =>
    obtain ⟨rfl, rfl⟩ := Prod.mk.inj (Option.some.inj h)
    exact .connectFails error hp
  case h_11 clientCapacity upstreamCapacity hp =>
    obtain ⟨rfl, rfl⟩ := Prod.mk.inj (Option.some.inj h)
    exact .upgrade clientCapacity upstreamCapacity hp
  case h_12 hp =>
    obtain ⟨rfl, rfl⟩ := Prod.mk.inj (Option.some.inj h)
    exact .upgradeFails hp
  case h_13 relay a hp =>
    obtain ⟨hcancel, h⟩ := Option.ite_none_left_eq_some.mp h
    obtain ⟨relay', hx, heq⟩ := Option.map_eq_some_iff.mp h
    obtain ⟨rfl, rfl⟩ := Prod.mk.inj heq
    exact .relay a relay relay' hp (fun ha => by simpa [ha] using hcancel) hx
  case h_14 relay hp =>
    obtain ⟨rfl, rfl⟩ := Prod.mk.inj (Option.some.inj h)
    exact .panic relay hp
  case h_15 shutdown error a hp =>
    obtain ⟨t, ht, heq⟩ := Option.map_eq_some_iff.mp h
    obtain ⟨rfl, rfl⟩ := Prod.mk.inj heq
    obtain ⟨p, p', shutdown', hc, hx, rfl⟩ := shutdownStep_inv ht
    exact .abort a shutdown error p p' shutdown' hp hc hx
  case h_16 shutdown reason a hp =>
    obtain ⟨t, ht, heq⟩ := Option.map_eq_some_iff.mp h
    obtain ⟨rfl, rfl⟩ := Prod.mk.inj heq
    obtain ⟨p, p', shutdown', hc, hx, rfl⟩ := shutdownStep_inv ht
    exact .close a shutdown reason p p' shutdown' hp hc hx
  case h_17 shutdown a hp =>
    obtain ⟨t, ht, heq⟩ := Option.map_eq_some_iff.mp h
    obtain ⟨rfl, rfl⟩ := Prod.mk.inj heq
    obtain ⟨p, p', shutdown', hc, hx, rfl⟩ := shutdownStep_inv ht
    exact .detach a shutdown p p' shutdown' hp hc hx
  case h_18 ending hp =>
    obtain ⟨⟨g, c⟩, hx, heq⟩ := Option.map_eq_some_iff.mp h
    obtain ⟨rfl, rfl⟩ := Prod.mk.inj heq
    exact .release ending g c hp hx
  case h_19 shutdown hp =>
    obtain ⟨⟨g, c⟩, hx, heq⟩ := Option.map_eq_some_iff.mp h
    obtain ⟨rfl, rfl⟩ := Prod.mk.inj heq
    exact .releaseDetached shutdown g c hp hx
  case h_20 =>
    obtain ⟨p, hc, hmap⟩ := Option.bind_eq_some_iff.mp h
    obtain ⟨p', hx, heq⟩ := Option.map_eq_some_iff.mp hmap
    obtain ⟨rfl, rfl⟩ := Prod.mk.inj heq
    exact .exits p p' hc hx
  case h_21 => cases h

theorem act_inv {s s' : AppState} {i : Nat} {r r' : Request Code} {a : RequestAction Code}
    (h : (program limits codes).act s i r a = some (s', r')) :
    s.main.isExited = false ∧ RequestStep limits codes s i r a s' r' := by
  obtain ⟨hm, h⟩ := Option.ite_none_left_eq_some.mp h
  exact ⟨by simpa using hm, requestStep_inv h⟩

/-- What the environment does to the gate: nothing, or it cancels the token. -/
theorem env_gate {s s' : AppState} {requests : List (Request Code)} {e : EnvAction}
    (h : (program limits codes).env s requests e = some s') :
    s'.gate = s.gate ∨ s'.gate = { s.gate with cancelled := true } := by
  obtain ⟨-, h⟩ := Option.ite_none_left_eq_some.mp h
  cases e with
  | browserReady =>
      obtain ⟨-, h⟩ := Option.ite_none_left_eq_some.mp h
      obtain rfl := Option.some.inj h
      exact Or.inl rfl
  | browserFails =>
      obtain ⟨-, h⟩ := Option.ite_none_left_eq_some.mp h
      obtain rfl := Option.some.inj h
      exact Or.inr rfl
  | signal =>
      obtain ⟨-, h⟩ := Option.ite_none_right_eq_some.mp h
      obtain rfl := Option.some.inj h
      exact Or.inr rfl
  | graceElapses =>
      simp only [envStep] at h
      split at h
      next =>
        obtain rfl := Option.some.inj h
        exact Or.inl rfl
      next =>
        obtain rfl := Option.some.inj h
        exact Or.inl rfl
      next => cases h
  | served | drained =>
      obtain ⟨-, h⟩ := Option.ite_none_right_eq_some.mp h
      obtain rfl := Option.some.inj h
      exact Or.inl rfl
  | serveFails | drainElapses =>
      obtain ⟨-, h⟩ := Option.ite_none_right_eq_some.mp h
      obtain rfl := Option.some.inj h
      exact Or.inl rfl

/-- A request can be dropped in its startup, in the teardown after a failure and in its
connect. -/
theorem Phase.suspended_cases {phase : Phase Code} (h : phase.suspended = true) :
    (∃ startup elapsed, phase = .starting startup elapsed) ∨
      (∃ shutdown error, phase = .aborting shutdown error) ∨ phase = .connecting := by
  cases phase with
  | starting startup elapsed => exact Or.inl ⟨startup, elapsed, rfl⟩
  | aborting shutdown error => exact Or.inr (Or.inl ⟨shutdown, error, rfl⟩)
  | connecting => exact Or.inr (Or.inr rfl)
  | _ => cases h

/-- A step of a request changes nothing of the shared state but the gate, which it
changes by a step of its own call. -/
theorem RequestStep.call_cases {s s' : AppState} {i : Nat} {r r' : Request Code}
    {a : RequestAction Code} (h : RequestStep limits codes s i r a s' r') :
    (s' = s ∧ r'.call = r.call) ∨
      ∃ b, Gate.callStep limits s.gate i r.call b = some (s'.gate, r'.call) ∧
        s' = { s with gate := s'.gate } := by
  cases h with
  | gate a g c hp hne h => exact Or.inr ⟨a, h, rfl⟩
  | release ending g c hp h => exact Or.inr ⟨.dropPermit, h, rfl⟩
  | releaseDetached shutdown g c hp h => exact Or.inr ⟨.dropPermit, h, rfl⟩
  | _ => exact Or.inl ⟨rfl, rfl⟩

/-! ## The gate inside the gateway -/

/-- What the gate sees of the gateway. -/
def gateOf (s : State Code) : Gate.State := s.map AppState.gate Request.call

/-- Every run of the gateway is, seen from the gate, a run of the gate. -/
theorem gateway_simulates_gate :
    Machine.Simulates (machine limits codes) (Gate.machine limits) (fun _ => True) gateOf := by
  refine Pool.Projects.simulates ⟨?_, ?_, ?_⟩
  · intro r hr
    have hidle := isNew_call hr
    simp [Gate.program, hidle]
  · intro s i r a s' r' h
    rcases (act_inv h).2.call_cases with ⟨rfl, hcall⟩ | ⟨b, hb, -⟩
    · exact Or.inl ⟨rfl, hcall⟩
    · exact Or.inr ⟨b, hb⟩
  · intro s requests e s' h
    rcases env_gate h with hg | hg
    · exact Or.inl hg
    · exact Or.inr ⟨.cancel, congrArg some hg.symm⟩

end Pinokio.Server
