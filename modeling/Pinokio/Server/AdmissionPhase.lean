/-
# Pinokio.Server.AdmissionPhase -- from the permit to the upgrade

Between its permit and its upgrade a request launches a Chromium, waits for its port
file, connects to it and, when any of that fails, tears it down. Three of the four
have an end that does not depend on Chromium: the startup deadline, the grace period
of the teardown and SIGKILL. The connect has none: a Chromium that has announced its
endpoint and does not answer there holds the request, its permit and the graceful
shutdown of the server for as long as the client stays. What the Chromium will do is
not known before, so an admission is bounded only where the connect is out of reach.
-/
import Pinokio.Server.Cap

namespace Pinokio.Server

variable {Code : Type} {limits : Gate.Limits} {codes : Proxy.CloseCodes Code}

/-! ## Whose step it is -/

/-- In the handler, up to the response. -/
def Phase.awaitsResponse : Phase Code → Bool
  | acquiring | launching | starting _ _ | aborting _ _ | connecting
  | releasing (.refused _) => true
  | _ => false

/-- Has obtained its permit and has not been upgraded. -/
def Request.inAdmission (r : Request Code) : Bool :=
  r.call = .holding && r.phase.awaitsResponse

/-- The handler is in its CDP connect, or about to begin it. -/
def Phase.connects : Phase Code → Bool
  | connecting | starting .ready _ => true
  | _ => false

/-- The port file has been found or may be found yet. The loop comes back to it only
past a `try_wait` that finds the child running. -/
def startupMayConnect (elapsed running : Bool) : Startup → Bool
  | .readPort | .ready => true
  | .tryWait | .sleep => running
  | .checkDeadline => !elapsed && running
  | .failed _ => false

/-- The connect is still ahead of a request that has its permit, or it is in it;
`running` says that the child process of its Chromium runs. -/
def Phase.mayConnect (running : Bool) : Phase Code → Bool
  | authorize | checkShutdown | checkBrowser | parseLaunch | acquiring | launching => true
  | starting startup elapsed => startupMayConnect elapsed running startup
  | connecting => true
  | _ => false

def Request.mayConnect (r : Request Code) : Bool :=
  r.phase.mayConnect (r.chromium.any fun p => p.child = .running)

/-- A step for which neither the Chromium nor the client is needed: the handler's own
code, a timer, a read of the port file that finds nothing, or the end of a process that
was sent SIGKILL. A `try_wait` that the operating system lets fail is not one. -/
def Request.serverSide (r : Request Code) : RequestAction Code → Bool
  | .resume | .spawn | .startupElapses | .shutdown _ | .dropPermit => true
  | .startup (.tryWaitFails _) => false
  | .startup (.readPort endpoint) => !endpoint
  | .startup _ => true
  | .exits =>
    match r.phase with
    | .aborting .killWait _ => r.chromium.any fun p => .sigkill ∈ p.groupSignals
    | _ => false
  | _ => false

/-- The action is a server-side step of request `i`. -/
def ServerSide (i : Nat) (s : State Code) (e : Action Code) : Prop :=
  ∃ a r, e = .act i a ∧ s.procs[i]? = some r ∧ r.serverSide a = true

/-- Refused, with its permit back at the gate. -/
def Request.over (r : Request Code) : Prop :=
  (∃ error, r.phase = .ended (.refused error)) ∧ r.call = .released

/-- How many server-side steps an admission takes at most, once its timers fire. -/
def maxAdmissionSteps : Nat := 20

/-- Boundedly many server-side steps of request `i` alone end its admission and release
its permit. -/
def EndsAlone (limits : Gate.Limits) (codes : Proxy.CloseCodes Code) (i : Nat)
    (s : State Code) : Prop :=
  ∃ as s', as.length ≤ maxAdmissionSteps ∧
    Machine.Along (ServerSide i) (machine limits codes) s as ∧
    (machine limits codes).run s as = some s' ∧ ∃ r, s'.procs[i]? = some r ∧ r.over

/-- The admission of request `i` is bounded whatever its Chromium does: after every
continuation, as long as it is not over, server-side steps alone end it. -/
def Bounded (limits : Gate.Limits) (codes : Proxy.CloseCodes Code) (i : Nat)
    (s : State Code) : Prop :=
  ∀ as s', (machine limits codes).run s as = some s' → s'.shared.main.isExited = false →
    ∀ r, s'.procs[i]? = some r → r.inAdmission = true → EndsAlone limits codes i s'

/-- Request `i` goes on only if its Chromium or its client does something. -/
def AwaitsChromium (limits : Gate.Limits) (codes : Proxy.CloseCodes Code) (i : Nat)
    (s : State Code) : Prop :=
  ∀ e s', (machine limits codes).step s e = some s' → ¬ ServerSide i s e

/-- The Chromium of request `i` answers the connect or refuses it, or the client of
the request goes away. -/
def answers (i : Nat) : Action Code → Bool
  | .act j .connect | .act j (.connectFails _) | .act j .drop => j = i
  | _ => false

/-- Without such an answer request `i` keeps its permit for ever, and axum has a
connection to wait for. -/
def Hangs (limits : Gate.Limits) (codes : Proxy.CloseCodes Code) (i : Nat)
    (s : State Code) : Prop :=
  ∀ as s', (machine limits codes).run s as = some s' → (∀ e ∈ as, answers i e = false) →
    (∃ r, s'.procs[i]? = some r ∧ r.phase = .connecting ∧ r.call = .holding) ∧
      (machine limits codes).step s' (.env .served) = none

/-! ## A request that can be torn down -/

/-- The Chromium that a phase is about is there, and SIGKILL was sent before it is
waited for without a limit. -/
def Phase.Equipped : Phase Code → Option Chromium → Prop
  | starting _ _, c => c.isSome = true
  | aborting .killWait _, c => ∃ p, c = some p ∧ .sigkill ∈ p.groupSignals
  | aborting _ _, c => c.isSome = true
  | connecting, c => c.isSome = true
  | _, _ => True

theorem equipped_isSome {c : Option Chromium} {shutdown : Shutdown} {error : GatewayError}
    (h : Phase.Equipped (.aborting shutdown error : Phase Code) c) : c.isSome = true := by
  cases shutdown with
  | killWait =>
      obtain ⟨p, rfl, -⟩ := h
      rfl
  | _ => exact h

theorem equipped_exits {p p' : Chromium} (h : p.exits = some p') {phase : Phase Code}
    (hk : phase.Equipped (some p)) : phase.Equipped (some p') := by
  obtain ⟨-, rfl⟩ := exits_inv h
  cases phase with
  | aborting shutdown error =>
      cases shutdown with
      | killWait =>
          obtain ⟨q, hq, hkill⟩ := hk
          obtain rfl := Option.some.inj hq
          exact ⟨_, rfl, hkill⟩
      | _ => rfl
  | starting | connecting => rfl
  | _ => trivial

/-- SIGKILL is sent on the way to the wait without a limit. -/
theorem equipped_shutdown {p p' : Chromium} {shutdown shutdown' : Shutdown} {a : ShutdownAction}
    (h : shutdownStep p shutdown a = some (p', shutdown')) (error : GatewayError) :
    Phase.Equipped (.aborting shutdown' error : Phase Code) (some p') := by
  unfold shutdownStep at h
  split at h
  next =>
    split at h
    · obtain ⟨rfl, rfl⟩ := Prod.mk.inj (Option.some.inj h)
      rfl
    · split at h
      all_goals
        obtain ⟨rfl, rfl⟩ := Prod.mk.inj (Option.some.inj h)
        rfl
  next =>
    obtain ⟨-, h⟩ := Option.ite_none_left_eq_some.mp h
    obtain ⟨rfl, rfl⟩ := Prod.mk.inj (Option.some.inj h)
    rfl
  next =>
    obtain ⟨rfl, rfl⟩ := Prod.mk.inj (Option.some.inj h)
    exact ⟨_, rfl, by simp [Chromium.killpg]⟩
  next =>
    obtain ⟨-, h⟩ := Option.ite_none_left_eq_some.mp h
    obtain ⟨rfl, rfl⟩ := Prod.mk.inj (Option.some.inj h)
    rfl
  next =>
    obtain ⟨rfl, rfl⟩ := Prod.mk.inj (Option.some.inj h)
    rfl
  next =>
    obtain ⟨rfl, rfl⟩ := Prod.mk.inj (Option.some.inj h)
    rfl
  next => cases h

theorem equipped_step {s s' : AppState} {i : Nat} {r r' : Request Code} {a : RequestAction Code}
    (h : RequestStep limits codes s i r a s' r') (hk : r.phase.Equipped r.chromium) :
    r'.phase.Equipped r'.chromium := by
  cases h with
  | gate a g c hp hne h => exact hk
  | spawn hp => rfl
  | startup a startup elapsed p p' startup' hp hc h => rfl
  | startupElapses startup elapsed hp => rwa [hp] at hk
  | started elapsed hp => rwa [hp] at hk
  | startFailed error elapsed hp => rwa [hp] at hk
  | connectFails error hp => rwa [hp] at hk
  | abort a shutdown error p p' shutdown' hp hc h => exact equipped_shutdown h error
  | releaseDetached shutdown g c hp h => exact hk
  | exits p p' hc h =>
      rw [hc] at hk
      exact equipped_exits h hk
  | _ => trivial

def EquippedAt (i : Nat) (s : State Code) : Prop :=
  ∀ r, s.procs[i]? = some r → r.phase.Equipped r.chromium

theorem equippedAt_reachable {s : State Code} (i : Nat)
    (h : (machine limits codes).Reachable (init limits) s) : EquippedAt i s := by
  apply h.invariant (I := EquippedAt i) (fun r hr => by cases hr)
  intro s e s' hst hk
  apply Pool.step_forall hst _ _ hk
  · intro r hnew
    rw [isNew_phase hnew]
    trivial
  · intro a r r' _ hact _
    exact equipped_step (act_inv hact).2

/-! ## Every phase but the connect has an end of its own -/

def startupRank : Startup → Nat
  | .sleep => 13
  | .tryWait => 12
  | .readPort => 11
  | .checkDeadline => 10
  | .failed _ => 9
  | .ready => 0

def shutdownRank : Shutdown → Option Chromium → Nat
  | .tryWait, _ => 8
  | .graceWait, _ => 7
  -- a process that was killed still has to exit
  | .killWait, c => if c.any (fun p => decide (p.child = .running)) then 6 else 5
  | .sweep, _ => 4
  | .removeDir, _ => 3
  | .finished, _ => 2

/-- How many server-side steps an admission is from its end. -/
def admissionRank (r : Request Code) : Nat :=
  match r.phase with
  | .acquiring => 20
  | .launching => 19
  | .starting startup elapsed => startupRank startup + if elapsed then 0 else 5
  | .aborting shutdown _ => shutdownRank shutdown r.chromium
  | .releasing _ => 1
  | _ => 0

theorem admissionRank_le (r : Request Code) : admissionRank r ≤ maxAdmissionSteps := by
  have hstartup : ∀ startup, startupRank startup ≤ 13 := by
    intro startup
    cases startup <;> simp [startupRank]
  have hshutdown : ∀ shutdown c, shutdownRank shutdown c ≤ 8 := by
    intro shutdown c
    unfold shutdownRank
    split
    case h_3 => split <;> omega
    all_goals omega
  unfold admissionRank maxAdmissionSteps
  split
  case h_3 startup elapsed hp =>
    have hle := hstartup startup
    cases elapsed
    all_goals
      simp only [if_true, if_false, Bool.false_eq_true]
      omega
  case h_4 shutdown error hp =>
    have hle := hshutdown shutdown r.chromium
    omega
  all_goals omega

/-- On its way to the end, with what that takes. -/
structure Ending.Ahead (r : Request Code) : Prop where
  admission : r.inAdmission = true
  away : r.phase.connects = false
  equipped : r.phase.Equipped r.chromium

/-- The shutdown of an equipped Chromium has a server-side step. -/
theorem exists_shutdown_step {p : Chromium} {shutdown : Shutdown} (h : shutdown ≠ .finished)
    (hrun : shutdown = .killWait → p.child ≠ .running) :
    ∃ a p' shutdown', shutdownStep p shutdown a = some (p', shutdown') ∧
      shutdownRank shutdown' (some p') < shutdownRank shutdown (some p) := by
  cases shutdown with
  | tryWait =>
      cases hdir : p.userDataDir with
      | false => exact ⟨.tryWait, p, .finished, by simp [shutdownStep, hdir], by simp [shutdownRank]⟩
      | true =>
          by_cases hc : p.child = .running
          · exact ⟨.tryWait, p.killpg .sigterm, .graceWait, by simp [shutdownStep, hdir, hc],
              by simp [shutdownRank]⟩
          · exact ⟨.tryWait, p.reap, .sweep, by simp [shutdownStep, hdir, hc],
              by simp [shutdownRank]⟩
  | graceWait =>
      refine ⟨.elapse, p.killpg .sigkill, .killWait, rfl, ?_⟩
      simp only [shutdownRank]
      split <;> decide
  | killWait =>
      refine ⟨.reaped, p.reap, .sweep, by simp [shutdownStep, hrun rfl], ?_⟩
      simp only [shutdownRank]
      split <;> decide
  | sweep => exact ⟨.sweep, p.killpg .sigkill, .removeDir, rfl, by simp [shutdownRank]⟩
  | removeDir => exact ⟨.removeDir, _, .finished, rfl, by simp [shutdownRank]⟩
  | finished => exact absurd rfl h

/-- The polling loop has a server-side step, and with its deadline behind it one that
brings it nearer to its end. -/
theorem exists_startup_step {p : Chromium} {startup : Startup} (h : startup ≠ .ready)
    (hf : ∀ error, startup ≠ .failed error) :
    ∃ a p' startup', startupStep true p startup a = some (p', startup') ∧
      (∀ r : Request Code, r.serverSide (.startup a) = true) ∧ startup' ≠ .ready ∧
      startupRank startup' < startupRank startup := by
  cases startup with
  | tryWait =>
      by_cases hc : p.child = .running
      · exact ⟨.tryWait "", p, .readPort, by simp [startupStep, hc], fun _ => rfl, by decide,
          by decide⟩
      · have hexited : ∃ error, startupStep true p .tryWait (.tryWait "") =
            some (p.reap, .failed error) := ⟨_, if_neg hc⟩
        obtain ⟨error, hstep⟩ := hexited
        exact ⟨.tryWait "", p.reap, .failed error, hstep, fun _ => rfl, by simp,
          by simp [startupRank]⟩
  | readPort => exact ⟨.readPort false, p, .checkDeadline, rfl, fun _ => rfl, by decide, by decide⟩
  | checkDeadline =>
      exact ⟨.checkDeadline, p, .failed .chromiumStartupTimeout, rfl, fun _ => rfl, by decide,
        by decide⟩
  | sleep => exact ⟨.wake, p, .tryWait, rfl, fun _ => rfl, by decide, by decide⟩
  | ready => exact absurd rfl h
  | failed error => exact absurd rfl (hf error)

/-- An admission that is not in the connect has a server-side step towards its end. -/
theorem exists_ending_step (limits : Gate.Limits) (codes : Proxy.CloseCodes Code) (s : AppState)
    (i : Nat) {r : Request Code} (hr : Ending.Ahead r) :
    ∃ a s' r', r.serverSide a = true ∧ requestStep limits codes s i r a = some (s', r') ∧
      s'.main = s.main ∧ (r'.over ∨ Ending.Ahead r') ∧ admissionRank r' < admissionRank r := by
  obtain ⟨hadm, haway, hequipped⟩ := hr
  obtain ⟨hcall, hphase⟩ := Bool.and_eq_true_iff.mp hadm
  have hcall : r.call = .holding := of_decide_eq_true hcall
  cases hp : r.phase with
  | acquiring =>
      refine ⟨.resume, s, { r with phase := .launching }, rfl, ?_, rfl, Or.inr ?_, ?_⟩
      · simp [requestStep, resumeStep, hp, hcall]
      · exact ⟨by simp [Request.inAdmission, hcall, Phase.awaitsResponse], rfl, trivial⟩
      · simp [admissionRank, hp]
  | launching =>
      refine ⟨.spawn, s, { r with chromium := some .spawned, phase := .starting .tryWait false },
        rfl, by simp only [requestStep, hp], rfl, Or.inr ?_, ?_⟩
      · exact ⟨by simp [Request.inAdmission, hcall, Phase.awaitsResponse], rfl, rfl⟩
      · simp [admissionRank, hp, startupRank]
  | starting startup elapsed =>
      rw [hp] at haway hequipped
      obtain ⟨p, hc⟩ := Option.isSome_iff_exists.mp hequipped
      cases elapsed with
      | false =>
          refine ⟨.startupElapses, s, { r with phase := .starting startup true }, rfl,
            by simp only [requestStep, hp], rfl, Or.inr ?_, ?_⟩
          · refine ⟨by simp [Request.inAdmission, hcall, Phase.awaitsResponse], ?_, hequipped⟩
            cases startup <;> first | rfl | cases haway
          · simp [admissionRank, hp]
      | true =>
          by_cases hf : ∃ error, startup = .failed error
          · obtain ⟨error, rfl⟩ := hf
            refine ⟨.resume, s, { r with phase := .aborting .tryWait error }, rfl,
              by simp [requestStep, resumeStep, hp], rfl, Or.inr ?_, ?_⟩
            · exact ⟨by simp [Request.inAdmission, hcall, Phase.awaitsResponse], rfl, hequipped⟩
            · simp [admissionRank, hp, startupRank, shutdownRank]
          · have hready : startup ≠ .ready := by
              rintro rfl
              cases haway
            obtain ⟨a, p', startup', hstep, hside, hnot, hlt⟩ :=
              @exists_startup_step Code p startup hready fun error he => hf ⟨error, he⟩
            refine ⟨.startup a, s, { r with chromium := some p', phase := .starting startup' true },
              hside r, by simp [requestStep, hp, hc, hstep], rfl, Or.inr ?_, ?_⟩
            · refine ⟨by simp [Request.inAdmission, hcall, Phase.awaitsResponse], ?_, rfl⟩
              cases startup' <;> first | rfl | exact absurd rfl hnot
            · simpa [admissionRank, hp] using hlt
  | aborting shutdown error =>
      rw [hp] at hequipped
      obtain ⟨p, hc⟩ := Option.isSome_iff_exists.mp (equipped_isSome hequipped)
      by_cases hfinished : shutdown = .finished
      · subst hfinished
        refine ⟨.resume, s, { r with phase := .releasing (.refused error) }, rfl,
          by simp [requestStep, resumeStep, hp], rfl, Or.inr ?_, ?_⟩
        · exact ⟨by simp [Request.inAdmission, hcall, Phase.awaitsResponse], rfl, trivial⟩
        · simp [admissionRank, hp, shutdownRank]
      · by_cases hkill : shutdown = .killWait ∧ p.child = .running
        -- SIGKILL was sent and cannot be ignored
        · obtain ⟨rfl, hrunning⟩ := hkill
          obtain ⟨q, hq, hsent⟩ := hequipped
          obtain rfl := Option.some.inj (hq.symm.trans hc)
          refine ⟨.exits, s, { r with chromium := some { q with child := .exited } }, ?_,
            by simp [requestStep, hp, hc, Chromium.exits, hrunning], rfl, Or.inr ?_, ?_⟩
          · simp [Request.serverSide, hp, hc, hsent]
          · refine ⟨by simp [Request.inAdmission, hcall, hp, Phase.awaitsResponse], by simp [hp, Phase.connects], ?_⟩
            simp only [hp]
            exact ⟨_, rfl, hsent⟩
          · simp [admissionRank, hp, shutdownRank, hc, hrunning]
        · obtain ⟨a, p', shutdown', hstep, hlt⟩ :=
            exists_shutdown_step (p := p) hfinished fun hk hrunning => hkill ⟨hk, hrunning⟩
          refine ⟨.shutdown a, s,
            { r with chromium := some p', phase := .aborting shutdown' error }, rfl, ?_, rfl,
            Or.inr ?_, ?_⟩
          · simp [requestStep, hp, Request.shutdownStep, hc, hstep]
          · exact ⟨by simp [Request.inAdmission, hcall, Phase.awaitsResponse], rfl, equipped_shutdown hstep error⟩
          · simpa [admissionRank, hp, hc] using hlt
  | connecting =>
      rw [hp] at haway
      cases haway
  | releasing ending =>
      rw [hp] at hphase
      cases ending with
      | refused error =>
          refine ⟨.dropPermit,
            { s with gate := { s.gate with semaphore := s.gate.semaphore.release } },
            { r with call := .released, phase := .ended (.refused error) }, rfl, ?_, rfl,
            Or.inl ⟨⟨error, rfl⟩, rfl⟩, by simp [admissionRank, hp]⟩
          simp only [requestStep, hp, hcall, Gate.callStep, Option.map_some]
      | _ => cases hphase
  | _ =>
      rw [hp] at hphase
      cases hphase

/-- Server-side steps alone lead from there to the end, each of them one nearer to it. -/
theorem exists_ending_run {s : State Code} {i : Nat} {r : Request Code}
    (hmain : s.shared.main.isExited = false) (hr : s.procs[i]? = some r)
    (ha : Ending.Ahead r) :
    ∃ as s', as.length ≤ admissionRank r ∧
      Machine.Along (ServerSide i) (machine limits codes) s as ∧
      (machine limits codes).run s as = some s' ∧ ∃ r, s'.procs[i]? = some r ∧ r.over := by
  have hprogress := Pool.exists_own_run (program limits codes)
    (Q := fun r a => r.serverSide a = true)
    (I := fun x r => x.main.isExited = false ∧ (r.over ∨ Ending.Ahead r))
    (fun _ => Request.over) (fun _ => admissionRank) ?_ hr ⟨hmain, Or.inr ha⟩
  · obtain ⟨as, s', r', hlen, hAlong, hrun, hr', -, hover⟩ := hprogress
    exact ⟨as, s', hlen, hAlong, hrun, r', hr', hover⟩
  · rintro x q ⟨hx, hover | hahead⟩
    · exact Or.inl hover
    · obtain ⟨a, y, q', hside, hact, hmain', hnext, hlt⟩ :=
        exists_ending_step limits codes x i hahead
      exact Or.inr ⟨a, y, q', hside, by simp [program, hx, hact], ⟨hmain'.symm ▸ hx, hnext⟩, hlt⟩

theorem endsAlone_of_ahead {s : State Code} {i : Nat} {r : Request Code}
    (hmain : s.shared.main.isExited = false) (hr : s.procs[i]? = some r)
    (ha : Ending.Ahead r) : EndsAlone limits codes i s := by
  obtain ⟨as, s', hlen, hrest⟩ := exists_ending_run hmain hr ha
  exact ⟨as, s', hlen.trans (admissionRank_le r), hrest⟩

/-! ## The connect has none -/

/-- No server-side step leads out of the connect. -/
theorem connects_step {s s' : AppState} {i : Nat} {r r' : Request Code} {a : RequestAction Code}
    (h : RequestStep limits codes s i r a s' r') (ha : r.serverSide a = true)
    (hr : r.phase.connects = true) : r'.phase.connects = true := by
  have hout : ∀ {p : Phase Code}, r.phase = p → p.connects = false → False := by
    intro p hp hno
    rw [hp, hno] at hr
    cases hr
  cases h with
  | started elapsed hp => rfl
  | startFailed error elapsed hp => exact (hout hp rfl).elim
  | aborted error hp => exact (hout hp rfl).elim
  | startup a startup elapsed p p' startup' hp hc h =>
      cases startup with
      | ready => cases a <;> cases h
      | _ => exact (hout hp rfl).elim
  | startupElapses startup elapsed hp =>
      cases startup with
      | ready => rfl
      | _ => exact (hout hp rfl).elim
  | exits p p' hc h => exact hr
  | connect | connectFails | upgrade | upgradeFails | relay | panic => cases ha
  | dropNew | dropSuspended | gate => cases ha
  | authorized | unauthorized | notShutdown | shuttingDown => cases ha
  | browser | browserInstalling | launchOptions | invalidLaunchOptions => cases ha
  | spawnFails => cases ha
  | _ => exact (hout ‹r.phase = _› rfl).elim

theorem not_endsAlone_of_connects {s : State Code} {i : Nat} {r : Request Code}
    (hr : s.procs[i]? = some r) (hc : r.phase.connects = true) : ¬ EndsAlone limits codes i s := by
  rintro ⟨as, s', -, hAlong, hrun, q, hq, ⟨⟨error, hphase⟩, -⟩⟩
  have hkept := Machine.run_invariant_along
    (I := fun t : State Code => ∃ r, t.procs[i]? = some r ∧ r.phase.connects = true)
    (P := ServerSide i) ?_ hrun hAlong ⟨r, hr, hc⟩
  · obtain ⟨q', hq', hconnects⟩ := hkept
    obtain rfl := Option.some.inj (hq'.symm.trans hq)
    rw [hphase] at hconnects
    cases hconnects
  · intro t e u hst hside ht
    apply Pool.step_exists hst _ ht
    rintro a r r' rfl hact hr hconnects
    obtain ⟨b, q, heq, hq, hb⟩ := hside
    injection heq with _ hab
    subst hab
    obtain rfl := Option.some.inj (hq.symm.trans hr)
    exact connects_step (act_inv hact).2 hb hconnects

/-- Once the loop cannot come to an endpoint any more, it does not. -/
theorem mayConnect_startup {elapsed : Bool} {p p' : Chromium} {startup startup' : Startup}
    {a : StartupAction} (h : startupStep elapsed p startup a = some (p', startup'))
    (hs : startupMayConnect elapsed (decide (p.child = .running)) startup = false) :
    startupMayConnect elapsed (decide (p'.child = .running)) startup' = false := by
  unfold startupStep at h
  split at h
  next =>
    split at h
    next hrunning => simp [startupMayConnect, hrunning] at hs
    next =>
      obtain ⟨rfl, rfl⟩ := Prod.mk.inj (Option.some.inj h)
      rfl
  next =>
    obtain ⟨rfl, rfl⟩ := Prod.mk.inj (Option.some.inj h)
    rfl
  next => cases hs
  next =>
    obtain ⟨rfl, rfl⟩ := Prod.mk.inj (Option.some.inj h)
    cases elapsed with
    | true => rfl
    | false => simpa [startupMayConnect] using hs
  next =>
    obtain ⟨rfl, rfl⟩ := Prod.mk.inj (Option.some.inj h)
    exact hs
  next => cases h

/-- A child that has exited does not bring the connect back. -/
theorem mayConnect_exits {running : Bool} {phase : Phase Code}
    (h : phase.mayConnect running = false) : phase.mayConnect false = false := by
  cases phase with
  | starting startup elapsed =>
      cases startup with
      | readPort | ready => cases h
      | checkDeadline => exact Bool.and_false _
      | _ => rfl
  | _ => first | rfl | cases h

/-- Once the connect is out of reach it stays so. -/
theorem mayConnect_step {s s' : AppState} {i : Nat} {r r' : Request Code} {a : RequestAction Code}
    (h : RequestStep limits codes s i r a s' r') (hr : r.mayConnect = false) :
    r'.mayConnect = false := by
  unfold Request.mayConnect at hr ⊢
  cases h with
  | startup a startup elapsed p p' startup' hp hc h =>
      rw [hp, hc] at hr
      exact mayConnect_startup h hr
  | startupElapses startup elapsed hp =>
      rw [hp] at hr
      cases startup with
      | readPort | ready => cases hr
      | checkDeadline => rfl
      | _ => exact hr
  | exits p p' hc h =>
      obtain ⟨-, rfl⟩ := exits_inv h
      exact mayConnect_exits hr
  | gate | releaseDetached => exact hr
  | _ => first | rfl | (rw [‹r.phase = _›] at hr; cases hr)

/-- How many steps of a Chromium that starts as it should bring its request to the connect. -/
def connectRank (r : Request Code) : Nat :=
  match r.phase with
  | .acquiring => 7
  | .launching => 6
  | .starting .checkDeadline _ => 5
  | .starting .sleep _ => 4
  | .starting .tryWait _ => 3
  | .starting .readPort _ => 2
  | _ => 0

/-- Where the connect is not out of reach, it is reached or one step nearer. -/
theorem exists_connect_step (limits : Gate.Limits) (codes : Proxy.CloseCodes Code) (s : AppState)
    (i : Nat) {r : Request Code} (hadm : r.inAdmission = true)
    (hequipped : r.phase.Equipped r.chromium) (hmay : r.mayConnect = true) :
    r.phase.connects = true ∨ ∃ a s' r',
      requestStep limits codes s i r a = some (s', r') ∧ s'.main = s.main ∧
      r'.inAdmission = true ∧ r'.phase.Equipped r'.chromium ∧ r'.mayConnect = true ∧
      connectRank r' < connectRank r := by
  obtain ⟨hcall, hphase⟩ := Bool.and_eq_true_iff.mp hadm
  have hcall : r.call = .holding := of_decide_eq_true hcall
  unfold Request.mayConnect at hmay
  cases hp : r.phase with
  | acquiring =>
      refine Or.inr ⟨.resume, s, { r with phase := .launching }, ?_, rfl, ?_, trivial, rfl, ?_⟩
      · simp [requestStep, resumeStep, hp, hcall]
      · simp [Request.inAdmission, hcall, Phase.awaitsResponse]
      · simp [connectRank, hp]
  | launching =>
      refine Or.inr ⟨.spawn, s,
        { r with chromium := some .spawned, phase := .starting .tryWait false },
        by simp only [requestStep, hp], rfl, ?_, rfl, rfl, ?_⟩
      · simp [Request.inAdmission, hcall, Phase.awaitsResponse]
      · simp [connectRank, hp]
  | starting startup elapsed =>
      rw [hp] at hequipped hmay
      obtain ⟨p, hc⟩ := Option.isSome_iff_exists.mp hequipped
      rw [hc] at hmay
      -- a step of the loop that keeps the child and leads to `startup'`
      have hloop : ∀ a startup', startupStep elapsed p startup a = some (p, startup') →
          startupMayConnect elapsed (decide (p.child = .running)) startup' = true →
          connectRank ({ r with phase := .starting startup' elapsed } : Request Code) <
            connectRank r →
          ∃ a s' r', requestStep limits codes s i r a = some (s', r') ∧ s'.main = s.main ∧
            r'.inAdmission = true ∧ r'.phase.Equipped r'.chromium ∧ r'.mayConnect = true ∧
            connectRank r' < connectRank r := by
        intro a startup' hstep hmay' hlt
        exact ⟨.startup a, s, { r with chromium := some p, phase := .starting startup' elapsed },
          by simp [requestStep, hp, hc, hstep], rfl,
          by simp [Request.inAdmission, hcall, Phase.awaitsResponse], rfl, hmay', hlt⟩
      cases startup with
      | readPort =>
          exact Or.inr (hloop (.readPort true) .ready rfl rfl (by simp [connectRank, hp]))
      | ready => exact Or.inl rfl
      | tryWait =>
          have hrunning : p.child = .running := of_decide_eq_true hmay
          exact Or.inr (hloop (.tryWait "") .readPort (by simp [startupStep, hrunning]) rfl
            (by simp [connectRank, hp]))
      | sleep => exact Or.inr (hloop .wake .tryWait rfl hmay (by simp [connectRank, hp]))
      | checkDeadline =>
          obtain ⟨helapsed, hrunning⟩ := Bool.and_eq_true_iff.mp hmay
          obtain rfl : elapsed = false := by simpa using helapsed
          exact Or.inr (hloop .checkDeadline .sleep rfl hrunning (by simp [connectRank, hp]))
      | failed error => cases hmay
  | connecting => exact Or.inl rfl
  | _ =>
      rw [hp] at hmay hphase
      first
        | exact (Bool.false_ne_true hmay).elim
        | exact (Bool.false_ne_true hphase).elim

/-- A Chromium that starts as it should brings its request to the connect. -/
theorem exists_connects {s : State Code} {i : Nat} {r : Request Code}
    (hmain : s.shared.main.isExited = false) (hr : s.procs[i]? = some r)
    (hadm : r.inAdmission = true) (hequipped : r.phase.Equipped r.chromium)
    (hmay : r.mayConnect = true) :
    ∃ as s' r', (machine limits codes).run s as = some s' ∧ s'.shared.main.isExited = false ∧
      s'.procs[i]? = some r' ∧ r'.inAdmission = true ∧ r'.phase.connects = true := by
  have hprogress := Pool.exists_own_run (program limits codes) (Q := fun _ _ => True)
    (I := fun x q => x.main.isExited = false ∧ q.inAdmission = true ∧
      q.phase.Equipped q.chromium ∧ q.mayConnect = true)
    (fun _ q => q.phase.connects = true) (fun _ => connectRank) ?_ hr
    ⟨hmain, hadm, hequipped, hmay⟩
  · obtain ⟨as, s', r', -, -, hrun, hr', ⟨hmain', hadm', -, -⟩, hconnects⟩ := hprogress
    exact ⟨as, s', r', hrun, hmain', hr', hadm', hconnects⟩
  · rintro x q ⟨hx, hadm, hequipped, hmay⟩
    rcases exists_connect_step limits codes x i hadm hequipped hmay with
      hconnects | ⟨a, y, q', hact, hmain', hadm', hequipped', hmay', hlt⟩
    · exact Or.inl hconnects
    · exact Or.inr ⟨a, y, q', trivial, by simp [program, hx, hact],
        ⟨hmain'.symm ▸ hx, hadm', hequipped', hmay'⟩, hlt⟩

theorem connects_of_not_mayConnect {r : Request Code} (h : r.mayConnect = false) :
    r.phase.connects = false := by
  unfold Request.mayConnect at h
  cases hp : r.phase with
  | starting startup elapsed =>
      rw [hp] at h
      cases startup with
      | ready => cases h
      | _ => rfl
  | connecting =>
      rw [hp] at h
      cases h
  | _ => rfl

/-- Whether an admission is bounded whatever its Chromium does is a question of the
connect. -/
theorem bounded_iff {s : State Code} {i : Nat} {r : Request Code}
    (h : (machine limits codes).Reachable (init limits) s)
    (hmain : s.shared.main.isExited = false) (hr : s.procs[i]? = some r)
    (hadm : r.inAdmission = true) :
    Bounded limits codes i s ↔ r.mayConnect = false := by
  constructor
  · intro hbounded
    by_contra hmay
    obtain ⟨as, s', r', hrun, hmain', hr', hadm', hconnects⟩ :=
      exists_connects hmain hr hadm (equippedAt_reachable i h r hr) (by simpa using hmay)
    exact not_endsAlone_of_connects hr' hconnects (hbounded as s' hrun hmain' r' hr' hadm')
  · intro hnot as s' hrun hmain' q hq hadm'
    have hkept := Machine.run_invariant
      (I := fun t : State Code => ∃ r, t.procs[i]? = some r ∧ r.mayConnect = false) ?_ hrun
      ⟨r, hr, hnot⟩
    · obtain ⟨q', hq', hout⟩ := hkept
      obtain rfl := Option.some.inj (hq'.symm.trans hq)
      have hequipped := equippedAt_reachable i (h.trans ⟨as, hrun⟩) q' hq
      exact endsAlone_of_ahead hmain' hq ⟨hadm', connects_of_not_mayConnect hout, hequipped⟩
    · intro t e u hst
      apply Pool.step_exists hst
      intro a r r' _ hact _
      exact mayConnect_step (act_inv hact).2

/-- In the connect every step of the request is the Chromium's or the client's. -/
theorem not_serverSide_of_connecting {s s' : AppState} {i : Nat} {r r' : Request Code}
    {a : RequestAction Code} (h : RequestStep limits codes s i r a s' r')
    (hp : r.phase = .connecting) : r.serverSide a = false := by
  cases h with
  | connect | connectFails | dropNew | dropSuspended => rfl
  | exits p p' hc h => simp [Request.serverSide, hp]
  | gate | upgrade | upgradeFails | relay | panic | spawnFails => rfl
  | authorized | unauthorized | notShutdown | shuttingDown => rfl
  | browser | browserInstalling | launchOptions | invalidLaunchOptions => rfl
  | _ => cases hp.symm.trans ‹r.phase = _›

/-- What is left of a request in its connect while nobody answers. -/
theorem connecting_step {s s' : AppState} {i : Nat} {r r' : Request Code} {a : RequestAction Code}
    (h : RequestStep limits codes s i r a s' r') (ha : answers i (.act i a : Action Code) = false)
    (hr : r.phase = .connecting ∧ r.call = .holding) :
    r'.phase = .connecting ∧ r'.call = .holding := by
  cases h with
  | exits p p' hc h => exact hr
  | connect | connectFails | dropNew | dropSuspended => simp [answers] at ha
  | _ => cases hr.1.symm.trans ‹r.phase = _›

theorem hangs_of_connecting {s : State Code} {i : Nat} {r : Request Code}
    (hr : s.procs[i]? = some r) (hp : r.phase = .connecting) (hcall : r.call = .holding) :
    Hangs limits codes i s := by
  intro as s' hrun hsilent
  have hkept := Machine.run_invariant_along
    (I := fun t : State Code =>
      ∃ r, t.procs[i]? = some r ∧ r.phase = .connecting ∧ r.call = .holding)
    (P := fun _ e => answers i e = false) ?_ hrun
    (Machine.along_of_forall (fun e he _ => hsilent e he) _) ⟨r, hr, hp, hcall⟩
  · refine ⟨hkept, ?_⟩
    obtain ⟨q, hq, hphase, -⟩ := hkept
    -- a request in the handler is a connection of axum's
    by_contra hserved
    obtain ⟨t, ht⟩ := Option.ne_none_iff_exists'.mp hserved
    obtain ⟨shared, henv, -⟩ := Pool.step_env.mp ht
    obtain ⟨-, henv⟩ := Option.ite_none_left_eq_some.mp henv
    obtain ⟨⟨-, hall⟩, -⟩ := Option.ite_none_right_eq_some.mp henv
    have hin := hall q (List.mem_of_getElem? hq)
    rw [hphase] at hin
    cases hin
  · intro t e u hst hno ht
    apply Pool.step_exists hst _ ht
    rintro a r r' rfl hact _ hr
    exact connecting_step (act_inv hact).2 hno hr

/-! ## Reachable states -/

/-- When an admission is bounded. Take any reachable state of the running server and
a request between its permit and its upgrade. Whatever its Chromium does, a bounded
number of server-side steps can end it and release its permit, exactly when the
connect is out of its reach. If its Chromium is never heard of, such steps end it
exactly when the handler is not in its CDP connect nor about to begin it; it waits for
its Chromium alone exactly when it is in the connect; and there it hangs: as long as
the Chromium does not answer and the client stays, it keeps its permit and axum cannot
finish. -/
theorem admission_bounded_iff {s : State Code} {i : Nat} {r : Request Code}
    (h : (machine limits codes).Reachable (init limits) s)
    (hmain : s.shared.main.isExited = false) (hr : s.procs[i]? = some r)
    (hadm : r.inAdmission = true) :
    (Bounded limits codes i s ↔ r.mayConnect = false) ∧
    (EndsAlone limits codes i s ↔ r.phase.connects = false) ∧
    (AwaitsChromium limits codes i s ↔ r.phase = .connecting) ∧
    (r.phase = .connecting → Hangs limits codes i s) := by
  have hequipped := equippedAt_reachable i h r hr
  have hcall : r.call = .holding := of_decide_eq_true (Bool.and_eq_true_iff.mp hadm).1
  refine ⟨bounded_iff h hmain hr hadm, ⟨fun hends => ?_, fun haway => ?_⟩,
    ⟨fun hawaits => ?_, fun hp => ?_⟩, fun hp => ?_⟩
  · by_contra hconnects
    exact not_endsAlone_of_connects hr (by simpa using hconnects) hends
  · exact endsAlone_of_ahead hmain hr ⟨hadm, haway, hequipped⟩
  · by_contra hne
    -- everywhere else some server-side step is enabled
    have hstep : ∃ a s' r', r.serverSide a = true ∧
        requestStep limits codes s.shared i r a = some (s', r') := by
      cases hconnects : r.phase.connects with
      | false =>
          obtain ⟨a, s', r', hside, hstep, -⟩ :=
            exists_ending_step limits codes s.shared i ⟨hadm, hconnects, hequipped⟩
          exact ⟨a, s', r', hside, hstep⟩
      | true =>
          unfold Phase.connects at hconnects
          split at hconnects
          next hp => exact absurd hp hne
          next elapsed hp =>
            exact ⟨.resume, s.shared, { r with phase := .connecting }, rfl,
              by simp [requestStep, resumeStep, hp]⟩
          next => cases hconnects
    obtain ⟨a, shared, r', hside, hstep⟩ := hstep
    refine hawaits (.act i a) { shared, procs := s.procs.set i r' } ?_ ⟨a, r, rfl, hr, hside⟩
    exact Pool.step_act.mpr ⟨r, shared, r', hr, by simp [program, hmain, hstep], rfl⟩
  · rintro e s' hst ⟨a, q, rfl, hq, hside⟩
    obtain rfl := Option.some.inj (hq.symm.trans hr)
    obtain ⟨q', shared, r', hq', hact, -⟩ := Pool.step_act.mp hst
    obtain rfl := Option.some.inj (hq'.symm.trans hr)
    rw [not_serverSide_of_connecting (act_inv hact).2 hp] at hside
    cases hside
  · exact hangs_of_connecting hr hp hcall

/-- The request of `launchRun`, waiting for the port file. -/
def launchedRequest : Request UInt16 where
  authorized := true
  launchOptions := .ok ()
  call := .holding
  chromium := some .spawned
  phase := .starting .readPort false

/-- No port file appears before the deadline. -/
def timedOutRun : List (Action UInt16) :=
  launchRun ++ [.act 0 (.startup (.readPort false)), .act 0 .startupElapses,
    .act 0 (.startup .checkDeadline), .act 0 .resume]

/-- The same request, about to be torn down. -/
def timedOutRequest : Request UInt16 :=
  { launchedRequest with phase := .aborting .tryWait .chromiumStartupTimeout }

theorem admission_bounded_iff_launchRun :
    (∃ s : State UInt16,
      (machine oneSession Proxy.plainCodes).run (init oneSession) launchRun = some s ∧
      EndsAlone oneSession Proxy.plainCodes 0 s ∧ ¬ Bounded oneSession Proxy.plainCodes 0 s) ∧
    ∃ s : State UInt16,
      (machine oneSession Proxy.plainCodes).run (init oneSession) timedOutRun = some s ∧
      Bounded oneSession Proxy.plainCodes 0 s := by
  constructor
  · have hrun : ∃ s : State UInt16,
        (machine oneSession Proxy.plainCodes).run (init oneSession) launchRun = some s ∧
        s.shared.main.isExited = false ∧ s.procs[0]? = some launchedRequest :=
      ⟨_, rfl, rfl, rfl⟩
    obtain ⟨s, hs, hmain, hr⟩ := hrun
    obtain ⟨hbounded, hends, -⟩ := admission_bounded_iff ⟨launchRun, hs⟩ hmain hr rfl
    exact ⟨s, hs, hends.mpr rfl, fun h => Bool.false_ne_true (hbounded.mp h).symm⟩
  · have hrun : ∃ s : State UInt16,
        (machine oneSession Proxy.plainCodes).run (init oneSession) timedOutRun = some s ∧
        s.shared.main.isExited = false ∧ s.procs[0]? = some timedOutRequest :=
      ⟨_, rfl, rfl, rfl⟩
    obtain ⟨s, hs, hmain, hr⟩ := hrun
    exact ⟨s, hs, (admission_bounded_iff ⟨timedOutRun, hs⟩ hmain hr rfl).1.mpr rfl⟩

/-- The Chromium of that request announces its endpoint, and the handler connects. -/
def connectingRun : List (Action UInt16) :=
  launchRun ++ [.act 0 (.startup (.readPort true)), .act 0 .resume]

/-- If the Chromium does not answer there, nothing else ends the admission. -/
theorem admission_unbounded_connectingRun :
    ¬ ∀ (limits : Gate.Limits) (codes : Proxy.CloseCodes UInt16) (s : State UInt16) (i : Nat)
      (r : Request UInt16), (machine limits codes).Reachable (init limits) s →
      s.shared.main.isExited = false → s.procs[i]? = some r → r.inAdmission = true →
      Bounded limits codes i s ∧ ¬ AwaitsChromium limits codes i s := by
  intro h
  have hrun : ∃ (s : State UInt16) (r : Request UInt16),
      (machine oneSession Proxy.plainCodes).run (init oneSession) connectingRun = some s ∧
      s.shared.main.isExited = false ∧ s.procs[0]? = some r ∧ r.inAdmission = true ∧
      r.phase.connects = true := ⟨_, _, rfl, rfl, rfl, rfl, rfl⟩
  obtain ⟨s, r, hs, hmain, hr, hadm, hconnects⟩ := hrun
  have hbounded := (h oneSession Proxy.plainCodes s 0 r ⟨connectingRun, hs⟩ hmain hr hadm).1
  exact not_endsAlone_of_connects hr hconnects (hbounded [] s rfl hmain r hr hadm)

end Pinokio.Server
