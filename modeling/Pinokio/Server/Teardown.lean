/-
# Pinokio.Server.Teardown -- which Chromium goes through its whole teardown

While nothing takes its Chromium away from it, a request leads it through the whole
teardown on each of its paths: `Phase.Keeps` says, phase by phase, how far it has
come. Two events take it away: the future of `ws_handler` is dropped while it is
suspended with a Chromium among its locals, and the upgrade fails, which drops the
callback uncalled. What runs then is the destructors of a `Child` and of a `TempDir`,
and the Chromium is lost for good (`Phase.Lost`).
-/
import Pinokio.Server

namespace Pinokio.Server

open Proxy (CloseCodes CloseReason)

variable {Code : Type} {limits : Gate.Limits} {codes : CloseCodes Code}

/-! ## How far the teardown has come -/

/-- Nothing of the teardown has been done. -/
def Live (p : Chromium) : Prop := p.userDataDir = true ∧ p.teardowns = 0

/-- What a shutdown has done when it is at this place. -/
def ShutdownKeeps (p : Chromium) : Shutdown → Prop
  | .tryWait | .graceWait | .killWait => Live p
  | .sweep => Live p ∧ p.child = .reaped
  | .removeDir => Live p ∧ p.child = .reaped ∧ .sigkill ∈ p.groupSignals
  | .finished => p.tornDown = true

/-- A request that still answers for its Chromium. -/
def Phase.Keeps : Phase Code → Option Chromium → Prop
  | authorize, c | checkShutdown, c | checkBrowser, c | parseLaunch, c | acquiring, c
  | launching, c => c = none
  | starting _ _, c | connecting, c | upgrading, c | relaying _, c => ∃ p, c = some p ∧ Live p
  | aborting shutdown _, c | closing shutdown _, c | detached shutdown, c =>
    ∃ p, c = some p ∧ ShutdownKeeps p shutdown
  | releasing _, c | ended _, c => ∀ p, c = some p → p.tornDown = true

/-- A request that was made to drop its Chromium: no teardown was completed, and
nobody is left to complete one. -/
def Phase.Lost : Phase Code → Option Chromium → Prop
  | releasing _, c | ended _, c => ∃ p, c = some p ∧ p.teardowns = 0
  | _, _ => False

theorem not_tornDown_of_lost {p : Chromium} (h : p.teardowns = 0) : p.tornDown = false := by
  simp [Chromium.tornDown, h]

theorem exits_inv {p p' : Chromium} (h : p.exits = some p') :
    p.child = .running ∧ p' = { p with child := .exited } := by
  obtain ⟨hrun, hs⟩ := Option.ite_none_right_eq_some.mp h
  exact ⟨hrun, (Option.some.inj hs).symm⟩

theorem tornDown_inv {p : Chromium} (h : p.tornDown = true) :
    p.child = .reaped ∧ .sigkill ∈ p.groupSignals ∧ p.userDataDir = false ∧ p.teardowns = 1 := by
  simpa [Chromium.tornDown, Chromium.isDown, and_assoc] using h

/-- A Chromium that was reaped does not exit again. -/
theorem shutdownKeeps_exits {p p' : Chromium} (shutdown : Shutdown) (h : p.exits = some p')
    (hk : ShutdownKeeps p shutdown) : ShutdownKeeps p' shutdown := by
  obtain ⟨hrun, rfl⟩ := exits_inv h
  cases shutdown with
  | tryWait | graceWait | killWait => exact hk
  | sweep => simp [ShutdownKeeps, hrun] at hk
  | removeDir => simp [ShutdownKeeps, hrun] at hk
  | finished =>
      have hreaped := (tornDown_inv hk).1
      rw [hrun] at hreaped
      cases hreaped

/-- Each step of a shutdown keeps its part of the account; the last one closes it. -/
theorem shutdownKeeps_step {p p' : Chromium} {shutdown shutdown' : Shutdown}
    {a : ShutdownAction} (h : shutdownStep p shutdown a = some (p', shutdown'))
    (hk : ShutdownKeeps p shutdown) : ShutdownKeeps p' shutdown' := by
  unfold shutdownStep at h
  split at h
  next =>
    have hdir : p.userDataDir = true := hk.1
    simp only [hdir, Bool.not_true, Bool.false_eq_true, if_false] at h
    split at h
    · obtain ⟨rfl, rfl⟩ := Prod.mk.inj (Option.some.inj h)
      exact hk
    · obtain ⟨rfl, rfl⟩ := Prod.mk.inj (Option.some.inj h)
      exact ⟨hk, rfl⟩
  next =>
    obtain ⟨-, h⟩ := Option.ite_none_left_eq_some.mp h
    obtain ⟨rfl, rfl⟩ := Prod.mk.inj (Option.some.inj h)
    exact ⟨hk, rfl⟩
  next =>
    obtain ⟨rfl, rfl⟩ := Prod.mk.inj (Option.some.inj h)
    exact hk
  next =>
    obtain ⟨-, h⟩ := Option.ite_none_left_eq_some.mp h
    obtain ⟨rfl, rfl⟩ := Prod.mk.inj (Option.some.inj h)
    exact ⟨hk, rfl⟩
  next =>
    obtain ⟨rfl, rfl⟩ := Prod.mk.inj (Option.some.inj h)
    exact ⟨hk.1, hk.2, by simp [Chromium.killpg]⟩
  next =>
    obtain ⟨rfl, rfl⟩ := Prod.mk.inj (Option.some.inj h)
    obtain ⟨⟨-, hzero⟩, hreaped, hkill⟩ := hk
    simp [ShutdownKeeps, Chromium.tornDown, Chromium.isDown, hreaped, hkill, hzero]
  next => cases h

theorem live_startup {p p' : Chromium} {startup startup' : Startup} {elapsed : Bool}
    {a : StartupAction} (h : startupStep elapsed p startup a = some (p', startup'))
    (hl : Live p) : Live p' := by
  rcases startupStep_chromium h with rfl | ⟨-, rfl⟩
  · exact hl
  · exact hl

/-! ## One step of a request -/

/-- The step takes the Chromium of request `i` away from it: its future is dropped
while it is suspended with that Chromium, or its upgrade fails. -/
def Interrupts (i : Nat) (s : State Code) : Action Code → Prop
  | .act j .drop => j = i ∧ ∃ r, s.procs[i]? = some r ∧ r.phase.suspended = true
  | .act j .upgradeFails => j = i
  | _ => False

/-- Of all events only these interrupt a request. -/
def isInterruption : Action Code → Bool
  | .act _ .drop | .act _ .upgradeFails | .act _ .panic => true
  | _ => false

theorem isInterruption_of_interrupts {i : Nat} {s : State Code} {e : Action Code}
    (h : Interrupts i s e) : isInterruption e = true := by
  unfold Interrupts at h
  split at h
  next => rfl
  next => rfl
  next => cases h

theorem keeps_exits {p p' : Chromium} (h : p.exits = some p') {phase : Phase Code}
    (hk : phase.Keeps (some p)) : phase.Keeps (some p') := by
  have hshutdown : ∀ shutdown, (∃ q, some p = some q ∧ ShutdownKeeps q shutdown) →
      ∃ q, some p' = some q ∧ ShutdownKeeps q shutdown := by
    rintro shutdown ⟨q, hq, hkeeps⟩
    obtain rfl := Option.some.inj hq
    exact ⟨p', rfl, shutdownKeeps_exits shutdown h hkeeps⟩
  have hlive : (∃ q, some p = some q ∧ Live q) → ∃ q, some p' = some q ∧ Live q :=
    hshutdown .tryWait
  have hdown : (∀ q, some p = some q → q.tornDown = true) →
      ∀ q, some p' = some q → q.tornDown = true := by
    rintro hall q hq
    obtain rfl := Option.some.inj hq
    exact shutdownKeeps_exits .finished h (hall p rfl)
  cases phase with
  | starting | connecting | upgrading | relaying => exact hlive hk
  | aborting shutdown | closing shutdown | detached shutdown => exact hshutdown shutdown hk
  | releasing | ended => exact hdown hk
  | _ => cases hk

theorem keeps_finished {c : Option Chromium}
    (h : ∃ p, c = some p ∧ ShutdownKeeps p .finished) : ∀ p, c = some p → p.tornDown = true := by
  obtain ⟨q, rfl, hdown⟩ := h
  intro p hp
  obtain rfl := Option.some.inj hp
  exact hdown

/-- Wherever the future can be dropped with a Chromium, nothing was torn down yet. -/
theorem live_of_suspended {phase : Phase Code} {c : Option Chromium}
    (hs : phase.suspended = true) (hk : phase.Keeps c) : ∃ p, c = some p ∧ Live p := by
  cases phase with
  | starting | connecting => exact hk
  | aborting shutdown error =>
      obtain ⟨p, hc, hkeeps⟩ := hk
      cases shutdown with
      | graceWait | killWait => exact ⟨p, hc, hkeeps⟩
      | _ => cases hs
  | _ => cases hs

/-- A step that does not take the Chromium away keeps the account of the request. -/
theorem keeps_step {s s' : AppState} {i : Nat} {r r' : Request Code} {a : RequestAction Code}
    (h : RequestStep limits codes s i r a s' r') (hk : r.phase.Keeps r.chromium)
    (hdrop : a = .drop → r.phase.suspended = false) (hup : a ≠ .upgradeFails) :
    r'.phase.Keeps r'.chromium := by
  -- before the spawn there is nothing to account for
  have none_down : r.chromium = none → ∀ p, r.chromium = some p → p.tornDown = true := by
    intro hnone p hp
    rw [hnone] at hp
    cases hp
  cases h with
  | authorized hp hm hauth => rwa [hp] at hk
  | notShutdown hp hs => rwa [hp] at hk
  | browser hp hb => rwa [hp] at hk
  | launchOptions hp hl => rwa [hp] at hk
  | unauthorized hp hm hauth =>
      rw [hp] at hk
      exact none_down hk
  | shuttingDown hp hs =>
      rw [hp] at hk
      exact none_down hk
  | browserInstalling hp hb =>
      rw [hp] at hk
      exact none_down hk
  | invalidLaunchOptions reason hp hl =>
      rw [hp] at hk
      exact none_down hk
  | gate a g c hp hne h => exact hk
  | admitted hp hc => rwa [hp] at hk
  | refused error hp hc =>
      rw [hp] at hk
      exact none_down hk
  | dropped hp hc =>
      rw [hp] at hk
      exact none_down hk
  | spawn hp => exact ⟨.spawned, rfl, rfl, rfl⟩
  | spawnFails error hp =>
      rw [hp] at hk
      exact none_down hk
  | startup a startup elapsed p p' startup' hp hc h =>
      rw [hp, hc] at hk
      obtain ⟨q, hq, hlive⟩ := hk
      obtain rfl := Option.some.inj hq
      exact ⟨p', rfl, live_startup h hlive⟩
  | startupElapses startup elapsed hp => rwa [hp] at hk
  | started elapsed hp => rwa [hp] at hk
  | startFailed error elapsed hp => rwa [hp] at hk
  | connect hp => rwa [hp] at hk
  | connectFails error hp => rwa [hp] at hk
  | abort a shutdown error p p' shutdown' hp hc h =>
      rw [hp, hc] at hk
      obtain ⟨q, hq, hkeeps⟩ := hk
      obtain rfl := Option.some.inj hq
      exact ⟨p', rfl, shutdownKeeps_step h hkeeps⟩
  | aborted error hp =>
      rw [hp] at hk
      exact keeps_finished hk
  | upgrade clientCapacity upstreamCapacity hp => rwa [hp] at hk
  | upgradeFails hp => exact absurd rfl hup
  | relay a relay relay' hp hcancel h => rwa [hp] at hk
  | relayed relay reason hp hr => rwa [hp] at hk
  | panic relay hp => rwa [hp] at hk
  | close a shutdown reason p p' shutdown' hp hc h =>
      rw [hp, hc] at hk
      obtain ⟨q, hq, hkeeps⟩ := hk
      obtain rfl := Option.some.inj hq
      exact ⟨p', rfl, shutdownKeeps_step h hkeeps⟩
  | closed reason hp =>
      rw [hp] at hk
      exact keeps_finished hk
  | detach a shutdown p p' shutdown' hp hc h =>
      rw [hp, hc] at hk
      obtain ⟨q, hq, hkeeps⟩ := hk
      obtain rfl := Option.some.inj hq
      exact ⟨p', rfl, shutdownKeeps_step h hkeeps⟩
  | detached hp hc =>
      rw [hp] at hk
      exact keeps_finished hk
  | dropNew hp =>
      rw [hp] at hk
      exact none_down hk
  -- the one drop that would lose the Chromium is the one excluded
  | dropSuspended hs =>
      rw [hdrop rfl] at hs
      cases hs
  | release ending g c hp h => rwa [hp] at hk
  | releaseDetached shutdown g c hp h => exact hk
  | exits p p' hc h =>
      rw [hc] at hk
      exact keeps_exits h hk

/-- The step that takes the Chromium away loses it. -/
theorem lost_of_interrupt {s s' : AppState} {i : Nat} {r r' : Request Code}
    {a : RequestAction Code} (h : RequestStep limits codes s i r a s' r')
    (hk : r.phase.Keeps r.chromium)
    (hi : (a = .drop ∧ r.phase.suspended = true) ∨ a = .upgradeFails) :
    r'.phase.Lost r'.chromium := by
  rcases hi with ⟨rfl, hsus⟩ | rfl
  · obtain ⟨p, hc, hlive⟩ := live_of_suspended hsus hk
    cases h with
    | dropNew hp =>
        rw [hp] at hsus
        cases hsus
    | dropSuspended hs =>
        exact ⟨p.dropped, by simp [Request.dropChromium, hc], hlive.2⟩
  · cases h with
    | upgradeFails hp =>
        rw [hp] at hk
        obtain ⟨p, hc, hlive⟩ := hk
        exact ⟨p.dropped, by simp [Request.dropChromium, hc], hlive.2⟩

theorem lost_phase {phase : Phase Code} {c : Option Chromium} (h : phase.Lost c) :
    (∃ ending, phase = .releasing ending) ∨ ∃ ending, phase = .ended ending := by
  cases phase with
  | releasing ending => exact Or.inl ⟨ending, rfl⟩
  | ended ending => exact Or.inr ⟨ending, rfl⟩
  | _ => cases h

/-- A Chromium that is lost stays lost. -/
theorem lost_step {s s' : AppState} {i : Nat} {r r' : Request Code} {a : RequestAction Code}
    (h : RequestStep limits codes s i r a s' r') (hl : r.phase.Lost r.chromium) :
    r'.phase.Lost r'.chromium := by
  cases h with
  | release ending g c hp h => rwa [hp] at hl
  | exits p p' hc h =>
      obtain ⟨-, rfl⟩ := exits_inv h
      rw [hc] at hl
      rcases lost_phase hl with ⟨ending, hphase⟩ | ⟨ending, hphase⟩
      · rw [hphase] at hl ⊢
        obtain ⟨q, hq, hzero⟩ := hl
        obtain rfl := Option.some.inj hq
        exact ⟨_, rfl, hzero⟩
      · rw [hphase] at hl ⊢
        obtain ⟨q, hq, hzero⟩ := hl
        obtain rfl := Option.some.inj hq
        exact ⟨_, rfl, hzero⟩
  | dropSuspended hs =>
      rcases lost_phase hl with ⟨ending, hphase⟩ | ⟨ending, hphase⟩
      · rw [hphase] at hs
        cases hs
      · rw [hphase] at hs
        cases hs
  | _ =>
      rw [‹r.phase = _›] at hl
      cases hl

/-! ## Runs -/

/-- Request `i`, if it is there, answers for its Chromium. -/
def KeepsAt (i : Nat) (s : State Code) : Prop :=
  ∀ r, s.procs[i]? = some r → r.phase.Keeps r.chromium

def LostAt (i : Nat) (s : State Code) : Prop :=
  ∃ r, s.procs[i]? = some r ∧ r.phase.Lost r.chromium

theorem isNew_keeps {r : Request Code} (h : r.isNew = true) : r.phase.Keeps r.chromium := by
  unfold Request.isNew at h
  split at h
  next hphase _ hc => rw [hphase, hc]; rfl
  next => cases h

theorem keepsAt_step {s s' : State Code} {i : Nat} {e : Action Code}
    (h : (machine limits codes).step s e = some s') (hno : ¬ Interrupts i s e)
    (hk : KeepsAt i s) : KeepsAt i s' := by
  apply Pool.step_forall h (fun r hfresh => isNew_keeps hfresh) _ hk
  rintro a r r' rfl hact hr hkeeps
  apply keeps_step (act_inv hact).2 hkeeps
  · rintro rfl
    by_contra hs
    exact hno ⟨rfl, r, hr, by simpa using hs⟩
  · rintro rfl
    exact hno rfl

theorem lostAt_of_interrupt {s s' : State Code} {i : Nat} {e : Action Code}
    (h : (machine limits codes).step s e = some s') (hi : Interrupts i s e)
    (hk : KeepsAt i s) : LostAt i s' := by
  have hact : ∃ a, e = .act i a ∧ ((a = .drop ∧ ∃ r, s.procs[i]? = some r ∧
      r.phase.suspended = true) ∨ a = .upgradeFails) := by
    unfold Interrupts at hi
    split at hi
    next j =>
      obtain ⟨rfl, hs⟩ := hi
      exact ⟨.drop, rfl, Or.inl ⟨rfl, hs⟩⟩
    next j =>
      obtain rfl := hi
      exact ⟨.upgradeFails, rfl, Or.inr rfl⟩
    next => cases hi
  obtain ⟨a, rfl, ha⟩ := hact
  obtain ⟨r, shared, r', hr, hstep, rfl⟩ := Pool.step_act.mp h
  refine ⟨r', Pool.getElem?_set_of_some hr r', lost_of_interrupt (act_inv hstep).2 (hk r hr) ?_⟩
  rcases ha with ⟨rfl, q, hq, hs⟩ | rfl
  · obtain rfl := Option.some.inj (hq.symm.trans hr)
    exact Or.inl ⟨rfl, hs⟩
  · exact Or.inr rfl

theorem lostAt_step {s s' : State Code} {i : Nat} {e : Action Code}
    (h : (machine limits codes).step s e = some s') (hl : LostAt i s) : LostAt i s' := by
  apply Pool.step_exists h _ hl
  intro a r r' _ hact _
  exact lost_step (act_inv hact).2

theorem keepsAt_init (i : Nat) : KeepsAt i (init limits : State Code) := by
  intro r hr
  cases hr

/-- A run that takes nothing away from request `i` leaves its account in order. -/
theorem keepsAt_run {s : State Code} {as : List (Action Code)} {i : Nat}
    (hrun : (machine limits codes).run (init limits) as = some s)
    (h : Machine.Along (fun s e => ¬ Interrupts i s e) (machine limits codes) (init limits) as) :
    KeepsAt i s :=
  Machine.run_invariant_along (I := KeepsAt i) (fun _ _ _ hst hno hk => keepsAt_step hst hno hk)
    hrun h (keepsAt_init i)

theorem lostAt_run {s s' : State Code} {as : List (Action Code)} {i : Nat}
    (hrun : (machine limits codes).run s as = some s') (hl : LostAt i s) : LostAt i s' :=
  Machine.run_invariant (I := LostAt i) (fun _ _ _ hst hl => lostAt_step hst hl) hrun hl

/-- Which Chromium is torn down. When the request that spawned it is over, however
that came about, it went through the whole teardown, once, exactly when no step of
the run took it away from the request. -/
theorem tornDown_iff {s : State Code} {as : List (Action Code)} {i : Nat} {r : Request Code}
    {p : Chromium} {ending : Ending} (hrun : (machine limits codes).run (init limits) as = some s)
    (hr : s.procs[i]? = some r) (hended : r.phase = .ended ending) (hp : r.chromium = some p) :
    p.tornDown = true ↔
      Machine.Along (fun s e => ¬ Interrupts i s e) (machine limits codes) (init limits) as := by
  constructor
  · intro hdown
    by_contra hbreak
    obtain ⟨bs, e, cs, t, u, rfl, hbs, hAlong, hi, hst, hcs⟩ :=
      Machine.exists_break_of_not_along hrun hbreak
    have hlost := lostAt_of_interrupt hst (not_not.mp hi) (keepsAt_run hbs hAlong)
    obtain ⟨r', hr', hl⟩ := lostAt_run hcs hlost
    obtain rfl := Option.some.inj (hr'.symm.trans hr)
    rw [hended, hp] at hl
    obtain ⟨q, hq, hzero⟩ := hl
    obtain rfl := Option.some.inj hq
    rw [not_tornDown_of_lost hzero] at hdown
    cases hdown
  · intro hAlong
    have hk := keepsAt_run hrun hAlong r hr
    rw [hended] at hk
    exact hk p hp

/-- One session and no queue. -/
def oneSession : Gate.Limits := { maxSessions := 1, maxQueue := 0, maxQueue_lt := by decide }

/-- Request 0 passes its checks, is admitted and spawns its Chromium. -/
def launchRun : List (Action UInt16) :=
  [.env .browserReady, .spawn (.new true (.ok ())), .act 0 .check, .act 0 .check, .act 0 .check,
    .act 0 .check, .act 0 (.gate .start), .act 0 (.gate .tryAcquire), .act 0 .resume,
    .act 0 .spawn, .act 0 (.startup (.tryWait ""))]

theorem launchRun_isInterruption : ∀ e ∈ launchRun, isInterruption e ≠ true := by decide

/-- The client disconnects while the handler waits for the port file. -/
def droppedRun : List (Action UInt16) := launchRun ++ [.act 0 .drop, .act 0 .dropPermit]

/-- What is left of that request. -/
def droppedRequest : Request UInt16 where
  authorized := true
  launchOptions := .ok ()
  call := .released
  chromium := some { child := .running, groupSignals := [], leaderKilled := true,
                     userDataDir := false, teardowns := 0 }
  phase := .ended .dropped

/-- Its Chromium is not torn down: no signal went to its group and nobody reaps it. -/
theorem notTornDown_droppedRun :
    ¬ ∀ (limits : Gate.Limits) (codes : CloseCodes UInt16) (s : State UInt16)
      (as : List (Action UInt16)) (i : Nat) (r : Request UInt16) (p : Chromium) (ending : Ending),
      (machine limits codes).run (init limits) as = some s → s.procs[i]? = some r →
      r.phase = .ended ending → r.chromium = some p → p.tornDown = true := by
  intro h
  have hdown := h oneSession Proxy.plainCodes _ droppedRun 0 droppedRequest _ .dropped rfl rfl rfl rfl
  cases hdown

/-- Request 0 becomes a session, its client goes away, and its Chromium exits when it is
asked to. -/
def closingSteps : List (Action UInt16) :=
  [.act 0 (.startup (.readPort true)), .act 0 .resume, .act 0 .connect, .act 0 (.upgrade 1 1),
    .act 0 (.relay (.client .ends)), .act 0 (.relay .pollClient), .act 0 (.relay .sendElapses),
    .act 0 .resume, .act 0 (.shutdown .tryWait), .act 0 .exits, .act 0 (.shutdown .reaped),
    .act 0 (.shutdown .sweep), .act 0 (.shutdown .removeDir), .act 0 .resume, .act 0 .dropPermit]

def closedRun : List (Action UInt16) := launchRun ++ closingSteps

/-- The Chromium of that session at the end of the run. -/
def closedChromium : Chromium where
  child := .reaped
  groupSignals := [.sigterm, .sigkill]
  leaderKilled := false
  userDataDir := false
  teardowns := 1

def closedRequest : Request UInt16 where
  authorized := true
  launchOptions := .ok ()
  call := .released
  chromium := some closedChromium
  phase := .ended (.closed .clientDisconnected)

theorem tornDown_iff_closedRun :
    ∃ s : State UInt16,
      (machine oneSession Proxy.plainCodes).run (init oneSession) closedRun = some s ∧
      s.procs[0]? = some closedRequest ∧ closedChromium.tornDown = true := by
  refine ⟨_, rfl, rfl, ?_⟩
  refine (@tornDown_iff UInt16 oneSession Proxy.plainCodes _ closedRun 0 closedRequest
    closedChromium (.closed .clientDisconnected) rfl rfl rfl rfl).mpr ?_
  have hnone : ∀ e ∈ closedRun, isInterruption e ≠ true := by decide
  exact Machine.along_of_forall (fun e he s hi => hnone e he (isInterruption_of_interrupts hi)) _

end Pinokio.Server
