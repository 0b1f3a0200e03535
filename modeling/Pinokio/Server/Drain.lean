/-
# Pinokio.Server.Drain -- what is cleaned up when `main` returns

`main` waits for the connections that axum serves, then for the sessions that the
tracker knows. Between the two a session can be out of sight: its response is out
but the callback of its upgrade has not run, so that nothing is tracked yet, or its
relay panicked and a task that nobody tracks has its Chromium. `main` leaves such a
session behind when it finds the tracker empty (`ExitsEarly`).
-/
import Pinokio.Server.Cap

namespace Pinokio.Server

variable {Code : Type} {limits : Gate.Limits} {codes : Proxy.CloseCodes Code}

/-- A Chromium that neither axum nor the tracker waits for: with a callback that has
not run, or with a task spawned by the `ChromiumGuard`. -/
def Phase.unseen : Phase Code → Bool
  | upgrading => true
  | detached shutdown => shutdown ≠ .finished
  | _ => false

/-- The tracker is found empty while some Chromium is out of sight. -/
def ExitsEarly (s : State Code) (e : Action Code) : Prop :=
  e = .env .drained ∧ ∃ r ∈ s.procs, r.phase.unseen = true

/-- Only this step ends `main` with success. -/
def isDrained : Action Code → Bool
  | .env .drained => true
  | _ => false

/-- Every Chromium launched so far went through its whole teardown. -/
def AllTornDown (s : State Code) : Prop :=
  ∀ r ∈ s.procs, ∀ p, r.chromium = some p → p.tornDown = true

/-- Nothing is left to do for the Chromium of this request, if it ever had one. -/
def Phase.settled : Phase Code → Bool
  | authorize | releasing _ | ended _ | detached .finished => true
  | _ => false

/-! ## What `main` has waited for -/

/-- A request that `main` need not wait for before it drains the sessions. -/
def Phase.served (phase : Phase Code) : Prop := phase.inHandler = false

/-- What holds of every request once `main` is there. -/
def Main.Awaited : Main → Phase Code → Prop
  | .draining, phase => phase.served
  | .exited true, phase => phase.settled = true
  | _, _ => True

/-- A connection that axum no longer accepts brings no request back into the handler. -/
theorem served_step {s s' : AppState} {i : Nat} {r r' : Request Code} {a : RequestAction Code}
    (h : RequestStep limits codes s i r a s' r') (hm : s.main.accepts = false)
    (hr : r.phase.served) : r'.phase.served := by
  have hclosed : ∀ {p : Phase Code}, r.phase = p → p.inHandler = true → False := by
    intro p hp hin
    rw [Phase.served, hp, hin] at hr
    cases hr
  cases h with
  | authorized hp hmain hauth | unauthorized hp hmain hauth =>
      rw [hm] at hmain
      cases hmain
  | gate a g c hp hne h => exact hr
  | exits p p' hc h => exact hr
  | releaseDetached shutdown g c hp h => exact hr
  | dropSuspended hs => rfl
  | _ =>
      first
        | rfl
        | exact (hclosed ‹r.phase = _› rfl).elim

theorem awaited_of_isNew (m : Main) {r : Request Code} (h : r.isNew = true) :
    m.Awaited r.phase := by
  rw [isNew_phase h]
  unfold Main.Awaited
  split
  · rfl
  · rfl
  · trivial

/-- A phase in which neither axum nor the tracker nor the eye finds a session. -/
theorem settled_of_unseen {phase : Phase Code} (hserved : phase.served)
    (htracked : phase.tracked = false) (hseen : phase.unseen = false) :
    phase.settled = true := by
  cases phase with
  | detached shutdown =>
      cases shutdown with
      | finished => rfl
      | _ => cases hseen
  | authorize | releasing | ended => rfl
  | upgrading => cases hseen
  | relaying | closing => cases htracked
  | _ => cases hserved

/-- What `main` waits for holds of every request there is. -/
def Awaited (s : State Code) : Prop := ∀ r ∈ s.procs, s.shared.main.Awaited r.phase

theorem awaited_env {s : AppState} {s' : AppState} {requests : List (Request Code)} {e : EnvAction}
    (h : (program limits codes).env s requests e = some s')
    (hno : e = .drained → ∀ r ∈ requests, r.phase.unseen = false)
    (ha : ∀ r ∈ requests, s.main.Awaited r.phase) :
    ∀ r ∈ requests, s'.main.Awaited r.phase := by
  obtain ⟨-, h⟩ := Option.ite_none_left_eq_some.mp h
  intro r hr
  cases e with
  | browserReady =>
      obtain ⟨-, h⟩ := Option.ite_none_left_eq_some.mp h
      obtain rfl := Option.some.inj h
      exact ha r hr
  | browserFails =>
      obtain ⟨-, h⟩ := Option.ite_none_left_eq_some.mp h
      obtain rfl := Option.some.inj h
      exact ha r hr
  | signal =>
      obtain ⟨-, h⟩ := Option.ite_none_right_eq_some.mp h
      obtain rfl := Option.some.inj h
      trivial
  | graceElapses =>
      simp only [envStep] at h
      split at h
      next hm =>
        obtain rfl := Option.some.inj h
        exact ha r hr
      next hm =>
        obtain rfl := Option.some.inj h
        exact ha r hr
      next => cases h
  | served =>
      obtain ⟨⟨-, hserved⟩, h⟩ := Option.ite_none_right_eq_some.mp h
      obtain rfl := Option.some.inj h
      exact hserved r hr
  | drained =>
      obtain ⟨⟨hm, htracked⟩, h⟩ := Option.ite_none_right_eq_some.mp h
      obtain rfl := Option.some.inj h
      have hserved := ha r hr
      rw [hm] at hserved
      have hsettled := settled_of_unseen hserved (htracked r hr) (hno rfl r hr)
      show Main.Awaited (.exited !s.startupFailed) r.phase
      cases s.startupFailed with
      | true => trivial
      | false => exact hsettled
  | serveFails | drainElapses =>
      obtain ⟨-, h⟩ := Option.ite_none_right_eq_some.mp h
      obtain rfl := Option.some.inj h
      trivial

theorem awaited_step {s s' : State Code} {e : Action Code}
    (h : (machine limits codes).step s e = some s') (hno : ¬ ExitsEarly s e)
    (ha : Awaited s) : Awaited s' := by
  cases e with
  | spawn c =>
      obtain ⟨hnew, rfl⟩ := Pool.step_spawn.mp h
      intro r hr
      rcases List.mem_append.mp hr with hr | hr
      · exact ha r hr
      · obtain rfl := List.mem_singleton.mp hr
        exact awaited_of_isNew _ hnew
  | act i a =>
      obtain ⟨r, shared, r', hr, hact, rfl⟩ := Pool.step_act.mp h
      obtain ⟨hrunning, hstep⟩ := act_inv hact
      -- a request changes nothing about where `main` is
      have hmain : shared.main = s.shared.main := by
        rcases hstep.call_cases with ⟨rfl, -⟩ | ⟨b, -, heq⟩
        · rfl
        · rw [heq]
      intro q hq
      show shared.main.Awaited q.phase
      rw [hmain]
      rcases List.mem_or_eq_of_mem_set hq with hq | rfl
      · exact ha q hq
      · have hserved := ha r (List.mem_of_getElem? hr)
        cases hm : s.shared.main with
        | serving | stopping => trivial
        | draining =>
            rw [hm] at hserved
            exact served_step hstep (by rw [hm]; rfl) hserved
        | exited success =>
            rw [hm] at hrunning
            cases hrunning
  | env e =>
      obtain ⟨shared, henv, rfl⟩ := Pool.step_env.mp h
      apply awaited_env henv _ ha
      rintro rfl r hr
      by_contra hseen
      exact hno ⟨rfl, r, hr, by simpa using hseen⟩

/-! ## Runs -/

/-- A settled request that answers for its Chromium has torn it down. -/
theorem tornDown_of_settled {phase : Phase Code} {c : Option Chromium} {p : Chromium}
    (hs : phase.settled = true) (hk : phase.Keeps c) (hc : c = some p) : p.tornDown = true := by
  cases phase with
  | authorize =>
      have hnone : c = none := hk
      rw [hnone] at hc
      cases hc
  | releasing ending | ended ending => exact hk p hc
  | detached shutdown =>
      cases shutdown with
      | finished => exact keeps_finished hk p hc
      | _ => cases hs
  | _ => cases hs

/-- Out of sight a Chromium is still to be torn down. -/
theorem not_tornDown_of_unseen {phase : Phase Code} {c : Option Chromium}
    (hs : phase.unseen = true) (hk : phase.Keeps c) : ∃ p, c = some p ∧ p.tornDown = false := by
  cases phase with
  | upgrading =>
      obtain ⟨p, hc, hlive⟩ := hk
      exact ⟨p, hc, not_tornDown_of_lost hlive.2⟩
  | detached shutdown =>
      obtain ⟨p, hc, hkeeps⟩ := hk
      refine ⟨p, hc, not_tornDown_of_lost ?_⟩
      cases shutdown with
      | tryWait | graceWait | killWait => exact hkeeps.2
      | sweep | removeDir => exact hkeeps.1.2
      | finished => cases hs
  | _ => cases hs

/-- After the process is gone, what it left behind stays as it is. -/
theorem exited_step {s s' : State Code} {e : Action Code}
    (h : (machine limits codes).step s e = some s') (hm : s.shared.main.isExited = true) :
    s'.shared.main.isExited = true ∧ ∀ r ∈ s.procs, r ∈ s'.procs := by
  cases e with
  | spawn c =>
      obtain ⟨-, rfl⟩ := Pool.step_spawn.mp h
      exact ⟨hm, fun r hr => List.mem_append_left _ hr⟩
  | act i a =>
      obtain ⟨r, shared, r', hr, hact, rfl⟩ := Pool.step_act.mp h
      rw [(act_inv hact).1] at hm
      cases hm
  | env e =>
      obtain ⟨shared, henv, rfl⟩ := Pool.step_env.mp h
      obtain ⟨hrunning, -⟩ := Option.ite_none_left_eq_some.mp henv
      exact absurd hm hrunning

theorem exited_run {s s' : State Code} {as : List (Action Code)} {r : Request Code}
    (hrun : (machine limits codes).run s as = some s') (hm : s.shared.main.isExited = true)
    (hr : r ∈ s.procs) : r ∈ s'.procs := by
  have hboth := Machine.run_invariant
    (I := fun t : State Code => t.shared.main.isExited = true ∧ r ∈ t.procs)
    (fun t e u hst ht => ⟨(exited_step hst ht.1).1, (exited_step hst ht.1).2 r ht.2⟩)
    hrun ⟨hm, hr⟩
  exact hboth.2

/-- The step that finds the tracker empty ends the process and touches no request. -/
theorem drained_inv {s s' : State Code}
    (h : (machine limits codes).step s (.env .drained) = some s') :
    s'.shared.main.isExited = true ∧ s'.procs = s.procs := by
  obtain ⟨shared, henv, rfl⟩ := Pool.step_env.mp h
  obtain ⟨-, henv⟩ := Option.ite_none_left_eq_some.mp henv
  obtain ⟨-, henv⟩ := Option.ite_none_right_eq_some.mp henv
  obtain rfl := Option.some.inj henv
  exact ⟨rfl, rfl⟩

/-- What `main` leaves behind. When it has returned with success, every Chromium
launched in the run went through its whole teardown exactly when no step of the run
took a Chromium away from its request and the tracker was not found empty while a
callback of an upgrade or a task of a guard still had one. -/
theorem drained_iff {s : State Code} {as : List (Action Code)}
    (hrun : (machine limits codes).run (init limits) as = some s)
    (hmain : s.shared.main = .exited true) :
    AllTornDown s ↔
      Machine.Along (fun s e => (∀ i, ¬ Interrupts i s e) ∧ ¬ ExitsEarly s e)
        (machine limits codes) (init limits) as := by
  constructor
  · intro hdown
    by_contra hbreak
    obtain ⟨bs, e, cs, t, u, rfl, hbs, hAlong, hfirst, hst, hcs⟩ :=
      Machine.exists_break_of_not_along hrun hbreak
    have hkeeps : ∀ i, KeepsAt i t := fun i =>
      keepsAt_run hbs (Machine.along_mono (fun s e hP => hP.1 i) hAlong)
    rw [not_and_or, not_forall] at hfirst
    rcases hfirst with ⟨i, hi⟩ | hearly
    -- the first break takes a Chromium away: it is lost for good
    · obtain ⟨r, hr, hlost⟩ := lostAt_run hcs (lostAt_of_interrupt hst (not_not.mp hi) (hkeeps i))
      obtain ⟨p, hp, hzero⟩ : ∃ p, r.chromium = some p ∧ p.teardowns = 0 := by
        rcases lost_phase hlost with ⟨ending, hphase⟩ | ⟨ending, hphase⟩
        · rwa [hphase] at hlost
        · rwa [hphase] at hlost
      have hdown := hdown r (List.mem_of_getElem? hr) p hp
      rw [not_tornDown_of_lost hzero] at hdown
      cases hdown
    -- the first break ends the process under a session out of sight
    · obtain ⟨rfl, r, hr, hunseen⟩ := not_not.mp hearly
      obtain ⟨hexited, hprocs⟩ := drained_inv hst
      obtain ⟨i, hi⟩ := List.getElem?_of_mem hr
      obtain ⟨p, hp, hnot⟩ := not_tornDown_of_unseen hunseen (hkeeps i r hi)
      have hdown := hdown r (exited_run hcs hexited (hprocs ▸ hr)) p hp
      rw [hnot] at hdown
      cases hdown
  · intro hAlong r hr p hp
    obtain ⟨i, hi⟩ := List.getElem?_of_mem hr
    have hkeeps := keepsAt_run hrun (Machine.along_mono (fun s e hP => hP.1 i) hAlong) r hi
    have hawaited : Awaited s :=
      Machine.run_invariant_along (I := Awaited)
        (fun _ _ _ hst hP ha => awaited_step hst hP.2 ha) hrun hAlong (fun r hr => by cases hr)
    have hsettled := hawaited r hr
    rw [hmain] at hsettled
    exact tornDown_of_settled hsettled hkeeps hp

/-- The session of request 0 is over and that of request 1 is open when the server is stopped.
It is open after the grace period too, and its Chromium has to be killed. -/
def stoppingSteps : List (Action UInt16) :=
  [.act 1 (.startup (.readPort true)), .act 1 .resume, .act 1 .connect, .act 1 (.upgrade 1 1),
    .env .signal, .env .served, .env .graceElapses, .act 1 (.relay .cancel),
    .act 1 (.relay .pollCancel), .act 1 (.relay .sendDone), .act 1 (.relay .sendDone),
    .act 1 .resume, .act 1 (.shutdown .tryWait), .act 1 (.shutdown .elapse), .act 1 .exits,
    .act 1 (.shutdown .reaped), .act 1 (.shutdown .sweep), .act 1 (.shutdown .removeDir),
    .act 1 .resume, .act 1 .dropPermit]

def stoppedRun : List (Action UInt16) := handedOnRun ++ stoppingSteps ++ [.env .drained]

theorem drained_iff_stoppedRun :
    ∃ s : State UInt16,
      (machine Gate.oneAndOne Proxy.plainCodes).run (init Gate.oneAndOne) stoppedRun = some s ∧
      s.shared.main = .exited true ∧ s.procs.length = 2 ∧ AllTornDown s := by
  have hrun : ∃ s t : State UInt16,
      (machine Gate.oneAndOne Proxy.plainCodes).run (init Gate.oneAndOne) stoppedRun = some s ∧
      s.shared.main = .exited true ∧ s.procs.length = 2 ∧
      (machine Gate.oneAndOne Proxy.plainCodes).run (init Gate.oneAndOne)
        (handedOnRun ++ stoppingSteps) = some t ∧
      t.procs.map (Phase.unseen ∘ Request.phase) = [false, false] :=
    ⟨_, _, rfl, rfl, rfl, rfl, rfl⟩
  obtain ⟨s, t, hs, hmain, hlen, ht, hseen⟩ := hrun
  refine ⟨s, hs, hmain, hlen, (drained_iff hs hmain).mpr ?_⟩
  have hbefore : ∀ e ∈ handedOnRun ++ stoppingSteps,
      isInterruption e ≠ true ∧ isDrained e ≠ true := by decide
  rw [stoppedRun, Machine.along_append ht]
  constructor
  · apply Machine.along_of_forall
    intro e he s
    refine ⟨fun i hi => (hbefore e he).1 (isInterruption_of_interrupts hi), fun hearly => ?_⟩
    exact (hbefore e he).2 (by rw [hearly.1]; rfl)
  · refine ⟨⟨fun i hi => ?_, fun hearly => ?_⟩, fun _ _ => trivial⟩
    · exact absurd (isInterruption_of_interrupts hi) (by decide)
    · obtain ⟨-, r, hr, hunseen⟩ := hearly
      have hmem : r.phase.unseen ∈ t.procs.map (Phase.unseen ∘ Request.phase) :=
        List.mem_map_of_mem (f := Phase.unseen ∘ Request.phase) hr
      rw [hseen, hunseen] at hmem
      exact absurd hmem (by decide)

/-- The response of a session is out, and its callback has not run, when the server
is stopped and finds nothing to wait for. -/
def unseenRun : List (Action UInt16) :=
  launchRun ++
    [.act 0 (.startup (.readPort true)), .act 0 .resume, .act 0 .connect, .env .signal,
      .env .served, .env .drained]

/-- `main` has returned with success, and the Chromium of that session still runs. -/
theorem leftBehind_unseenRun :
    ¬ ∀ (limits : Gate.Limits) (codes : Proxy.CloseCodes UInt16) (s : State UInt16),
      (machine limits codes).Reachable (init limits) s → s.shared.main = .exited true →
      AllTornDown s := by
  intro h
  have hrun : ∃ (s : State UInt16) (r : Request UInt16),
      (machine oneSession Proxy.plainCodes).run (init oneSession) unseenRun = some s ∧
      s.shared.main = .exited true ∧ s.procs = [r] ∧ r.chromium = some .spawned :=
    ⟨_, _, rfl, rfl, rfl, rfl⟩
  obtain ⟨s, r, hs, hmain, hprocs, hr⟩ := hrun
  have hdown := h oneSession Proxy.plainCodes s ⟨unseenRun, hs⟩ hmain r (by simp [hprocs]) _ hr
  cases hdown

end Pinokio.Server
