/-
# Pinokio.Server.Cap -- permits and running Chromiums

A request holds its permit from the moment it is admitted until nothing but the
permit is left to drop, whatever happens in between. So while every request still
answers for its Chromium, each Chromium that is not down has a permit of its own,
and there are at most `max_sessions` of them. Two kinds of events break the link:
those that take the Chromium away from its request, and a panic in the relay, whose
unwinding drops the permit while a detached task still tears the Chromium down.
-/
import Pinokio.Queue.Conservation
import Pinokio.Server.Teardown

namespace Pinokio.Server

open Proxy (CloseCodes CloseReason)

variable {Code : Type} {limits : Gate.Limits} {codes : CloseCodes Code}

/-- A Chromium was spawned for this request, and its group is not killed or its
child not reaped. -/
def Request.running (r : Request Code) : Bool :=
  match r.chromium with
  | some p => !p.isDown
  | none => false

/-- The number of Chromium processes whose teardown is not complete. -/
def processes (s : State Code) : Nat := s.procs.countP Request.running

/-- From its admission until its permit is dropped, panics aside. -/
def Phase.admitted : Phase Code → Bool
  | launching | starting _ _ | aborting _ _ | connecting | upgrading | relaying _ | closing _ _
  | releasing _ => true
  | _ => false

/-- The step takes a Chromium away from its request, or unwinds a session. -/
def Severs (s : State Code) (e : Action Code) : Prop :=
  ∃ i, Interrupts i s e ∨ e = .act i .panic

theorem isInterruption_of_severs {s : State Code} {e : Action Code} (h : Severs s e) :
    isInterruption e = true := by
  obtain ⟨i, h | rfl⟩ := h
  · exact isInterruption_of_interrupts h
  · rfl

/-! ## Permits -/

/-- An admitted request holds its permit, in every run. -/
theorem holding_step {s s' : AppState} {i : Nat} {r r' : Request Code} {a : RequestAction Code}
    (h : RequestStep limits codes s i r a s' r')
    (hk : r.phase.admitted = true → r.call = .holding) :
    r'.phase.admitted = true → r'.call = .holding := by
  intro hadm
  cases h with
  | gate a g c hp hne h =>
      rw [show ({ r with call := c } : Request Code).phase = r.phase from rfl, hp] at hadm
      cases hadm
  | admitted hp hc => exact hc
  | dropSuspended hs =>
      refine hk ?_
      rcases Phase.suspended_cases hs with ⟨_, _, hp⟩ | ⟨_, _, hp⟩ | hp <;> rw [hp] <;> rfl
  | releaseDetached shutdown g c hp h =>
      rw [show ({ r with call := c } : Request Code).phase = r.phase from rfl, hp] at hadm
      cases hadm
  | exits p p' hc h => exact hk hadm
  | _ =>
      first
        | exact hk (by rw [‹r.phase = _›]; rfl)
        | cases hadm

def HoldingAt (i : Nat) (s : State Code) : Prop :=
  ∀ r, s.procs[i]? = some r → r.phase.admitted = true → r.call = .holding

theorem holdingAt_step {s s' : State Code} {i : Nat} {e : Action Code}
    (h : (machine limits codes).step s e = some s') (hk : HoldingAt i s) : HoldingAt i s' := by
  apply Pool.step_forall h _ _ hk
  · intro r hfresh hadm
    rw [isNew_phase hfresh] at hadm
    cases hadm
  · intro a r r' _ hact _
    exact holding_step (act_inv hact).2

theorem holdingAt_run {s : State Code} {as : List (Action Code)} (i : Nat)
    (hrun : (machine limits codes).run (init limits) as = some s) : HoldingAt i s :=
  Machine.run_invariant (I := HoldingAt i) (fun _ _ _ hst hk => holdingAt_step hst hk) hrun
    fun _ hr => by cases hr

/-! ## Panics -/

def Phase.isDetached : Phase Code → Bool
  | detached _ => true
  | _ => false

theorem notDetached_step {s s' : AppState} {i : Nat} {r r' : Request Code}
    {a : RequestAction Code} (h : RequestStep limits codes s i r a s' r') (ha : a ≠ .panic)
    (hk : r.phase.isDetached = false) : r'.phase.isDetached = false := by
  cases h with
  | gate a g c hp hne h => exact hk
  | panic relay hp => exact absurd rfl ha
  | detach a shutdown p p' shutdown' hp hc h => rwa [hp] at hk
  | releaseDetached shutdown g c hp h => exact hk
  | exits p p' hc h => exact hk
  | _ => rfl

def NotDetachedAt (i : Nat) (s : State Code) : Prop :=
  ∀ r, s.procs[i]? = some r → r.phase.isDetached = false

theorem notDetachedAt_step {s s' : State Code} {i : Nat} {e : Action Code}
    (h : (machine limits codes).step s e = some s') (hno : ¬ Severs s e)
    (hk : NotDetachedAt i s) : NotDetachedAt i s' := by
  apply Pool.step_forall h _ _ hk
  · intro r hfresh
    rw [isNew_phase hfresh]
    rfl
  · intro a r r' he hact _
    apply notDetached_step (act_inv hact).2
    rintro rfl
    exact hno ⟨i, Or.inr he⟩

/-! ## The cap -/

/-- Where nothing was severed, a request whose Chromium runs holds its permit. -/
theorem holding_of_running {s : State Code} {as : List (Action Code)} {i : Nat}
    {r : Request Code} (hrun : (machine limits codes).run (init limits) as = some s)
    (h : Machine.Along (fun s e => ¬ Severs s e) (machine limits codes) (init limits) as)
    (hr : s.procs[i]? = some r) (hrunning : r.running = true) : r.call = .holding := by
  have hkeeps : r.phase.Keeps r.chromium := by
    refine keepsAt_run hrun (Machine.along_mono (fun t e hno hi => hno ⟨i, Or.inl hi⟩) h) r hr
  have hdetached : r.phase.isDetached = false :=
    Machine.run_invariant_along (I := NotDetachedAt i)
      (fun _ _ _ hst hno hk => notDetachedAt_step hst hno hk) hrun h (fun _ hr => by cases hr) r hr
  obtain ⟨p, hp, hup⟩ : ∃ p, r.chromium = some p ∧ p.isDown = false := by
    unfold Request.running at hrunning
    split at hrunning
    next p hp => exact ⟨p, hp, by simpa using hrunning⟩
    next => cases hrunning
  have hnotDown : p.tornDown = false := by simp [Chromium.tornDown, hup]
  refine holdingAt_run i hrun r hr ?_
  rw [hp] at hkeeps
  cases hphase : r.phase with
  | detached shutdown =>
      rw [hphase] at hdetached
      cases hdetached
  | ended ending =>
      rw [hphase] at hkeeps
      rw [hkeeps p rfl] at hnotDown
      cases hnotDown
  | starting | aborting | connecting | upgrading | relaying | closing | releasing => rfl
  | _ =>
      rw [hphase] at hkeeps
      cases hkeeps

/-- The gate of a gateway never hands out more permits than it has. -/
theorem owned_le {s : State Code} (h : (machine limits codes).Reachable (init limits) s) :
    Gate.owned (gateOf s) ≤ limits.maxSessions := by
  have hi := Gate.inv_reachable (gateway_simulates_gate.reachable trivial h)
  have hpermits := hi.permits
  omega

/-- The process cap. Along every run in which no Chromium is taken away from its
request and no session panics, at most `max_sessions` Chromiums are not down, and
none of them is left without the permit of its session. -/
theorem process_cap {s : State Code} {as : List (Action Code)}
    (hrun : (machine limits codes).run (init limits) as = some s)
    (h : Machine.Along (fun s e => ¬ Severs s e) (machine limits codes) (init limits) as) :
    processes s ≤ limits.maxSessions ∧
      ∀ (i : Nat) (r : Request Code), s.procs[i]? = some r → r.running = true →
        r.call = .holding := by
  have hholding := fun i r (hr : s.procs[i]? = some r) => holding_of_running hrun h hr
  refine ⟨?_, hholding⟩
  calc processes s
      ≤ s.procs.countP (Gate.Call.ownsPermit ∘ Request.call) := by
        apply List.countP_mono_left
        intro r hr hrunning
        obtain ⟨i, hi⟩ := List.getElem?_of_mem hr
        show r.call.ownsPermit = true
        rw [hholding i r hi hrunning]
        rfl
    _ = Gate.owned (gateOf s) := by
        rw [← List.countP_map]
        rfl
    _ ≤ limits.maxSessions := owned_le ⟨as, hrun⟩

/-- Request 1 comes while request 0 has the only permit, and waits for it. -/
def queuedRun : List (Action UInt16) :=
  launchRun ++ [.spawn (.new true (.ok ())), .act 1 .check, .act 1 .check, .act 1 .check,
    .act 1 .check, .act 1 (.gate .start), .act 1 (.gate .tryAcquire), .act 1 (.gate .load),
    .act 1 (.gate (.compareExchange false)), .act 1 (.gate .pollPermit)]

/-- The session of request 0 is over, its permit goes to request 1, which spawns a Chromium
of its own. -/
def handedOnRun : List (Action UInt16) :=
  queuedRun ++ closingSteps ++
    [.act 1 (.gate .pollPermit), .act 1 (.gate .dropFutures), .act 1 (.gate .dropSlot),
      .act 1 .resume, .act 1 .spawn, .act 1 (.startup (.tryWait ""))]

theorem process_cap_handedOnRun :
    ∃ s : State UInt16,
      (machine Gate.oneAndOne Proxy.plainCodes).run (init Gate.oneAndOne) handedOnRun = some s ∧
      s.procs.map (Option.isSome ∘ Request.chromium) = [true, true] ∧ processes s ≤ 1 := by
  have hnone : ∀ e ∈ handedOnRun, isInterruption e ≠ true := by decide
  have hAlong : Machine.Along (fun s e => ¬ Severs s e) (machine Gate.oneAndOne Proxy.plainCodes)
      (init Gate.oneAndOne) handedOnRun :=
    Machine.along_of_forall (fun e he s hs => hnone e he (isInterruption_of_severs hs)) _
  exact ⟨_, rfl, rfl, (process_cap rfl hAlong).1⟩

/-- After its client has disconnected, request 0 gives its permit back; request 1 is
admitted and spawns a Chromium of its own. -/
def secondLaunchRun : List (Action UInt16) :=
  droppedRun ++
    [.spawn (.new true (.ok ())), .act 1 .check, .act 1 .check, .act 1 .check, .act 1 .check,
      .act 1 (.gate .start), .act 1 (.gate .tryAcquire), .act 1 .resume, .act 1 .spawn]

/-- Two Chromiums run where one session is allowed. -/
theorem process_cap_exceeded :
    ¬ ∀ (limits : Gate.Limits) (codes : CloseCodes UInt16) (s : State UInt16),
      (machine limits codes).Reachable (init limits) s → processes s ≤ limits.maxSessions := by
  intro h
  have hrun : ∃ s : State UInt16,
      (machine oneSession Proxy.plainCodes).run (init oneSession) secondLaunchRun = some s ∧
      processes s = 2 := ⟨_, rfl, rfl⟩
  obtain ⟨s, hs, htwo⟩ := hrun
  have hcap := h oneSession Proxy.plainCodes s ⟨secondLaunchRun, hs⟩
  rw [htwo] at hcap
  exact absurd hcap (by decide)

end Pinokio.Server
