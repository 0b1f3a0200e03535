/-
# Pinokio.Server.Refusal -- why a request is refused

Every refusal has its cause at an instant at which the request was looked at: the
answer of the check that failed, the counter that was read, the timer that fired,
the cancelled token, or a launch that failed. `Cause` says which, `cause_step`
that a step of a request makes no error without its cause, and `refusal_cause`
carries it over every run. A request that has obtained no permit has not come past
the gate and has no Chromium (`EarlyAt`).
-/
import Pinokio.Queue.Fairness
import Pinokio.Server.Cap

namespace Pinokio.Server

variable {Code : Type} {limits : Gate.Limits} {codes : Proxy.CloseCodes Code}

/-! ## The errors on their way to the client -/

/-- The error that a call returns, or will return when it has unwound. -/
def callError : Gate.Call → Option GatewayError
  | .unwind .queueTimeout | .dropSlot .queueTimeout => some .queueTimeout
  | .unwind .shuttingDown | .dropSlot .shuttingDown => some .shuttingDown
  | .returned error => some error
  | _ => none

/-- The error with which the handler returns, or will return when it has cleaned up. -/
def Phase.error : Phase Code → Option GatewayError
  | starting (.failed error) _ | aborting _ error | releasing (.refused error)
  | ended (.refused error) => some error
  | _ => none

def Request.Errs (r : Request Code) (error : GatewayError) : Prop :=
  r.phase.error = some error ∨ callError r.call = some error

/-- What makes a request end with an error, at the instant at which it does. -/
def Cause (limits : Gate.Limits) (s : AppState) (r : Request Code) : GatewayError → Prop
  | .unauthorized => r.phase = .authorize ∧ r.authorized = false
  | .invalidLaunchOptions reason => r.phase = .parseLaunch ∧ r.launchOptions = .error reason
  | .browserInstalling => r.phase = .checkBrowser ∧ s.browser = false
  | .queueFull => r.call.reading = true ∧ limits.maxQueue ≤ s.gate.queued
  | .queueTimeout => r.call = .select true
  | .shuttingDown => s.shutdown = true
  | .chromiumStartupTimeout | .chromiumUnavailable _ => r.call.admitted = true

/-- A call makes no error without its cause. -/
theorem callError_step {g g' : Gate.Shared} {i : Nat} {c c' : Gate.Call} {a : Gate.CallAction}
    (h : Gate.CallStep limits g i c a g' c') {error : GatewayError}
    (he : callError c' = some error) :
    callError c = some error ∨
      (error = .queueFull ∧ c.reading = true ∧ limits.maxQueue ≤ g.queued) ∨
      (error = .queueTimeout ∧ c = .select true) ∨
      (error = .shuttingDown ∧ g.cancelled = true) := by
  cases h with
  | load | retry =>
      unfold Gate.register at he
      split at he
      next hfull =>
        obtain rfl := Option.some.inj he
        exact Or.inr (Or.inl ⟨rfl, rfl, hfull⟩)
      next => cases he
  | timeout =>
      obtain rfl := Option.some.inj he
      exact Or.inr (Or.inr (Or.inl ⟨rfl, rfl⟩))
  | shutdown elapsed hc =>
      obtain rfl := Option.some.inj he
      exact Or.inr (Or.inr (Or.inr ⟨rfl, hc⟩))
  | abandon outcome hne =>
      cases outcome with
      | queueTimeout | shuttingDown => exact Or.inl he
      | _ => cases he
  | slot outcome =>
      cases outcome with
      | queueTimeout | shuttingDown => exact Or.inl he
      | _ => cases he
  | _ => cases he

/-- A startup fails only in the two ways of its loop. -/
theorem startupStep_failed {elapsed : Bool} {p p' : Chromium} {startup startup' : Startup}
    {a : StartupAction} (h : startupStep elapsed p startup a = some (p', startup'))
    {error : GatewayError} (he : startup' = .failed error) :
    error = .chromiumStartupTimeout ∨ ∃ reason, error = .chromiumUnavailable reason := by
  subst he
  unfold startupStep at h
  split at h
  case h_1 status =>
    split at h
    next => cases (Prod.mk.inj (Option.some.inj h)).2
    next =>
      cases (Prod.mk.inj (Option.some.inj h)).2
      exact Or.inr ⟨_, rfl⟩
  case h_2 reason =>
    cases (Prod.mk.inj (Option.some.inj h)).2
    exact Or.inr ⟨_, rfl⟩
  case h_3 endpoint => cases endpoint <;> cases (Prod.mk.inj (Option.some.inj h)).2
  case h_4 =>
    cases elapsed with
    | true =>
        cases (Prod.mk.inj (Option.some.inj h)).2
        exact Or.inl rfl
    | false => cases (Prod.mk.inj (Option.some.inj h)).2
  case h_5 => cases (Prod.mk.inj (Option.some.inj h)).2
  case h_6 => cases h

/-- The handler makes no error without its cause; an error of the gate is handed on. -/
theorem phaseError_step {s s' : AppState} {i : Nat} {r r' : Request Code}
    {a : RequestAction Code} (h : RequestStep limits codes s i r a s' r')
    (hk : r.phase.admitted = true → r.call = .holding) {error : GatewayError}
    (he : r'.phase.error = some error) : r.Errs error ∨ Cause limits s r error := by
  -- errors of the Chromium come after the admission, and that is their cause
  have hadmitted : r.phase.admitted = true → ∀ e : GatewayError,
      e = .chromiumStartupTimeout ∨ (∃ reason, e = .chromiumUnavailable reason) →
      Cause limits s r e := by
    rintro hadm e (rfl | ⟨reason, rfl⟩)
    · show r.call.admitted = true
      rw [hk hadm]
      rfl
    · show r.call.admitted = true
      rw [hk hadm]
      rfl
  cases h with
  | unauthorized hp hm hauth =>
      obtain rfl := Option.some.inj he
      exact Or.inr ⟨hp, hauth⟩
  | shuttingDown hp hs =>
      obtain rfl := Option.some.inj he
      exact Or.inr hs
  | browserInstalling hp hb =>
      obtain rfl := Option.some.inj he
      exact Or.inr ⟨hp, hb⟩
  | invalidLaunchOptions reason hp hl =>
      obtain rfl := Option.some.inj he
      exact Or.inr ⟨hp, hl⟩
  | gate a g c hp hne h => exact Or.inl (Or.inl he)
  | refused e hp hc =>
      obtain rfl := Option.some.inj he
      exact Or.inl (Or.inr (by rw [hc]; rfl))
  | spawnFails e hp =>
      obtain rfl := Option.some.inj he
      refine Or.inr (hadmitted (by rw [hp]; rfl) _ (Or.inr ?_))
      cases e <;> exact ⟨_, rfl⟩
  | startup a startup elapsed p p' startup' hp hc h =>
      cases startup' with
      | failed e =>
          obtain rfl := Option.some.inj he
          exact Or.inr (hadmitted (by rw [hp]; rfl) _ (startupStep_failed h rfl))
      | _ => cases he
  -- the error, if there is one, was there before the step
  | startupElapses startup elapsed hp =>
      refine Or.inl (Or.inl ?_)
      rw [hp]
      cases startup with
      | failed e => exact he
      | _ => cases he
  | startFailed e elapsed hp =>
      refine Or.inl (Or.inl ?_)
      rw [hp]
      exact he
  | connectFails e hp =>
      obtain rfl := Option.some.inj he
      exact Or.inr (hadmitted (by rw [hp]; rfl) _ (Or.inr ⟨_, rfl⟩))
  | abort a shutdown e p p' shutdown' hp hc h =>
      refine Or.inl (Or.inl ?_)
      rw [hp]
      exact he
  | aborted e hp =>
      refine Or.inl (Or.inl ?_)
      rw [hp]
      exact he
  | release ending g c hp h =>
      refine Or.inl (Or.inl ?_)
      rw [hp]
      cases ending with
      | refused e => exact he
      | _ => cases he
  | releaseDetached shutdown g c hp h => exact Or.inl (Or.inl he)
  | exits p p' hc h => exact Or.inl (Or.inl he)
  | _ => cases he

/-- A request makes no error without its cause. -/
theorem cause_step {s s' : AppState} {i : Nat} {r r' : Request Code} {a : RequestAction Code}
    (h : RequestStep limits codes s i r a s' r')
    (hk : r.phase.admitted = true → r.call = .holding) {error : GatewayError}
    (he : r'.Errs error) : r.Errs error ∨ Cause limits s r error := by
  rcases he with he | he
  · exact phaseError_step h hk he
  rcases h.call_cases with ⟨-, hcall⟩ | ⟨b, hb, -⟩
  · rw [hcall] at he
    exact Or.inl (Or.inr he)
  rcases callError_step (Gate.callStep_inv hb) he with h | ⟨rfl, h⟩ | ⟨rfl, h⟩ | ⟨rfl, h⟩
  · exact Or.inl (Or.inr h)
  · exact Or.inr h
  · exact Or.inr h
  · exact Or.inr h

/-! ## Every run -/

/-- Every error of a request has its cause among the states passed so far. -/
structure Caused (limits : Gate.Limits) (past : List (State Code)) (s : State Code) : Prop where
  holding : ∀ i, HoldingAt i s
  cause : ∀ (i : Nat) (r : Request Code), s.procs[i]? = some r → ∀ error, r.Errs error →
    ∃ t ∈ past, ∃ q, t.procs[i]? = some q ∧ Cause limits t.shared q error

theorem isNew_not_errs {r : Request Code} (h : r.isNew = true) (error : GatewayError) :
    ¬ r.Errs error := by
  rintro (he | he)
  · rw [isNew_phase h] at he
    cases he
  · rw [isNew_call h] at he
    cases he

theorem caused_step {past : List (State Code)} {s s' : State Code} {e : Action Code}
    (h : (machine limits codes).step s e = some s') (hs : s ∈ past)
    (hc : Caused limits past s) : Caused limits (past ++ [s']) s' := by
  refine ⟨fun i => holdingAt_step h (hc.holding i), ?_⟩
  intro i r' hr' error he
  have hpast : ∀ {P : State Code → Prop}, (∃ t ∈ past, P t) → ∃ t ∈ past ++ [s'], P t :=
    fun ⟨t, ht, hP⟩ => ⟨t, List.mem_append_left _ ht, hP⟩
  rcases Pool.step_proc h hr' with ⟨-, hfresh⟩ | ⟨a, r, rfl, hr, hact⟩ | ⟨hr, -⟩
  · exact absurd he (isNew_not_errs hfresh error)
  · rcases cause_step (act_inv hact).2 (hc.holding i r hr) he with he | hcause
    · exact hpast (hc.cause i r hr error he)
    · exact hpast ⟨s, hs, r, hr, hcause⟩
  · exact hpast (hc.cause i r' hr error he)

/-- Whoever is refused, in whatever run, is refused for a cause. -/
theorem refusal_cause {s : State Code} {as : List (Action Code)} {i : Nat} {r : Request Code}
    {error : GatewayError} (hrun : (machine limits codes).run (init limits) as = some s)
    (hr : s.procs[i]? = some r) (he : r.phase = .ended (.refused error)) :
    ∃ t ∈ (machine limits codes).trace (init limits) as, ∃ q, t.procs[i]? = some q ∧
      Cause limits t.shared q error := by
  have hcaused := Machine.run_trace_invariant (I := Caused limits)
    (fun _ _ _ _ hst hs hc => caused_step hst hs hc) hrun
    ⟨fun i r hr => (by cases hr), fun i r hr => (by cases hr)⟩
  exact hcaused.cause i r hr error (Or.inl (by rw [he]; rfl))

/-! ## Before the admission -/

/-- Not past the gate. -/
def Phase.early : Phase Code → Bool
  | authorize | checkShutdown | checkBrowser | parseLaunch | acquiring | ended (.refused _)
  | ended .dropped => true
  | _ => false

/-- A call that has obtained a permit has obtained it for good. -/
theorem callStep_admitted {g g' : Gate.Shared} {i : Nat} {c c' : Gate.Call} {a : Gate.CallAction}
    (h : Gate.CallStep limits g i c a g' c') (hc : c.admitted = true) : c'.admitted = true := by
  cases h with
  | abandon outcome hne => cases outcome <;> first | exact absurd rfl hne | cases hc
  | slot outcome => cases outcome <;> first | rfl | cases hc
  | forget | release => rfl
  | _ => cases hc

theorem admitted_step {s s' : AppState} {i : Nat} {r r' : Request Code} {a : RequestAction Code}
    (h : RequestStep limits codes s i r a s' r') (hr : r.call.admitted = true) :
    r'.call.admitted = true := by
  rcases h.call_cases with ⟨-, hcall⟩ | ⟨b, hb, -⟩
  · rwa [hcall]
  · exact callStep_admitted (Gate.callStep_inv hb) hr

theorem not_admitted_of_step {s s' : AppState} {i : Nat} {r r' : Request Code}
    {a : RequestAction Code} (h : RequestStep limits codes s i r a s' r')
    (hr' : r'.call.admitted = false) : r.call.admitted = false := by
  by_contra hadm
  rw [admitted_step h (by simpa using hadm)] at hr'
  cases hr'

/-- Without a permit there is no way past the gate, and no Chromium. -/
def Request.Waits (r : Request Code) : Prop :=
  r.call.admitted = false → r.phase.early = true ∧ r.chromium = none

theorem waits_step {s s' : AppState} {i : Nat} {r r' : Request Code} {a : RequestAction Code}
    (h : RequestStep limits codes s i r a s' r')
    (hk : r.phase.admitted = true → r.call = .holding) (hw : r.Waits) : r'.Waits := by
  intro hc'
  have hc := not_admitted_of_step h hc'
  obtain ⟨hearly, hnone⟩ := hw hc
  have hlate : ∀ {p : Phase Code}, r.phase = p → p.early = true := fun hp => hp ▸ hearly
  have hheld : r.phase.admitted = true → False := fun hadm => by
    rw [hk hadm] at hc
    cases hc
  cases h with
  | gate a g c hp hne h => exact ⟨hearly, hnone⟩
  | admitted hp hcall =>
      rw [hcall] at hc
      cases hc
  | spawn hp => exact absurd (by rw [hp]; rfl) hheld
  | spawnFails error hp => exact absurd (by rw [hp]; rfl) hheld
  | dropSuspended hs =>
      refine absurd ?_ hheld
      rcases Phase.suspended_cases hs with ⟨_, _, hp⟩ | ⟨_, _, hp⟩ | hp <;> rw [hp] <;> rfl
  | release ending g c hp h => exact absurd (by rw [hp]; rfl) hheld
  | releaseDetached shutdown g c hp h => cases hlate hp
  | detach a shutdown p p' shutdown' hp hcp h => cases hlate hp
  | detached hp hcall => cases hlate hp
  | exits p p' hcp h =>
      rw [hnone] at hcp
      cases hcp
  | _ =>
      first
        | exact ⟨rfl, hnone⟩
        | exact absurd (by rw [‹r.phase = _›]; rfl) hheld

def WaitsAt (i : Nat) (s : State Code) : Prop := ∀ r, s.procs[i]? = some r → r.Waits

theorem isNew_waits {r : Request Code} (h : r.isNew = true) : r.Waits := by
  intro _
  unfold Request.isNew at h
  split at h
  next hphase _ hc => exact ⟨by rw [hphase]; rfl, hc⟩
  next => cases h

theorem waitsAt_run {s : State Code} {as : List (Action Code)} (i : Nat)
    (hrun : (machine limits codes).run (init limits) as = some s) : WaitsAt i s := by
  have hboth := Machine.run_invariant (I := fun s => HoldingAt i s ∧ WaitsAt i s)
    (fun s e s' hst hs => ⟨holdingAt_step hst hs.1, ?_⟩) hrun
    ⟨fun _ hr => (by cases hr), fun _ hr => (by cases hr)⟩
  · exact hboth.2
  · apply Pool.step_forall hst (fun r hfresh => isNew_waits hfresh) _ hs.2
    intro a r r' _ hact hr
    exact waits_step (act_inv hact).2 (hs.1 r hr)

end Pinokio.Server
