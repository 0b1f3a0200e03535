/-
# Pinokio.Server.NoAdmission -- requests that are not admitted when the shutdown begins

The shutdown token is looked at once by the handler and once more in the `select!`
of the gate, where it competes with the permit; the fast path of the gate does not
look at it. So a request obtains a permit after the cancellation exactly when it
finds one: at its `try_acquire`, or at a poll of its acquire future (`Finds`). A
request that finds none is turned away (`TurnedAway`): its handler can end it with an
error without anybody's help, through the shutdown arm if it is waiting, and it ends
with no other error than the checks and the gate have for it.
-/
import Pinokio.Server.Refusal

namespace Pinokio.Server

variable {Code : Type} {limits : Gate.Limits} {codes : Proxy.CloseCodes Code}

/-- A permit is there for request `i` to take: a free one, or one that was handed
to it. -/
def PermitAvailable (i : Nat) (s : State Code) : Prop :=
  0 < s.shared.gate.semaphore.permits ∨ i ∈ s.shared.gate.semaphore.assigned

/-- In this step request `i` looks for a permit, and one is there. -/
def Finds (i : Nat) (s : State Code) (e : Action Code) : Prop :=
  (e = .act i (.gate .tryAcquire) ∨ e = .act i (.gate .pollPermit)) ∧ PermitAvailable i s

/-- Request `i`, if it is there, has not obtained a permit. -/
def Unadmitted (i : Nat) (s : State Code) : Prop :=
  ∀ r, s.procs[i]? = some r → r.call.admitted = false

/-! ## Who is admitted -/

/-- A call obtains a permit at its fast path or at a poll of its acquire future. -/
theorem callStep_admits {g g' : Gate.Shared} {i : Nat} {c c' : Gate.Call} {a : Gate.CallAction}
    (h : Gate.CallStep limits g i c a g' c') (hc : c.admitted = false)
    (hc' : c'.admitted = true) :
    (a = .tryAcquire ∧ 0 < g.semaphore.permits) ∨
      (a = .pollPermit ∧ (g.semaphore.poll i).2 = true) := by
  cases h with
  | fast hp => exact Or.inl ⟨rfl, hp⟩
  | granted elapsed hready => exact Or.inr ⟨rfl, hready⟩
  | load | retry =>
      unfold Gate.register at hc'
      split at hc' <;> cases hc'
  | abandon outcome hne => cases outcome <;> first | exact absurd rfl hne | cases hc'
  | slot outcome =>
      cases outcome with
      | acquired => cases hc
      | _ => cases hc'
  | forget | release => cases hc
  | _ => cases hc'

theorem permit_of_poll {g : Gate.Shared} {i : Nat} (h : (g.semaphore.poll i).2 = true) :
    0 < g.semaphore.permits ∨ i ∈ g.semaphore.assigned := by
  rcases g.semaphore.poll_cases i with ⟨ha, -⟩ | ⟨-, -, heq⟩ | ⟨-, hp, -⟩ | ⟨-, -, heq⟩
  · exact Or.inr ha
  · rw [heq] at h
    cases h
  · exact Or.inl hp
  · rw [heq] at h
    cases h

theorem requestStep_admits {s s' : AppState} {i : Nat} {r r' : Request Code}
    {a : RequestAction Code} (h : RequestStep limits codes s i r a s' r')
    (hc : r.call.admitted = false) (hc' : r'.call.admitted = true) :
    (a = .gate .tryAcquire ∧ 0 < s.gate.semaphore.permits) ∨
      (a = .gate .pollPermit ∧ (s.gate.semaphore.poll i).2 = true) := by
  cases h with
  | gate b g c hp hne h =>
      rcases callStep_admits (Gate.callStep_inv h) hc hc' with ⟨rfl, hp⟩ | ⟨rfl, hready⟩
      · exact Or.inl ⟨rfl, hp⟩
      · exact Or.inr ⟨rfl, hready⟩
  | release ending g c hp h =>
      rcases callStep_admits (Gate.callStep_inv h) hc hc' with ⟨ha, -⟩ | ⟨ha, -⟩ <;> cases ha
  | releaseDetached shutdown g c hp h =>
      rcases callStep_admits (Gate.callStep_inv h) hc hc' with ⟨ha, -⟩ | ⟨ha, -⟩ <;> cases ha
  | _ =>
      rw [show r.call.admitted = true from hc'] at hc
      cases hc

theorem unadmitted_step {s s' : State Code} {i : Nat} {e : Action Code}
    (h : (machine limits codes).step s e = some s') (hno : ¬ Finds i s e)
    (hu : Unadmitted i s) : Unadmitted i s' := by
  apply Pool.step_forall h _ _ hu
  · intro r hfresh
    rw [isNew_call hfresh]
    rfl
  · intro a r r' he hact _ hr
    by_contra hadm
    have hadm : r'.call.admitted = true := by simpa using hadm
    rcases requestStep_admits (act_inv hact).2 hr hadm with ⟨rfl, hp⟩ | ⟨rfl, hready⟩
    · exact hno ⟨Or.inl he, Or.inl hp⟩
    · exact hno ⟨Or.inr he, permit_of_poll hready⟩

/-- Some request has obtained a permit, and that stays so. -/
def AdmittedAt (i : Nat) (s : State Code) : Prop :=
  ∃ r, s.procs[i]? = some r ∧ r.call.admitted = true

theorem admittedAt_run {s s' : State Code} {as : List (Action Code)} {i : Nat}
    (hrun : (machine limits codes).run s as = some s') (h : AdmittedAt i s) :
    AdmittedAt i s' := by
  refine Machine.run_invariant (I := AdmittedAt i) (fun t e t' hst => ?_) hrun h
  apply Pool.step_exists hst
  intro a r r' _ hact _
  exact admitted_step (act_inv hact).2

/-- A call that looks for a permit that is there obtains it. -/
theorem callStep_finds {g g' : Gate.Shared} {i : Nat} {c c' : Gate.Call} {a : Gate.CallAction}
    (h : Gate.CallStep limits g i c a g' c') (hwf : g.semaphore.Wf)
    (hwaits : i ∈ g.semaphore.assigned → c.waits = true)
    (ha : a = .tryAcquire ∨ a = .pollPermit)
    (hpermit : 0 < g.semaphore.permits ∨ i ∈ g.semaphore.assigned) : c'.admitted = true := by
  cases h with
  | fast hp => rfl
  | granted elapsed hready => rfl
  | slow hp =>
      rcases hpermit with hpos | hassigned
      · omega
      · cases hwaits hassigned
  | parked elapsed hready =>
      rcases g.semaphore.poll_cases i with ⟨-, heq⟩ | ⟨hna, hw, -⟩ | ⟨-, -, heq⟩ | ⟨hpend, hzero, -⟩
      · rw [heq] at hready
        cases hready
      · rcases hpermit with hpos | hassigned
        · rw [hwf.idle hpos] at hw
          cases hw
        · exact absurd hassigned hna
      · rw [heq] at hready
        cases hready
      · rcases hpermit with hpos | hassigned
        · omega
        · exact absurd (Or.inr hassigned) hpend
  | _ => rcases ha with ha | ha <;> cases ha

/-- Who looks for a permit that is there, obtains it. -/
theorem admittedAt_of_finds {s s' : State Code} {i : Nat} {e : Action Code}
    (hreach : (machine limits codes).Reachable (init limits) s)
    (h : (machine limits codes).step s e = some s') (hf : Finds i s e) : AdmittedAt i s' := by
  have hinv := Gate.inv_reachable (gateway_simulates_gate.reachable trivial hreach)
  obtain ⟨hlook, hpermit⟩ := hf
  obtain ⟨b, hb, rfl⟩ : ∃ b, (b = .tryAcquire ∨ b = .pollPermit) ∧ e = .act i (.gate b) := by
    rcases hlook with rfl | rfl
    · exact ⟨_, Or.inl rfl, rfl⟩
    · exact ⟨_, Or.inr rfl, rfl⟩
  obtain ⟨r, shared, r', hr, hact, rfl⟩ := Pool.step_act.mp h
  refine ⟨r', Pool.getElem?_set_of_some hr r', ?_⟩
  have hcall : (gateOf s).procs[i]? = some r.call := by
    simp [gateOf, Pool.State.map, hr]
  have hwaits : i ∈ s.shared.gate.semaphore.assigned → r.call.waits = true := by
    intro ha
    obtain ⟨d, hd, hdw⟩ := hinv.pending i (Or.inr ha)
    obtain rfl := Option.some.inj (hd.symm.trans hcall)
    exact hdw
  cases (act_inv hact).2 with
  | gate _ g c hp hne hstep =>
      exact callStep_finds (Gate.callStep_inv hstep) hinv.wf hwaits hb hpermit

/-! ## Who is refused -/

/-- The errors that `Gate::acquire` returns. -/
def gateErrors : List GatewayError := [.queueFull, .queueTimeout, .shuttingDown]

/-- The client of a call went away while it was waiting. -/
def callGone : Gate.Call → Bool
  | .unwind .dropped | .dropSlot .dropped | .dropped => true
  | _ => false

/-- The client of a request without a permit went away. -/
def Request.Gone (r : Request Code) : Prop := callGone r.call = true ∨ r.phase = .ended .dropped

/-- The client of request `i` goes away. -/
def disconnects (i : Nat) : Action Code → Bool
  | .act j .drop | .act j (.gate .drop) => j = i
  | _ => false

/-- The look of the handler at the shutdown token is behind the request. -/
def Phase.checked : Phase Code → Bool
  | authorize | checkShutdown => false
  | _ => true

/-- The call has not come to its fast path. -/
def callFresh : Gate.Call → Bool
  | .idle | .tryAcquire => true
  | _ => false

/-- The fast path is ahead of a request that the handler's look at the token let pass. -/
def Request.fastPathAhead (r : Request Code) : Bool :=
  match r.phase with
  | .checkBrowser | .parseLaunch => true
  | .acquiring => callFresh r.call
  | _ => false

/-- A step of `acquire` that needs neither its client, nor its timer, nor a permit. -/
def callUnprompted : Gate.CallAction → Bool
  | .start | .tryAcquire | .load | .compareExchange _ | .pollShutdown | .dropFutures
  | .dropSlot => true
  | _ => false

/-- The same for the handler up to the gate. -/
def RequestAction.unprompted : RequestAction Code → Bool
  | .check | .resume => true
  | .gate a => callUnprompted a
  | _ => false

/-- What becomes of request `i`, which is `r` after the run of `acts` and has no permit.
It has no Chromium. If it is over, it was refused for a cause, with an error of the gate
if it ever came there, or its client went away. And as long as its client is there, its
handler alone can refuse it, provided that no permit is free if its fast path is ahead;
where it waits, the shutdown arm is ready. -/
structure TurnedAway (limits : Gate.Limits) (codes : Proxy.CloseCodes Code)
    (acts : List (Action Code)) (i : Nat) (s : State Code) (r : Request Code) : Prop where
  noChromium : r.chromium = none
  ending : ∀ ending, r.phase = .ended ending → (∃ error, ending = .refused error) ∨
    (ending = .dropped ∧ ∃ e ∈ acts, disconnects i e = true)
  cause : ∀ error, r.phase = .ended (.refused error) →
    ∃ t ∈ (machine limits codes).trace (init limits) acts, ∃ q, t.procs[i]? = some q ∧
      Cause limits t.shared q error
  fromGate : ∀ error, r.phase = .ended (.refused error) →
    (∃ t ∈ (machine limits codes).trace (init limits) acts, ∃ q, t.procs[i]? = some q ∧
      q.phase = .acquiring) → error ∈ gateErrors
  shutdownArm : s.shared.main.isExited = false → r.phase = .acquiring →
    ∀ elapsed, r.call = .select elapsed → ∃ s' r',
      (machine limits codes).step s (.act i (.gate .pollShutdown)) = some s' ∧
      s'.procs[i]? = some r' ∧ callError r'.call = some .shuttingDown
  refuses : s.shared.main.isExited = false →
    (r.phase = .authorize → s.shared.main.accepts = true) →
    (r.fastPathAhead = true → s.shared.gate.semaphore.permits = 0) → ¬ r.Gone →
    ∃ as s' r' error,
      Machine.Along (Pool.Own (fun _ a => RequestAction.unprompted a = true) i)
        (machine limits codes) s as ∧
      (machine limits codes).run s as = some s' ∧ s'.procs[i]? = some r' ∧
      r'.phase = .ended (.refused error) ∧ (r.phase = .acquiring → error ∈ gateErrors)

/-! ### Whose client went away -/

theorem callGone_step {g g' : Gate.Shared} {i : Nat} {c c' : Gate.Call} {a : Gate.CallAction}
    (h : Gate.CallStep limits g i c a g' c') (hc' : callGone c' = true) :
    callGone c = true ∨ a = .drop := by
  cases h with
  | load | retry =>
      unfold Gate.register at hc'
      split at hc' <;> cases hc'
  | dropFresh | dropSelect => exact Or.inr rfl
  | abandon outcome hne => cases outcome <;> first | exact Or.inl rfl | cases hc'
  | slot outcome => cases outcome <;> first | exact Or.inl rfl | cases hc'
  | _ => cases hc'

/-- A request without a permit has lost its client by a step of the client. -/
theorem gone_step {s s' : AppState} {i : Nat} {r r' : Request Code} {a : RequestAction Code}
    (h : RequestStep limits codes s i r a s' r') (hc' : r'.call.admitted = false)
    (hg : r'.Gone) : r.Gone ∨ a = .drop ∨ a = .gate .drop := by
  cases h with
  | gate a g c hp hne h =>
      rcases hg with hg | hg
      · rcases callGone_step (Gate.callStep_inv h) hg with hg | rfl
        · exact Or.inl (Or.inl hg)
        · exact Or.inr (Or.inr rfl)
      · exact Or.inl (Or.inr hg)
  | dropped hp hc => exact Or.inl (Or.inl (by rw [hc]; rfl))
  | dropNew hp => exact Or.inr (Or.inl rfl)
  | exits p p' hc h => exact Or.inl hg
  | release ending g c hp h =>
      rw [show ({ r with call := c } : Request Code).call = c from rfl,
        Gate.dropPermit_inv (Gate.callStep_inv h)] at hc'
      cases hc'
  | releaseDetached shutdown g c hp h =>
      rw [show ({ r with call := c } : Request Code).call = c from rfl,
        Gate.dropPermit_inv (Gate.callStep_inv h)] at hc'
      cases hc'
  | _ =>
      rcases hg with hg | hg
      · exact Or.inl (Or.inl hg)
      · cases hg

/-- In every run, somebody went away whose client is gone. -/
theorem disconnected_of_gone {s : State Code} {as : List (Action Code)} {i : Nat}
    (hrun : (machine limits codes).run (init limits) as = some s) :
    ∀ r, s.procs[i]? = some r → r.call.admitted = false → r.Gone →
      ∃ e ∈ as, disconnects i e = true := by
  refine Machine.run_history (M := machine limits codes) (I := fun as s =>
    ∀ r, s.procs[i]? = some r → r.call.admitted = false → r.Gone →
      ∃ e ∈ as, disconnects i e = true) ?_ hrun fun r hr => by cases hr
  intro as s e s' hst hpast r' hr' hadm hg
  have hlater : (∃ e ∈ as, disconnects i e = true) → ∃ e' ∈ as ++ [e], disconnects i e' = true :=
    fun ⟨e', he', hd⟩ => ⟨e', List.mem_append_left _ he', hd⟩
  rcases Pool.step_proc hst hr' with ⟨-, hfresh⟩ | ⟨a, r, rfl, hr, hact⟩ | ⟨hr, -⟩
  · rcases hg with hg | hg
    · rw [isNew_call hfresh] at hg
      cases hg
    · rw [isNew_phase hfresh] at hg
      cases hg
  · rcases gone_step (act_inv hact).2 hadm hg with hgone | rfl | rfl
    · exact hlater (hpast r hr (not_admitted_of_step (act_inv hact).2 hadm) hgone)
    · exact ⟨_, List.mem_append_right _ List.mem_cons_self, by simp [disconnects]⟩
    · exact ⟨_, List.mem_append_right _ List.mem_cons_self, by simp [disconnects]⟩
  · exact hlater (hpast r' hr hadm hg)

/-! ### What an error is -/

/-- The errors of a call are errors of the gate. -/
def Request.CallErrs (r : Request Code) : Prop :=
  ∀ error, callError r.call = some error → error ∈ gateErrors

theorem callErrs_step {s s' : AppState} {i : Nat} {r r' : Request Code} {a : RequestAction Code}
    (h : RequestStep limits codes s i r a s' r') (he : r.CallErrs) : r'.CallErrs := by
  intro error herr
  rcases h.call_cases with ⟨-, hcall⟩ | ⟨b, hb, -⟩
  · exact he error (hcall ▸ herr)
  · rcases callError_step (Gate.callStep_inv hb) herr with h | ⟨rfl, -⟩ | ⟨rfl, -⟩ | ⟨rfl, -⟩
    · exact he error h
    all_goals decide

theorem callErrs_run {s : State Code} {as : List (Action Code)} (i : Nat)
    (hrun : (machine limits codes).run (init limits) as = some s) :
    ∀ r, s.procs[i]? = some r → r.CallErrs := by
  refine Machine.run_invariant (I := fun s : State Code =>
    ∀ r, s.procs[i]? = some r → r.CallErrs) (fun s e s' hst hs => ?_) hrun fun r hr => by cases hr
  apply Pool.step_forall hst _ _ hs
  · intro r hfresh error herr
    rw [isNew_call hfresh] at herr
    cases herr
  · intro a r r' _ hact _
    exact callErrs_step (act_inv hact).2

/-- The request has come to the gate. It is there, was admitted or is over, refused with an
error of the gate or left by its client. -/
def Request.Asked (r : Request Code) : Prop :=
  r.call.admitted = true ∨ r.phase = .acquiring ∨ r.phase = .ended .dropped ∨
    ∃ error ∈ gateErrors, r.phase = .ended (.refused error)

theorem asked_step {s s' : AppState} {i : Nat} {r r' : Request Code} {a : RequestAction Code}
    (h : RequestStep limits codes s i r a s' r') (herrs : r.CallErrs) (ha : r.Asked) :
    r'.Asked := by
  rcases ha with hadm | hask
  · exact Or.inl (admitted_step h hadm)
  have hout : ∀ {p : Phase Code}, r.phase = p → p ≠ .acquiring → (∀ ending, p ≠ .ended ending) →
      False := by
    rintro p rfl hne hopen
    rcases hask with hp | hp | ⟨error, -, hp⟩
    · exact hne hp
    · exact hopen _ hp
    · exact hopen _ hp
  cases h with
  | gate a g c hp hne h => exact Or.inr (Or.inl hp)
  | admitted hp hc => exact Or.inl (by rw [hc]; rfl)
  | refused error hp hc =>
      exact Or.inr (Or.inr (Or.inr ⟨error, herrs error (by rw [hc]; rfl), rfl⟩))
  | dropped hp hc => exact Or.inr (Or.inr (Or.inl rfl))
  | exits p p' hc h => exact Or.inr hask
  | dropSuspended hs =>
      rcases Phase.suspended_cases hs with ⟨_, _, hp⟩ | ⟨_, _, hp⟩ | hp <;>
        exact (hout hp nofun nofun).elim
  | _ => exact (hout ‹r.phase = _› (by simp) (by simp)).elim

theorem asked_run {s s' : State Code} {as : List (Action Code)} {i : Nat}
    (hrun : (machine limits codes).run s as = some s')
    (hr : ∃ r, s.procs[i]? = some r ∧ r.CallErrs ∧ r.Asked) :
    ∃ r, s'.procs[i]? = some r ∧ r.CallErrs ∧ r.Asked := by
  refine Machine.run_invariant
    (I := fun s : State Code => ∃ r, s.procs[i]? = some r ∧ r.CallErrs ∧ r.Asked)
    (fun s e s' hst => ?_) hrun hr
  apply Pool.step_exists hst
  rintro a r r' _ hact _ ⟨herrs, hasked⟩
  exact ⟨callErrs_step (act_inv hact).2 herrs, asked_step (act_inv hact).2 herrs hasked⟩

theorem gateErrors_of_asked {r : Request Code} {error : GatewayError} (h : r.Asked)
    (hadm : r.call.admitted = false) (hp : r.phase = .ended (.refused error)) :
    error ∈ gateErrors := by
  rcases h with h | h | h | ⟨error', herror, h⟩
  · rw [h] at hadm
    cases hadm
  · cases hp.symm.trans h
  · cases hp.symm.trans h
  · cases hp.symm.trans h
    exact herror

/-! ### The handler alone refuses -/

/-- How many steps a call is from its end, when it sees the token at its `select!`. -/
def callRank (g : Gate.Shared) : Gate.Call → Nat
  | .idle => 9
  | .tryAcquire => 8
  | .load => 7
  | .compareExchange current => if g.queued = current then 5 else 6
  | .select _ => 4
  | .unwind _ => 3
  | .dropSlot _ => 2
  | _ => 0

/-- How many steps a request is from its refusal. -/
def rank (s : AppState) (r : Request Code) : Nat :=
  match r.phase with
  | .authorize => 14
  | .checkShutdown => 13
  | .checkBrowser => 12
  | .parseLaunch => 11
  | .acquiring => callRank s.gate r.call + 1
  | _ => 0

theorem callRank_le (g : Gate.Shared) (c : Gate.Call) : callRank g c ≤ 9 := by
  unfold callRank
  split
  case h_4 => split <;> omega
  all_goals omega

theorem callRank_register (g : Gate.Shared) :
    callRank g (Gate.register limits g.queued) ≤ 5 := by
  unfold Gate.register
  split <;> simp [callRank]

/-- A call that is to be refused: it has no permit and its client, and finds no permit if
it has still to look for one. -/
structure CallTurning (g : Gate.Shared) (c : Gate.Call) : Prop where
  cancelled : g.cancelled = true
  full : callFresh c = true → g.semaphore.permits = 0
  notAdmitted : c.admitted = false
  stays : callGone c = false

theorem callTurning_register {g : Gate.Shared} (h : g.cancelled = true) (n : Nat) :
    CallTurning g (Gate.register limits n) := by
  unfold Gate.register
  split <;> exact ⟨h, nofun, rfl, rfl⟩

/-- Such a call has a step towards its end, at its `select!` through the shutdown arm. -/
theorem exists_call_step (limits : Gate.Limits) (i : Nat) {g : Gate.Shared} {c : Gate.Call}
    (h : CallTurning g c) (hover : c.isOver = false) :
    ∃ a g' c', callUnprompted a = true ∧ Gate.callStep limits g i c a = some (g', c') ∧
      CallTurning g' c' ∧ callRank g' c' < callRank g c := by
  obtain ⟨hcancelled, hfull, hadm, hstays⟩ := h
  cases c with
  | idle =>
      exact ⟨.start, g, .tryAcquire, rfl, rfl, ⟨hcancelled, fun _ => hfull rfl, rfl, rfl⟩,
        by simp [callRank]⟩
  | tryAcquire =>
      refine ⟨.tryAcquire, g, .load, rfl, ?_, ⟨hcancelled, nofun, rfl, rfl⟩, by simp [callRank]⟩
      simp [Gate.callStep, Semaphore.tryAcquire_eq_none.mpr (hfull rfl)]
  | load =>
      refine ⟨.load, g, Gate.register limits g.queued, rfl, rfl,
        callTurning_register hcancelled _, ?_⟩
      exact Nat.lt_of_le_of_lt (callRank_register g) (by simp [callRank])
  | compareExchange current =>
      by_cases heq : g.queued = current
      · exact ⟨.compareExchange false, { g with queued := Gate.incr current }, .select false, rfl,
          by simp [Gate.callStep, heq], ⟨hcancelled, nofun, rfl, rfl⟩, by simp [callRank, heq]⟩
      · refine ⟨.compareExchange false, g, Gate.register limits g.queued, rfl,
          by simp [Gate.callStep, heq], callTurning_register hcancelled _, ?_⟩
        exact Nat.lt_of_le_of_lt (callRank_register g) (by simp [callRank, heq])
  | select elapsed =>
      exact ⟨.pollShutdown, g, .unwind .shuttingDown, rfl, by simp [Gate.callStep, hcancelled],
        ⟨hcancelled, nofun, rfl, rfl⟩, by simp [callRank]⟩
  | unwind outcome =>
      cases outcome with
      | acquired => cases hadm
      | dropped => cases hstays
      | _ => exact ⟨.dropFutures, _, _, rfl, rfl, ⟨hcancelled, nofun, rfl, rfl⟩, by simp [callRank]⟩
  | dropSlot outcome =>
      cases outcome with
      | acquired => cases hadm
      | dropped => cases hstays
      | _ =>
          exact ⟨.dropSlot, _, _, rfl, rfl, ⟨hcancelled, nofun, rfl, rfl⟩,
            by simp [callRank, Gate.Outcome.finish]⟩
  | holding => cases hadm
  | returned | dropped | released => cases hover

/-- The same for a request, wherever it is in its handler up to the gate. -/
structure Turning (s : AppState) (r : Request Code) : Prop where
  running : s.main.isExited = false
  cancelled : s.shutdown = true
  accepted : r.phase = .authorize → s.main.accepts = true
  full : r.fastPathAhead = true → s.gate.semaphore.permits = 0
  notAdmitted : r.call.admitted = false
  early : r.phase.early = true
  stays : ¬ r.Gone

/-- A request to be refused is refused, or has a step of its handler that brings it nearer. -/
theorem exists_turning_step (limits : Gate.Limits) (codes : Proxy.CloseCodes Code)
    (s : AppState) (i : Nat) {r : Request Code} (h : Turning s r) :
    (∃ error, r.phase = .ended (.refused error)) ∨
    ∃ a s' r', RequestAction.unprompted a = true ∧
      (program limits codes).act s i r a = some (s', r') ∧ Turning s' r' ∧
      rank s' r' < rank s r := by
  obtain ⟨hrunning, hcancelled, haccepted, hfull, hadm, hearly, hstays⟩ := h
  have hact : ∀ {a s' r'}, requestStep limits codes s i r a = some (s', r') →
      (program limits codes).act s i r a = some (s', r') := by
    intro a s' r' hstep
    simp [program, hrunning, hstep]
  -- a check moves the request on, or refuses it
  have hcheck : ∀ phase : Phase Code, checkStep s r = some { r with phase } →
      phase.early = true → phase ≠ .authorize → phase ≠ .ended .dropped →
      (({ r with phase } : Request Code).fastPathAhead = true →
        s.gate.semaphore.permits = 0) →
      rank s { r with phase } < rank s r →
      ∃ a s' r', RequestAction.unprompted a = true ∧
        (program limits codes).act s i r a = some (s', r') ∧ Turning s' r' ∧
        rank s' r' < rank s r := by
    intro phase hstep hearly' hne hnot hfull' hlt
    refine ⟨.check, s, { r with phase }, rfl, hact (by simp [requestStep, hstep]), ?_, hlt⟩
    exact ⟨hrunning, hcancelled, fun hp => absurd hp hne, hfull', hadm, hearly',
      fun hg => hg.elim (fun hg => hstays (Or.inl hg)) hnot⟩
  cases hp : r.phase with
  | authorize =>
      have hmain := haccepted hp
      cases hauth : r.authorized with
      | true =>
          exact Or.inr (hcheck .checkShutdown (by simp [checkStep, hp, hmain, hauth]) rfl nofun
            nofun nofun (by simp [rank, hp]))
      | false =>
          exact Or.inr (hcheck (.ended (.refused .unauthorized))
            (by simp [checkStep, hp, hmain, hauth, Request.refuse]) rfl nofun nofun nofun
            (by simp [rank, hp]))
  | checkShutdown =>
      exact Or.inr (hcheck (.ended (.refused .shuttingDown))
        (by simp [checkStep, hp, hcancelled, Request.refuse]) rfl nofun nofun nofun
        (by simp [rank, hp]))
  | checkBrowser =>
      have hzero := hfull (by simp [Request.fastPathAhead, hp])
      rcases Bool.eq_false_or_eq_true s.browser with hb | hb
      · exact Or.inr (hcheck .parseLaunch (by simp [checkStep, hp, hb]) rfl nofun nofun
          (fun _ => hzero) (by simp [rank, hp]))
      · exact Or.inr (hcheck (.ended (.refused .browserInstalling))
          (by simp [checkStep, hp, hb, Request.refuse]) rfl nofun nofun nofun (by simp [rank, hp]))
  | parseLaunch =>
      have hzero := hfull (by simp [Request.fastPathAhead, hp])
      cases hl : r.launchOptions with
      | ok _ =>
          have hle := callRank_le s.gate r.call
          exact Or.inr (hcheck .acquiring (by simp [checkStep, hp, hl]) rfl nofun nofun
            (fun _ => hzero) (by simp only [rank, hp]; omega))
      | error reason =>
          exact Or.inr (hcheck (.ended (.refused (.invalidLaunchOptions reason)))
            (by simp [checkStep, hp, hl, Request.refuse]) rfl nofun nofun nofun
            (by simp [rank, hp]))
  | acquiring =>
      -- inside the gate the rank of the call goes down; once it is over the handler goes on
      cases hover : r.call.isOver with
      | false =>
          have hturning : CallTurning s.gate r.call :=
            ⟨hcancelled, fun hfresh => hfull (by simpa [Request.fastPathAhead, hp] using hfresh),
              hadm, by simpa using fun hg => hstays (Or.inl hg)⟩
          obtain ⟨a, g, c, ha, hstep, hcall, hlt⟩ := exists_call_step limits i hturning hover
          have hne : a ≠ .dropPermit := by
            rintro rfl
            cases ha
          refine Or.inr ⟨.gate a, { s with gate := g }, { r with call := c }, ha,
            hact (by simp [requestStep, hp, hne, hstep]), ?_, by simpa [rank, hp] using hlt⟩
          refine ⟨hrunning, hcall.cancelled, fun hq => ?_, fun hfast => ?_, hcall.notAdmitted,
            by rw [hp]; rfl, ?_⟩
          · cases hp.symm.trans hq
          · exact hcall.full (by simpa [Request.fastPathAhead, hp] using hfast)
          · rintro (hg | hg)
            · rw [hcall.stays] at hg
              cases hg
            · cases hp.symm.trans hg
      | true =>
          cases hc : r.call with
          | returned error =>
              refine Or.inr ⟨.resume, s, r.refuse error, rfl,
                hact (by simp [requestStep, resumeStep, hp, hc]), ?_,
                by simp [rank, hp, Request.refuse]⟩
              refine ⟨hrunning, hcancelled, nofun, nofun, hadm, rfl, ?_⟩
              rintro (hg | hg)
              · exact hstays (Or.inl hg)
              · cases hg
          | dropped => exact absurd (Or.inl (by rw [hc]; rfl)) hstays
          | released =>
              rw [hc] at hadm
              cases hadm
          | _ =>
              rw [hc] at hover
              cases hover
  | ended ending =>
      rw [hp] at hearly
      cases ending with
      | refused error => exact Or.inl ⟨error, rfl⟩
      | dropped => exact absurd (Or.inr hp) hstays
      | _ => cases hearly
  | _ =>
      rw [hp] at hearly
      cases hearly

/-- The handler alone brings it to its refusal. -/
theorem exists_refusing_run (limits : Gate.Limits) (codes : Proxy.CloseCodes Code)
    {s : State Code} {i : Nat} {r : Request Code} (h : Turning s.shared r)
    (hr : s.procs[i]? = some r) :
    ∃ as s' r' error,
      Machine.Along (Pool.Own (fun _ a => RequestAction.unprompted a = true) i)
        (machine limits codes) s as ∧
      (machine limits codes).run s as = some s' ∧ s'.procs[i]? = some r' ∧
      r'.call.admitted = false ∧ r'.phase = .ended (.refused error) := by
  obtain ⟨as, s', r', -, hAlong, hrun, hr', hturning, error, hp⟩ :=
    Pool.exists_own_run (program limits codes) _ rank
      (fun s r h => exists_turning_step limits codes s i h) hr h
  exact ⟨as, s', r', error, hAlong, hrun, hr', hturning.notAdmitted, hp⟩

/-! ## After the shutdown -/

theorem callStep_cancelled {g g' : Gate.Shared} {i : Nat} {c c' : Gate.Call} {a : Gate.CallAction}
    (h : Gate.CallStep limits g i c a g' c') : g'.cancelled = g.cancelled := by
  cases h <;> rfl

/-- The token stays cancelled. -/
theorem shutdown_step {s s' : State Code} {e : Action Code}
    (h : (machine limits codes).step s e = some s') (hs : s.shared.shutdown = true) :
    s'.shared.shutdown = true := by
  cases e with
  | spawn r =>
      obtain ⟨-, rfl⟩ := Pool.step_spawn.mp h
      exact hs
  | act i a =>
      obtain ⟨r, shared, r', hr, hact, rfl⟩ := Pool.step_act.mp h
      rcases (act_inv hact).2.call_cases with ⟨rfl, -⟩ | ⟨b, hb, heq⟩
      · exact hs
      · exact (callStep_cancelled (Gate.callStep_inv hb)).trans hs
  | env e =>
      obtain ⟨shared, henv, rfl⟩ := Pool.step_env.mp h
      rcases env_gate henv with hg | hg
      · show shared.gate.cancelled = true
        rw [hg]
        exact hs
      · show shared.gate.cancelled = true
        rw [hg]

/-- The cancellation comes before the look of the handler at the token, which refuses the
request. -/
def Request.Unchecked (r : Request Code) : Prop :=
  r.call.admitted = false ∧
    (r.phase.checked = false ∨ r.phase = .ended .dropped ∨
      r.phase = .ended (.refused .shuttingDown) ∨
      (r.phase = .ended (.refused .unauthorized) ∧ r.authorized = false))

theorem unchecked_step {s s' : AppState} {i : Nat} {r r' : Request Code} {a : RequestAction Code}
    (h : RequestStep limits codes s i r a s' r') (hs : s.shutdown = true) (hr : r.Unchecked) :
    r'.Unchecked := by
  obtain ⟨hadm, hplace⟩ := hr
  have hout : ∀ {p : Phase Code}, r.phase = p → p.checked = true → (∀ ending, p ≠ .ended ending) →
      False := by
    rintro p rfl hchecked hopen
    rcases hplace with hp | hp | hp | ⟨hp, -⟩
    · rw [hchecked] at hp
      cases hp
    all_goals exact hopen _ hp
  cases h with
  | authorized hp hm hauth => exact ⟨hadm, Or.inl rfl⟩
  | unauthorized hp hm hauth => exact ⟨hadm, Or.inr (Or.inr (Or.inr ⟨rfl, hauth⟩))⟩
  | notShutdown hp hno =>
      rw [hs] at hno
      cases hno
  | shuttingDown hp _ => exact ⟨hadm, Or.inr (Or.inr (Or.inl rfl))⟩
  | dropNew hp => exact ⟨hadm, Or.inr (Or.inl rfl)⟩
  | exits p p' hc h => exact ⟨hadm, hplace⟩
  | dropSuspended hsuspended =>
      rcases Phase.suspended_cases hsuspended with ⟨_, _, hp⟩ | ⟨_, _, hp⟩ | hp <;>
        exact (hout hp rfl nofun).elim
  | _ => exact (hout ‹r.phase = _› rfl (by simp)).elim

theorem unchecked_run {s s' : State Code} {i : Nat} {as : List (Action Code)}
    (hrun : (machine limits codes).run s as = some s') (hs : s.shared.shutdown = true)
    (hr : ∀ r, s.procs[i]? = some r → r.Unchecked) : ∀ r, s'.procs[i]? = some r → r.Unchecked := by
  have hkept := Machine.run_invariant
    (I := fun s : State Code => s.shared.shutdown = true ∧
      ∀ r, s.procs[i]? = some r → r.Unchecked) (fun s e s' hst hI => ?_) hrun ⟨hs, hr⟩
  · exact hkept.2
  · refine ⟨shutdown_step hst hI.1, Pool.step_forall hst (fun r hfresh => ?_) ?_ hI.2⟩
    · exact ⟨by rw [isNew_call hfresh]; rfl, Or.inl (by rw [isNew_phase hfresh]; rfl)⟩
    · intro a r r' _ hact _
      exact unchecked_step (act_inv hact).2 hI.1

/-- Who has no permit is turned away. -/
theorem turnedAway_of_unadmitted {s : State Code} {as : List (Action Code)} {i : Nat}
    {r : Request Code} (hrun : (machine limits codes).run (init limits) as = some s)
    (hs : s.shared.shutdown = true) (hr : s.procs[i]? = some r)
    (hadm : r.call.admitted = false) : TurnedAway limits codes as i s r := by
  obtain ⟨hearly, hnone⟩ := waitsAt_run i hrun r hr hadm
  refine ⟨hnone, fun ending hp => ?_, fun error hp => refusal_cause hrun hr hp,
    fun error hp hask => ?_, fun hmain hp elapsed hc => ?_, fun hmain haccepted hfull hstays => ?_⟩
  · rw [hp] at hearly
    cases ending with
    | refused error => exact Or.inl ⟨error, rfl⟩
    | dropped => exact Or.inr ⟨rfl, disconnected_of_gone hrun r hr hadm (Or.inr hp)⟩
    | _ => cases hearly
  · obtain ⟨t, ht, q, hq, hacquiring⟩ := hask
    obtain ⟨bs, cs, -, hbs, hcs⟩ := Machine.exists_split_of_mem_trace hrun ht
    obtain ⟨q', hq', -, hasked⟩ :=
      asked_run hcs ⟨q, hq, callErrs_run i hbs q hq, Or.inr (Or.inl hacquiring)⟩
    obtain rfl := Option.some.inj (hq'.symm.trans hr)
    exact gateErrors_of_asked hasked hadm hp
  · have hcancelled : s.shared.gate.cancelled = true := hs
    refine ⟨_, { r with call := .unwind .shuttingDown }, Pool.step_act.mpr ⟨r, s.shared, _, hr, ?_,
      rfl⟩, Pool.getElem?_set_of_some hr _, rfl⟩
    simp [program, hmain, requestStep, hp, hc, Gate.callStep, hcancelled]
  · obtain ⟨as', s', r', error, hAlong, hrun', hr', hadm', hp'⟩ :=
      exists_refusing_run limits codes
        ⟨hmain, hs, haccepted, hfull, hadm, hearly, hstays⟩ hr
    refine ⟨as', s', r', error, hAlong, hrun', hr', hp', fun hp => ?_⟩
    obtain ⟨q, hq, -, hasked⟩ :=
      asked_run hrun' ⟨r, hr, callErrs_run i hrun r hr, Or.inr (Or.inl hp)⟩
    obtain rfl := Option.some.inj (hq.symm.trans hr')
    exact gateErrors_of_asked hasked hadm' hp'

/-- No admission after shutdown, with its condition. Take a run that goes on after the
cancellation of the token, and a request that has no permit by then. It has none at the end,
and is turned away, exactly when it finds none on the way, that is, at none of its
`try_acquire` and polls a permit is free or was handed to it. A request that the handler has
not come to check finds none in any case, and is refused as unauthorized or because of the
shutdown. -/
theorem no_admission_iff {s₁ s₂ : State Code} {as₁ as₂ : List (Action Code)} {i : Nat}
    (hrun₁ : (machine limits codes).run (init limits) as₁ = some s₁)
    (hcancelled : s₁.shared.shutdown = true) (hun : Unadmitted i s₁)
    (hrun₂ : (machine limits codes).run s₁ as₂ = some s₂) :
    ((Unadmitted i s₂ ∧ ∀ r, s₂.procs[i]? = some r →
        TurnedAway limits codes (as₁ ++ as₂) i s₂ r) ↔
      Machine.Along (fun s e => ¬ Finds i s e) (machine limits codes) s₁ as₂) ∧
    ((∀ r, s₁.procs[i]? = some r → r.phase.checked = false) →
      Unadmitted i s₂ ∧ ∀ r, s₂.procs[i]? = some r → ∀ error,
        r.phase = .ended (.refused error) →
        error = .shuttingDown ∨ (error = .unauthorized ∧ r.authorized = false)) := by
  have hrun := (Machine.run_append_iff _).mpr ⟨s₁, hrun₁, hrun₂⟩
  refine ⟨⟨fun ⟨hun₂, _⟩ => ?_, fun hno => ?_⟩, fun hbefore => ?_⟩
  · by_contra hbreak
    obtain ⟨bs, e, cs, t, u, rfl, hbs, -, hfinds, hst, hcs⟩ :=
      Machine.exists_break_of_not_along hrun₂ hbreak
    have hreach : (machine limits codes).Reachable (init limits) t :=
      ⟨as₁ ++ bs, (Machine.run_append_iff _).mpr ⟨s₁, hrun₁, hbs⟩⟩
    obtain ⟨r, hr, hadm⟩ := admittedAt_run hcs (admittedAt_of_finds hreach hst (not_not.mp hfinds))
    rw [hun₂ r hr] at hadm
    cases hadm
  · have hun₂ : Unadmitted i s₂ := Machine.run_invariant_along (I := Unadmitted i)
      (fun _ _ _ hst hno hu => unadmitted_step hst hno hu) hrun₂ hno hun
    have hshutdown : s₂.shared.shutdown = true :=
      Machine.run_invariant (I := fun s => s.shared.shutdown = true)
        (fun _ _ _ hst hs => shutdown_step hst hs) hrun₂ hcancelled
    exact ⟨hun₂, fun r hr => turnedAway_of_unadmitted hrun hshutdown hr (hun₂ r hr)⟩
  · have hkept := unchecked_run hrun₂ hcancelled fun r hr => ⟨hun r hr, Or.inl (hbefore r hr)⟩
    refine ⟨fun r hr => (hkept r hr).1, fun r hr error hp => ?_⟩
    obtain ⟨-, h | h | h | ⟨h, hauth⟩⟩ := hkept r hr
    · rw [hp] at h
      cases h
    · cases hp.symm.trans h
    · cases hp.symm.trans h
      exact Or.inl rfl
    · cases hp.symm.trans h
      exact Or.inr ⟨rfl, hauth⟩

/-- Request 1 waits for the slot of request 0 when the token is cancelled. -/
def cancelledWhileWaiting : List (Action UInt16) := queuedRun ++ [.env .signal]

/-- Request 1, then and after one more poll that finds no permit. -/
def waitingRequest : Request UInt16 where
  authorized := true
  launchOptions := .ok ()
  call := .select false
  chromium := none
  phase := .acquiring

/-- The waiting request is turned away, and so is one that comes after the signal. -/
theorem no_admission_iff_refused :
    ∃ s₁ s₂ : State UInt16,
      (machine Gate.oneAndOne Proxy.plainCodes).run (init Gate.oneAndOne) cancelledWhileWaiting =
        some s₁ ∧
      (machine Gate.oneAndOne Proxy.plainCodes).run s₁
        [.act 1 (.gate .pollPermit), .spawn (.new true (.ok ()))] = some s₂ ∧
      Unadmitted 1 s₂ ∧ Unadmitted 2 s₂ ∧
      TurnedAway Gate.oneAndOne Proxy.plainCodes
        (cancelledWhileWaiting ++ [.act 1 (.gate .pollPermit), .spawn (.new true (.ok ()))]) 1 s₂
        waitingRequest := by
  have hrun : ∃ s₁ s₂ : State UInt16,
      (machine Gate.oneAndOne Proxy.plainCodes).run (init Gate.oneAndOne) cancelledWhileWaiting =
        some s₁ ∧
      s₁.shared.shutdown = true ∧ s₁.procs[1]? = some waitingRequest ∧ s₁.procs[2]? = none ∧
      s₁.shared.gate.semaphore.permits = 0 ∧ s₁.shared.gate.semaphore.assigned = [] ∧
      (machine Gate.oneAndOne Proxy.plainCodes).run s₁
        [.act 1 (.gate .pollPermit), .spawn (.new true (.ok ()))] = some s₂ ∧
      s₂.procs[1]? = some waitingRequest :=
    ⟨_, _, rfl, rfl, rfl, rfl, rfl, rfl, rfl, rfl⟩
  obtain ⟨s₁, s₂, hrun₁, hcancelled, hr, hnone, hpermits, hassigned, hrun₂, hr₂⟩ := hrun
  have hun : Unadmitted 1 s₁ := by
    intro r hr'
    obtain rfl := Option.some.inj (hr.symm.trans hr')
    rfl
  have hlater : Unadmitted 2 s₁ := by
    intro r hr'
    rw [hnone] at hr'
    cases hr'
  have hno : Machine.Along (fun s e => ¬ Finds 1 s e) (machine Gate.oneAndOne Proxy.plainCodes) s₁
      [.act 1 (.gate .pollPermit), .spawn (.new true (.ok ()))] := by
    refine ⟨fun hfinds => ?_, fun t _ => ⟨fun hfinds => ?_, fun _ _ => trivial⟩⟩
    · rcases hfinds.2 with hpos | hin
      · omega
      · rw [hassigned] at hin
        cases hin
    · rcases hfinds.1 with h | h <;> cases h
  have hturned := (no_admission_iff hrun₁ hcancelled hun hrun₂).1.mpr hno
  refine ⟨s₁, s₂, hrun₁, hrun₂, hturned.1, ?_, hturned.2 _ hr₂⟩
  exact ((no_admission_iff hrun₁ hcancelled hlater hrun₂).2 fun r hr' => by
    rw [hnone] at hr'
    cases hr').1

/-- The token is cancelled between the check of the handler and the fast path. -/
def cancelledAfterCheck : List (Action UInt16) :=
  [.env .browserReady, .spawn (.new true (.ok ())), .act 0 .check, .act 0 .check,
    .env .signal, .act 0 .check, .act 0 .check]

/-- The request goes on, finds a free permit and spawns its Chromium. -/
def fastPath : List (Action UInt16) :=
  [.act 0 (.gate .start), .act 0 (.gate .tryAcquire), .act 0 .resume, .act 0 .spawn]

theorem admitted_after_shutdown :
    ¬ ∀ (limits : Gate.Limits) (codes : Proxy.CloseCodes UInt16) (s₁ s₂ : State UInt16)
      (as : List (Action UInt16)) (i : Nat),
      (machine limits codes).Reachable (init limits) s₁ → s₁.shared.shutdown = true →
      Unadmitted i s₁ → (machine limits codes).run s₁ as = some s₂ →
      ∀ r, s₂.procs[i]? = some r → r.call.admitted = false ∧ r.chromium = none := by
  intro h
  have hrun : ∃ s₁ s₂ : State UInt16, ∃ r₁ r₂ : Request UInt16,
      (machine oneSession Proxy.plainCodes).run (init oneSession) cancelledAfterCheck = some s₁ ∧
      s₁.shared.shutdown = true ∧ s₁.procs[0]? = some r₁ ∧ r₁.call.admitted = false ∧
      (machine oneSession Proxy.plainCodes).run s₁ fastPath = some s₂ ∧
      s₂.procs[0]? = some r₂ ∧ r₂.chromium = some .spawned :=
    ⟨_, _, _, _, rfl, rfl, rfl, rfl, rfl, rfl, rfl⟩
  obtain ⟨s₁, s₂, r₁, r₂, hrun₁, hcancelled, hr₁, hun, hrun₂, hr₂, hspawned⟩ := hrun
  have hunadmitted : Unadmitted 0 s₁ := by
    intro r hr
    obtain rfl := Option.some.inj (hr.symm.trans hr₁)
    exact hun
  have hnone := (h oneSession Proxy.plainCodes s₁ s₂ fastPath 0 ⟨_, hrun₁⟩ hcancelled hunadmitted
    hrun₂ r₂ hr₂).2
  rw [hspawned] at hnone
  cases hnone

end Pinokio.Server
