/-
# Pinokio.Queue.Conservation -- no permit and no queue slot is ever lost

Two counters that are updated separately, the permits of the semaphore and the
`queued` counter, stay consistent with what the calls own, under every
interleaving and wherever a call is dropped. One lemma a fact says what a single
step of a single call does to it; `Inv` collects the facts, `inv_step` carries
them over a step of the gate and `inv_reachable` over every run.
-/
import Pinokio.Queue

namespace Pinokio.Gate

open Pool (countP_set_balance getElem?_set_cases getElem?_set_of_some getElem?_append_cases
  countP_pos_of_getElem?)

variable {limits : Limits} {g g' : Shared} {i j : Nat} {c c' : Call} {a : CallAction}

/-! ## One step of one call -/

/-- The permits nobody owns and the permit the call owns: their sum does not
change in any step. -/
theorem callStep_permits (h : CallStep limits g i c a g' c') :
    g'.semaphore.free + (if c'.ownsPermit then 1 else 0)
      = g.semaphore.free + (if c.ownsPermit then 1 else 0) := by
  cases h with
  | fast hp =>
      have hfree := Semaphore.free_tryAcquire (Semaphore.tryAcquire_eq_some.mpr ⟨hp, rfl⟩)
      simpa [Call.ownsPermit] using hfree
  | load | retry =>
      rw [register_ownsPermit]
      rfl
  | granted elapsed hready =>
      have hfree := g.semaphore.free_poll i
      rw [hready] at hfree
      simpa [Call.ownsPermit] using hfree
  | parked elapsed hready =>
      have hfree := g.semaphore.free_poll i
      rw [hready] at hfree
      simpa [Call.ownsPermit] using hfree
  | abandon outcome hne => cases outcome <;> simp_all [Call.ownsPermit]
  | slot outcome => simp
  | release => simp [Call.ownsPermit]
  | _ => rfl

/-- The value a call proposes in its compare-exchange is below the queue limit. -/
theorem callStep_exchange (h : CallStep limits g i c a g' c') {current : Nat}
    (hc' : c' = .compareExchange current) : current < limits.maxQueue := by
  cases h with
  | load | retry =>
      unfold register at hc'
      split at hc'
      · cases hc'
      · cases hc'
        omega
  | granted | parked => cases hc'
  | slot outcome => cases outcome <;> cases hc'
  | _ => cases hc'

/-- The counter moves with the slot of the call; the increment does not overflow
and the decrement does not wrap. -/
theorem callStep_slots (h : CallStep limits g i c a g' c')
    (hlive : c.hasSlot = true → 0 < g.queued)
    (hexchange : ∀ current, c = .compareExchange current → current < limits.maxQueue) :
    g'.queued + (if c.hasSlot then 1 else 0) = g.queued + (if c'.hasSlot then 1 else 0) := by
  cases h with
  | load | retry =>
      rw [register_hasSlot]
      rfl
  | exchanged =>
      have hlt := hexchange _ rfl
      have hmax := limits.maxQueue_lt
      have hincr : incr g.queued = g.queued + 1 := Nat.mod_eq_of_lt (by omega)
      simp [Call.hasSlot, hincr]
  | slot outcome =>
      have hpos := hlive rfl
      have hdecr : decr g.queued = g.queued - 1 := if_neg (by omega)
      have hslot : (Call.dropSlot outcome).hasSlot = true := rfl
      simp only [hdecr, hslot, Outcome.finish_hasSlot, if_true, Bool.false_eq_true, if_false]
      omega
  | _ => rfl

/-- The counter stays within the queue limit. -/
theorem callStep_bound (h : CallStep limits g i c a g' c')
    (hlive : c.hasSlot = true → 0 < g.queued)
    (hexchange : ∀ current, c = .compareExchange current → current < limits.maxQueue)
    (hbound : g.queued ≤ limits.maxQueue) : g'.queued ≤ limits.maxQueue := by
  cases h with
  | exchanged =>
      have hlt := hexchange _ rfl
      have hle : incr g.queued ≤ g.queued + 1 := Nat.mod_le _ _
      exact le_trans hle hlt
  | slot outcome =>
      have hpos := hlive rfl
      have hdecr : decr g.queued = g.queued - 1 := if_neg (by omega)
      simp only [hdecr]
      omega
  | _ => exact hbound

theorem callStep_wf (h : CallStep limits g i c a g' c') (hwf : g.semaphore.Wf) :
    g'.semaphore.Wf := by
  cases h with
  | fast hp => exact hwf.tryAcquire (Semaphore.tryAcquire_eq_some.mpr ⟨hp, rfl⟩)
  | granted => exact hwf.poll i
  | parked => exact hwf.poll i
  | abandon => exact hwf.cancel i
  | release => exact hwf.release
  | _ => exact hwf

/-- A step of one call neither parks another call nor forgets it. -/
theorem callStep_pending_of_ne (h : CallStep limits g i c a g' c') (hne : j ≠ i) :
    g'.semaphore.Pending j ↔ g.semaphore.Pending j := by
  cases h with
  | granted => exact Semaphore.pending_poll_of_ne hne
  | parked => exact Semaphore.pending_poll_of_ne hne
  | abandon => exact Semaphore.pending_cancel_of_ne hne
  | release => exact Semaphore.pending_release _ j
  | _ => rfl

/-- Only a call that still holds a future of the semaphore is in its queue. -/
theorem callStep_pending_self (h : CallStep limits g i c a g' c') (hwf : g.semaphore.Wf)
    (hpend : g.semaphore.Pending i → c.waits = true) (hpend' : g'.semaphore.Pending i) :
    c'.waits = true := by
  cases h with
  | granted elapsed hready => exact absurd hpend' (Semaphore.not_pending_poll hwf hready)
  | abandon => exact absurd hpend' (Semaphore.not_pending_cancel hwf i)
  | release =>
      have := hpend ((Semaphore.pending_release _ i).mp hpend')
      cases this
  | fast =>
      have := hpend hpend'
      cases this
  | parked | elapse | timeout | shutdown | dropSelect => rfl
  | load | retry | slot | exchanged | start | slow | dropFresh | forget =>
      have := hpend hpend'
      cases this

/-! ## The invariant of the gate -/

/-- The number of permits owned by calls and sessions. -/
def owned (s : State) : Nat := s.procs.countP Call.ownsPermit

/-- The number of live `QueueSlot` guards. -/
def liveSlots (s : State) : Nat := s.procs.countP Call.hasSlot

structure Inv (limits : Limits) (s : State) : Prop where
  wf : s.shared.semaphore.Wf
  permits : s.shared.semaphore.free + owned s = limits.maxSessions
  slots : s.shared.queued = liveSlots s
  bound : s.shared.queued ≤ limits.maxQueue
  pending : ∀ i, s.shared.semaphore.Pending i → ∃ c, s.procs[i]? = some c ∧ c.waits = true
  exchange : ∀ i current : Nat, s.procs[i]? = some (Call.compareExchange current) →
    current < limits.maxQueue

theorem inv_init (limits : Limits) : Inv limits (init limits) where
  wf := Semaphore.wf_new _
  permits := by simp [init, Shared.new, owned]
  slots := rfl
  bound := Nat.zero_le _
  pending := by simp [init, Shared.new, Semaphore.new, Semaphore.Pending]
  exchange := by simp [init]

theorem inv_spawn {s : State} (hi : Inv limits s) :
    Inv limits { s with procs := s.procs ++ [.idle] } where
  wf := hi.wf
  permits := by simpa [owned, Call.ownsPermit] using hi.permits
  slots := by simpa [liveSlots, Call.hasSlot] using hi.slots
  bound := hi.bound
  pending := by
    intro k hk
    obtain ⟨c, hc, hw⟩ := hi.pending k hk
    exact ⟨c, by rw [List.getElem?_append_left (List.getElem?_eq_some_iff.mp hc).1]; exact hc, hw⟩
  exchange := by
    intro k current hk
    rcases getElem?_append_cases hk with ⟨-, hidle⟩ | hk
    · cases hidle
    · exact hi.exchange k current hk

/-- A live slot is counted, so the counter is positive while it is there. -/
theorem queued_pos {s : State} (hi : Inv limits s) (hc : s.procs[i]? = some c)
    (hslot : c.hasSlot = true) : 0 < s.shared.queued := by
  rw [hi.slots]
  exact countP_pos_of_getElem? hc hslot

theorem inv_call {s : State} (hi : Inv limits s) (hc : s.procs[i]? = some c)
    (h : CallStep limits s.shared i c a g' c') :
    Inv limits { shared := g', procs := s.procs.set i c' } := by
  have hlive := fun hs => queued_pos hi hc hs
  have hexchange : ∀ current, c = .compareExchange current → current < limits.maxQueue := by
    rintro current rfl
    exact hi.exchange i current hc
  constructor
  · exact callStep_wf h hi.wf
  -- permits: what the semaphore loses, the owners gain
  · have hbalance := countP_set_balance Call.ownsPermit hc c'
    have hstep := callStep_permits h
    have hpermits := hi.permits
    simp only [owned] at hpermits ⊢
    omega
  -- the counter moves with the slot of the call that moves
  · have hbalance := countP_set_balance Call.hasSlot hc c'
    have hstep := callStep_slots h hlive hexchange
    have hslots := hi.slots
    simp only [liveSlots] at hslots ⊢
    omega
  · exact callStep_bound h hlive hexchange hi.bound
  · intro k hk
    -- who is parked or handed a permit: the call itself by its own step, the others as before
    by_cases hki : k = i
    · subst hki
      refine ⟨c', getElem?_set_of_some hc c', callStep_pending_self h hi.wf ?_ hk⟩
      intro hp
      obtain ⟨d, hd, hw⟩ := hi.pending k hp
      obtain rfl : d = c := Option.some.inj (hd.symm.trans hc)
      exact hw
    · obtain ⟨d, hd, hw⟩ := hi.pending k ((callStep_pending_of_ne h hki).mp hk)
      exact ⟨d, by rw [List.getElem?_set_ne (Ne.symm hki)]; exact hd, hw⟩
  · intro k current hk
    rcases getElem?_set_cases hk with ⟨-, hc'⟩ | ⟨-, hk⟩
    · exact callStep_exchange h hc'.symm
    · exact hi.exchange k current hk

theorem inv_step {s s' : State} {e : Action} (h : (machine limits).step s e = some s')
    (hi : Inv limits s) : Inv limits s' := by
  cases e with
  | spawn c =>
      obtain ⟨hfresh, rfl⟩ := Pool.step_spawn.mp h
      obtain rfl : c = .idle := by simpa [program] using hfresh
      exact inv_spawn hi
  | act i a =>
      obtain ⟨c, g', c', hc, hact, rfl⟩ := Pool.step_act.mp h
      exact inv_call hi hc (callStep_inv hact)
  | env e =>
      obtain ⟨g', henv, rfl⟩ := Pool.step_env.mp h
      cases e
      obtain rfl : { s.shared with cancelled := true } = g' := Option.some.inj henv
      exact ⟨hi.wf, hi.permits, hi.slots, hi.bound, hi.pending, hi.exchange⟩

/-- The invariant holds in every state the gate can reach. -/
theorem inv_reachable {s : State} (h : (machine limits).Reachable (init limits) s) :
    Inv limits s :=
  h.invariant (inv_init limits) fun _ _ _ hstep hi => inv_step hstep hi

/-! ## Conservation -/

/-- With every call over and every session ended, nothing is owned. -/
theorem owned_eq_zero {s : State} (h : ∀ c ∈ s.procs, c.isOver = true) : owned s = 0 := by
  apply List.countP_eq_zero.mpr
  intro c hc
  have hover := h c hc
  cases c <;> simp_all [Call.isOver, Call.ownsPermit]

theorem liveSlots_eq_zero {s : State} (h : ∀ c ∈ s.procs, c.isOver = true) : liveSlots s = 0 := by
  apply List.countP_eq_zero.mpr
  intro c hc
  have hover := h c hc
  cases c <;> simp_all [Call.isOver, Call.hasSlot]

/-- A call that is over is in no list of the semaphore. -/
theorem not_pending_of_isOver {s : State} (hi : Inv limits s) (hc : s.procs[i]? = some c)
    (hover : c.isOver = true) : ¬ s.shared.semaphore.Pending i := by
  intro hp
  obtain ⟨d, hd, hw⟩ := hi.pending i hp
  obtain rfl : d = c := Option.some.inj (hd.symm.trans hc)
  cases d <;> simp_all [Call.isOver, Call.waits]

/-- `active_sessions` counts the permits handed out, collected or not. -/
theorem activeSessions_eq {s : State} (hi : Inv limits s) :
    activeSessions limits s.shared = s.shared.semaphore.assigned.length + owned s := by
  have h := hi.permits
  simp only [activeSessions, Semaphore.free] at h ⊢
  omega

/-- Gate conservation. In every reachable state the permits add up to
`max_sessions`; the counter is the number of live slots, within `max_queue`, and
the step that decrements it finds it positive; nobody is parked while a permit is
available; a call that ended leaves no trace; and when all have ended the gate is
as it was made. -/
theorem gate_conservation (limits : Limits) {s : State}
    (h : (machine limits).Reachable (init limits) s) :
    s.shared.semaphore.permits + (s.shared.semaphore.assigned.length + owned s)
        = limits.maxSessions ∧
    s.shared.queued = liveSlots s ∧ s.shared.queued ≤ limits.maxQueue ∧
    (∀ i s', (machine limits).step s (.act i .dropSlot) = some s' →
      0 < s.shared.queued ∧ s'.shared.queued + 1 = s.shared.queued) ∧
    (0 < s.shared.semaphore.permits → s.shared.semaphore.waiters = []) ∧
    (∀ i c, s.procs[i]? = some c → c.isOver = true →
      ¬ s.shared.semaphore.Pending i ∧ c.ownsPermit = false ∧ c.hasSlot = false) ∧
    ((∀ c ∈ s.procs, c.isOver = true) →
      s.shared.semaphore = .new limits.maxSessions ∧ s.shared.queued = 0) := by
  have hi := inv_reachable h
  refine ⟨?_, hi.slots, hi.bound, ?_, hi.wf.idle, ?_, ?_⟩
  · have := hi.permits
    simp only [Semaphore.free] at this
    omega
  · intro i s' hstep
    obtain ⟨c, g', c', hc, hact, rfl⟩ := Pool.step_act.mp hstep
    cases callStep_inv hact with
    | slot outcome =>
        have hpos := queued_pos hi hc rfl
        have hdecr : decr s.shared.queued = s.shared.queued - 1 := if_neg (by omega)
        simp only [hdecr]
        omega
  · intro i c hc hover
    refine ⟨not_pending_of_isOver hi hc hover, ?_⟩
    cases c <;> simp_all [Call.isOver, Call.ownsPermit, Call.hasSlot]
  · intro hall
    -- nobody is left who could be parked or hold a permit
    have hnone : ∀ i, ¬ s.shared.semaphore.Pending i := by
      intro i hp
      obtain ⟨c, hc, -⟩ := hi.pending i hp
      exact not_pending_of_isOver hi hc (hall c (List.mem_of_getElem? hc)) hp
    have hwaiters : s.shared.semaphore.waiters = [] :=
      List.eq_nil_iff_forall_not_mem.mpr fun i hw => hnone i (Or.inl hw)
    have hassigned : s.shared.semaphore.assigned = [] :=
      List.eq_nil_iff_forall_not_mem.mpr fun i ha => hnone i (Or.inr ha)
    have hpermits := hi.permits
    rw [owned_eq_zero hall, Semaphore.free, hassigned] at hpermits
    refine ⟨?_, by rw [hi.slots, liveSlots_eq_zero hall]⟩
    cases hsem : s.shared.semaphore with
    | mk permits waiters assigned =>
        simp only [hsem, List.length_nil, Nat.add_zero] at hwaiters hassigned hpermits
        simp [Semaphore.new, hwaiters, hassigned, hpermits]

/-- One slot and one place in the queue. -/
def oneAndOne : Limits := { maxSessions := 1, maxQueue := 1, maxQueue_lt := by decide }

/-- Call 1 waits for call 0, is handed its permit, and is dropped before it is
polled again. -/
def handedThenDropped : List Action :=
  [.spawn .idle, .spawn .idle, .act 0 .start, .act 0 .tryAcquire,
   .act 1 .start, .act 1 .tryAcquire, .act 1 .load, .act 1 (.compareExchange false),
   .act 1 .pollPermit, .act 0 .dropPermit, .act 1 .drop, .act 1 .dropFutures, .act 1 .dropSlot]

theorem gate_conservation_handedThenDropped :
    ∃ s, (machine oneAndOne).run (init oneAndOne) handedThenDropped = some s ∧
      s.shared.semaphore = .new 1 ∧ s.shared.queued = 0 :=
  ⟨_, rfl, (gate_conservation oneAndOne ⟨handedThenDropped, rfl⟩).2.2.2.2.2.2 (by decide)⟩

end Pinokio.Gate
