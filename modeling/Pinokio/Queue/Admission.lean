/-
# Pinokio.Queue.Admission -- which requests the gate refuses

A call returns `QueueFull` after two separate reads: the failed `try_acquire`,
at an instant where all permits are out, and the counter, at a later instant
where all queue slots are live. The two instants need not be one: a waiter that
was handed a permit keeps its slot until it is polled again, and permits come
back between the reads. So a call may be refused although fewer than
`max_sessions + max_queue` requests are in the gate throughout; more than that
are never in it.
-/
import Pinokio.Queue.Conservation

namespace Pinokio.Gate

open Pool (getElem?_set_cases getElem?_append_cases)

/-! ## Requests in the gate -/

/-- The request owns or was handed a permit, or is registered in the queue. -/
def Call.inGate (c : Call) : Bool := c.ownsPermit || c.hasSlot

def requestsInGate (s : State) : Nat := s.procs.countP Call.inGate

/-- Call `i` has started; it is under way or has just been refused. -/
def underWay (i : Nat) (s : State) : Bool :=
  (s.procs[i]?).any fun c => c.inProgress || c == .returned .queueFull

/-- No instant has more than `max_sessions + max_queue` requests in the gate. -/
theorem requestsInGate_le {limits : Limits} {s : State} (hi : Inv limits s) :
    requestsInGate s ≤ limits.maxSessions + limits.maxQueue := by
  have hor : requestsInGate s ≤ owned s + liveSlots s := by
    unfold requestsInGate owned liveSlots
    induction s.procs with
    | nil => simp
    | cons c cs ih =>
      simp only [List.countP_cons, Call.inGate, Bool.or_eq_true]
      by_cases hown : c.ownsPermit <;> by_cases hslot : c.hasSlot <;> simp [hown, hslot] <;> omega
  have hpermits := hi.permits
  have hslots := hi.slots
  have hbound := hi.bound
  omega

/-! ## The two reads of a refused call -/

/-- The call has failed its `try_acquire` and reads the counter. -/
def Call.reading : Call → Bool
  | load | compareExchange _ => true
  | _ => false

/-- A call comes to read the counter only by failing `try_acquire`. -/
theorem callStep_reading {limits : Limits} {g g' : Shared} {i : Nat} {c c' : Call} {a : CallAction}
    (h : CallStep limits g i c a g' c') (hc : c.reading = false) (hc' : c'.reading = true) :
    c = .tryAcquire ∧ g.semaphore.permits = 0 := by
  cases h with
  | slow hp => exact ⟨rfl, hp⟩
  | load | retry => cases hc
  | slot outcome => cases outcome <;> cases hc'
  | _ => cases hc'

/-- A call is refused only by reading a counter at the queue limit. -/
theorem callStep_queueFull {limits : Limits} {g g' : Shared} {i : Nat} {c c' : Call}
    {a : CallAction} (h : CallStep limits g i c a g' c') (hc : c ≠ .returned .queueFull)
    (hc' : c' = .returned .queueFull) : c.reading = true ∧ limits.maxQueue ≤ g.queued := by
  cases h with
  | load | retry =>
      refine ⟨rfl, ?_⟩
      unfold register at hc'
      split at hc'
      · assumption
      · cases hc'
  | slot outcome => cases outcome <;> cases hc'
  | _ => cases hc'

section Entry

variable {limits : Limits} {t u : State} {e : Action} {i : Nat} {c : Call}

/-- A step of the gate that changes what call `i` is, is a step of call `i`,
unless the call is new. -/
theorem step_moves (h : (machine limits).step t e = some u) (hc : u.procs[i]? = some c) :
    t.procs[i]? = some c ∨ (t.procs[i]? = none ∧ c = .idle) ∨
      ∃ d a g', t.procs[i]? = some d ∧ e = .act i a ∧ u.shared = g' ∧
        CallStep limits t.shared i d a g' c := by
  cases e with
  | spawn d =>
      obtain ⟨hfresh, rfl⟩ := Pool.step_spawn.mp h
      obtain rfl : d = .idle := by simpa [program] using hfresh
      rcases getElem?_append_cases hc with ⟨rfl, rfl⟩ | hc
      · exact Or.inr (Or.inl ⟨List.getElem?_eq_none (le_refl _), rfl⟩)
      · exact Or.inl hc
  | act j a =>
      obtain ⟨d, g', d', hd, hact, rfl⟩ := Pool.step_act.mp h
      rcases getElem?_set_cases hc with ⟨rfl, rfl⟩ | ⟨-, hc⟩
      · exact Or.inr (Or.inr ⟨d, a, g', hd, rfl, rfl, callStep_inv hact⟩)
      · exact Or.inl hc
  | env e =>
      obtain ⟨g', -, rfl⟩ := Pool.step_env.mp h
      exact Or.inl hc

end Entry

/-- The refused call read the counter at an instant where it was at the limit. -/
theorem exists_counter_read {limits : Limits} {as : List Action} {s : State} {i : Nat}
    (hrun : (machine limits).run (init limits) as = some s)
    (hs : s.procs[i]? = some (.returned .queueFull)) :
    ∃ bs cs u c, as = bs ++ cs ∧ (machine limits).run (init limits) bs = some u ∧
      (machine limits).run u cs = some s ∧ u.procs[i]? = some c ∧ c.reading = true ∧
      limits.maxQueue ≤ u.shared.queued := by
  obtain ⟨bs, e, cs, t, u, rfl, ht, htu, hu, hPt, hPu⟩ :=
    Machine.exists_entry (P := fun s => s.procs[i]? = some (.returned .queueFull)) hrun
      (by simp [init]) hs
  rcases step_moves htu hPu with hc | ⟨-, hidle⟩ | ⟨d, a, g', hd, rfl, rfl, hstep⟩
  · exact absurd hc hPt
  · cases hidle
  · have hne : d ≠ .returned .queueFull := by
      rintro rfl
      exact hPt hd
    obtain ⟨hreading, hfull⟩ := callStep_queueFull hstep hne rfl
    exact ⟨bs, _, t, d, rfl, ht, Machine.run_cons_iff _ |>.mpr ⟨u, htu, hu⟩, hd, hreading, hfull⟩

/-- Before that, the call failed its `try_acquire` at an instant without an
available permit. -/
theorem exists_failed_tryAcquire {limits : Limits} {as : List Action} {u : State} {i : Nat}
    {c : Call} (hrun : (machine limits).run (init limits) as = some u)
    (hc : u.procs[i]? = some c) (hreading : c.reading = true) :
    ∃ bs cs t, as = bs ++ cs ∧ (machine limits).run (init limits) bs = some t ∧
      (machine limits).run t cs = some u ∧ t.procs[i]? = some .tryAcquire ∧
      t.shared.semaphore.permits = 0 := by
  obtain ⟨bs, e, cs, t, v, rfl, ht, htv, hv, hPt, d, hd, hdr⟩ :=
    Machine.exists_entry (P := fun s => ∃ d, s.procs[i]? = some d ∧ d.reading = true) hrun
      (by simp [init]) ⟨c, hc, hreading⟩
  rcases step_moves htv hd with hd' | ⟨-, rfl⟩ | ⟨d', a, g', hd', rfl, rfl, hstep⟩
  · exact absurd ⟨d, hd', hdr⟩ hPt
  · cases hdr
  · have hnot : d'.reading = false := by
      cases hr : d'.reading with
      | false => rfl
      | true => exact absurd ⟨d', hd', hr⟩ hPt
    obtain ⟨rfl, hp⟩ := callStep_reading hstep hnot hdr
    exact ⟨bs, _, t, rfl, ht, Machine.run_cons_iff _ |>.mpr ⟨v, htv, hv⟩, hd', hp⟩

/-! ## Admission -/

/-- Exact admission. A refused call found, while it was under way, first all
`max_sessions` permits out and later all `max_queue` queue slots live, none of
them its own; and at no instant of any run are more than
`max_sessions + max_queue` requests in the gate. -/
theorem queueFull_exact (limits : Limits) {as : List Action} {s : State}
    (hrun : (machine limits).run (init limits) as = some s) :
    (∀ i : Nat, s.procs[i]? = some (.returned .queueFull) →
      ∃ bs cs ds t u c, as = bs ++ cs ++ ds ∧
        (machine limits).run (init limits) bs = some t ∧
        (machine limits).run t cs = some u ∧ (machine limits).run u ds = some s ∧
        t.procs[i]? = some .tryAcquire ∧
        t.shared.semaphore.assigned.length + owned t = limits.maxSessions ∧
        u.procs[i]? = some c ∧ c.reading = true ∧ liveSlots u = limits.maxQueue) ∧
    ∀ t ∈ (machine limits).trace (init limits) as,
      requestsInGate t ≤ limits.maxSessions + limits.maxQueue := by
  refine ⟨fun i hs => ?_, fun t ht => ?_⟩
  · obtain ⟨xs, ds, u, c, rfl, hu, hus, hc, hreading, hfull⟩ := exists_counter_read hrun hs
    obtain ⟨bs, cs, t, rfl, ht, htu, htry, hp⟩ := exists_failed_tryAcquire hu hc hreading
    have hit := inv_reachable ⟨bs, ht⟩
    have hiu := inv_reachable ⟨bs ++ cs, hu⟩
    refine ⟨bs, cs, ds, t, u, c, rfl, ht, htu, hus, htry, ?_, hc, hreading, ?_⟩
    · have hpermits := hit.permits
      simp only [Semaphore.free] at hpermits
      omega
    · have hbound := hiu.bound
      have hslots := hiu.slots
      omega
  · exact requestsInGate_le (inv_reachable (Machine.reachable_of_mem_trace ht))

/-- Call 1 waits for call 0 and is handed its permit; call 2 comes before call 1
is polled again. -/
def refusedBelowLimit : List Action :=
  [.spawn .idle, .spawn .idle, .act 0 .start, .act 0 .tryAcquire,
   .act 1 .start, .act 1 .tryAcquire, .act 1 .load, .act 1 (.compareExchange false),
   .act 1 .pollPermit, .act 0 .dropPermit,
   .spawn .idle, .act 2 .start, .act 2 .tryAcquire, .act 2 .load]

/-- With one slot and one place in the queue, call 2 is refused although one
request is in the gate at every instant from its start to its return. -/
theorem queueFull_below_limit :
    ¬ ∀ (limits : Limits) (as : List Action) (s : State) (i : Nat),
      (machine limits).run (init limits) as = some s →
      s.procs[i]? = some (.returned .queueFull) →
      ∃ t ∈ (machine limits).trace (init limits) as, underWay i t = true ∧
        limits.maxSessions + limits.maxQueue ≤ requestsInGate t := by
  intro h
  obtain ⟨t, ht, hway, hfull⟩ := h oneAndOne refusedBelowLimit _ 2 rfl (by decide)
  have hone : ∀ t ∈ (machine oneAndOne).trace (init oneAndOne) refusedBelowLimit,
      underWay 2 t = true → requestsInGate t = 1 := by decide
  have := hone t ht hway
  simp only [oneAndOne] at hfull
  omega

theorem queueFull_exact_refusedBelowLimit :
    ∃ bs t, (machine oneAndOne).run (init oneAndOne) bs = some t ∧
      t.procs[2]? = some .tryAcquire ∧ t.shared.semaphore.assigned.length + owned t = 1 := by
  obtain ⟨s, hrun, hs⟩ : ∃ s, (machine oneAndOne).run (init oneAndOne) refusedBelowLimit = some s ∧
      s.procs[2]? = some (.returned .queueFull) := ⟨_, rfl, by decide⟩
  obtain ⟨bs, -, -, t, -, -, -, ht, -, -, htry, hout, -⟩ := (queueFull_exact oneAndOne hrun).1 2 hs
  exact ⟨bs, t, ht, htry, hout⟩

end Pinokio.Gate
