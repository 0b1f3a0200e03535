/-
# Pinokio.Queue.Waiting -- how long a parked call waits

A permit that comes back goes to the oldest waiter, so a parked call moves up with every
hand-over, whatever the other calls do: no later one gets ahead of it, and one that leaves
the queue makes room. `waiting_bounded` counts the hand-overs of a run against the places;
there are fewer places than the queue is long.
-/
import Mathlib.Data.List.Perm.Subperm
import Pinokio.Queue.Fairness

namespace Pinokio.Gate

variable {limits : Limits} {i : Nat}

/-! ## The count -/

/-- Call `i` is in its `select!` and in the queue of the semaphore. -/
def Parked (i : Nat) (s : State) : Prop :=
  (∃ elapsed, s.procs[i]? = some (.select elapsed)) ∧ i ∈ s.shared.semaphore.waiters

/-- How many calls are ahead of it there. -/
def ahead (i : Nat) (s : State) : Nat := s.shared.semaphore.place i

/-- How often in the run of `as` a permit goes to the oldest waiter. -/
def handOvers (limits : Limits) : State → List Action → Nat
  | _, [] => 0
  | s, a :: as =>
    match (machine limits).step s a with
    | none => 0
    | some s' => (s.shared.semaphore.handsOver s'.shared.semaphore).toNat + handOvers limits s' as

theorem not_served_of_parked {s : State} (hi : Inv limits s) (h : Parked i s) : ¬ Served i s := by
  obtain ⟨⟨elapsed, hsel⟩, hmem⟩ := h
  refine fun hserved => not_waiting_of_served hserved ⟨⟨elapsed, hsel⟩, fun ha => ?_⟩
  exact List.disjoint_of_nodup_append hi.wf.nodup hmem ha

/-! ## One step -/

/-- A step of another call serves `i`, or leaves it in its place or further on. -/
theorem callStep_advances {g g' : Shared} {k : Nat} {c c' : Call} {a : CallAction}
    (h : CallStep limits g k c a g' c') (hwf : g.semaphore.Wf) (hki : k ≠ i)
    (hi : i ∈ g.semaphore.waiters) :
    i ∈ g'.semaphore.assigned ∨ g.semaphore.Advances g'.semaphore i := by
  have hstays : g.semaphore.Advances g.semaphore i :=
    .of_append hwf hi (fun w hw => hw) (List.append_nil _).symm
  cases h with
  | granted | parked => exact Or.inr (hwf.advances_poll hi k)
  | abandon => exact hwf.advances_cancel hi hki
  | release => exact Semaphore.advances_release hi
  | fast => exact Or.inr (.of_append hwf hi (fun w hw => hw) (List.append_nil _).symm)
  | _ => exact Or.inr hstays

/-- A step of the parked call itself leaves it where it is, or it has left the `select!`. -/
theorem callStep_parked {s : State} {g' : Shared} {c c' : Call} {a : CallAction}
    (h : CallStep limits s.shared i c a g' c') (hwf : s.shared.semaphore.Wf)
    (hc : s.procs[i]? = some c) (hp : Parked i s) :
    Served i { shared := g', procs := s.procs.set i c' } ∨
      (Parked i { shared := g', procs := s.procs.set i c' } ∧
        s.shared.semaphore.Advances g'.semaphore i) := by
  obtain ⟨⟨elapsed, hsel⟩, hmem⟩ := hp
  obtain rfl := Option.some.inj (hc.symm.trans hsel)
  have hc' := Pool.getElem?_set_of_some hc c'
  have hpoll := hwf.advances_poll hmem i
  cases h with
  | elapse =>
      exact Or.inr ⟨⟨⟨true, hc'⟩, hmem⟩,
        .of_append hwf hmem (fun w hw => hw) (List.append_nil _).symm⟩
  | parked _ hready => exact Or.inr ⟨⟨⟨elapsed, hc'⟩, hpoll.1⟩, hpoll⟩
  | granted | timeout | shutdown | dropSelect => exact Or.inl (Or.inr ⟨_, hc', rfl⟩)

theorem parked_step {s s' : State} {e : Action} (hi : Inv limits s)
    (h : (machine limits).step s e = some s') (hp : Parked i s) :
    Served i s' ∨ (Parked i s' ∧ s.shared.semaphore.Advances s'.shared.semaphore i) := by
  have hstays : s.shared.semaphore.Advances s.shared.semaphore i :=
    .of_append hi.wf hp.2 (fun w hw => hw) (List.append_nil _).symm
  cases e with
  | spawn d =>
      obtain ⟨-, rfl⟩ := Pool.step_spawn.mp h
      obtain ⟨⟨elapsed, hsel⟩, hmem⟩ := hp
      refine Or.inr ⟨⟨⟨elapsed, ?_⟩, hmem⟩, hstays⟩
      rw [List.getElem?_append_left (List.getElem?_eq_some_iff.mp hsel).1]
      exact hsel
  | env e =>
      obtain ⟨g', henv, rfl⟩ := Pool.step_env.mp h
      cases e
      obtain rfl : { s.shared with cancelled := true } = g' := Option.some.inj henv
      exact Or.inr ⟨hp, hstays⟩
  | act k a =>
      obtain ⟨d, g', d', hd, hact, rfl⟩ := Pool.step_act.mp h
      have hstep := callStep_inv hact
      by_cases hki : k = i
      · subst hki
        exact callStep_parked hstep hi.wf hd hp
      obtain ⟨⟨elapsed, hsel⟩, hmem⟩ := hp
      have hsel' : (s.procs.set k d')[i]? = some (.select elapsed) := by
        rw [List.getElem?_set_ne hki]
        exact hsel
      rcases callStep_advances hstep hi.wf hki hmem with ha | hadvances
      · exact Or.inl (Or.inl ⟨⟨elapsed, hsel'⟩, ha⟩)
      · exact Or.inr ⟨⟨⟨elapsed, hsel'⟩, hadvances.1⟩, hadvances⟩

/-! ## Runs -/

theorem served_run {s t : State} {as : List Action} (hrun : (machine limits).run s as = some t)
    (hs : Served i s) : Served i t :=
  Machine.run_invariant (I := Served i) (fun _ _ _ hst hs => served_step hst hs) hrun hs

theorem handOvers_run {s t : State} {as : List Action} (hi : Inv limits s) (hp : Parked i s)
    (hrun : (machine limits).run s as = some t) (ht : Parked i t) :
    ahead i t + handOvers limits s as ≤ ahead i s := by
  induction as generalizing s with
  | nil =>
      obtain rfl : s = t := Option.some.inj hrun
      exact Nat.le_refl _
  | cons a as ih =>
      obtain ⟨u, hst, hu⟩ := (Machine.run_cons_iff _).mp hrun
      have hiu := inv_step hst hi
      rcases parked_step hi hst hp with hserved | ⟨hpu, -, hadvances⟩
      · have hit : Inv limits t :=
          Machine.run_invariant (I := Inv limits) (fun _ _ _ hst hi => inv_step hst hi) hu hiu
        exact absurd (served_run hu hserved) (not_served_of_parked hit ht)
      · have hrest := ih hiu hpu hu
        simp only [handOvers, hst]
        unfold ahead at *
        omega

theorem hasSlot_of_waits {c : Call} (h : c.waits = true) : c.hasSlot = true := by
  cases c with
  | select | unwind => rfl
  | _ => cases h

/-- The waiters are calls with a queue slot each. -/
theorem waiters_length_le {s : State} (hi : Inv limits s) :
    s.shared.semaphore.waiters.length ≤ limits.maxQueue := by
  have hsub : s.shared.semaphore.waiters ⊆
      (s.procs.zipIdx.filter fun x => x.1.hasSlot).map Prod.snd := by
    intro j hj
    obtain ⟨c, hc, hw⟩ := hi.pending j (Or.inl hj)
    refine List.mem_map.mpr ⟨(c, j), List.mem_filter.mpr ⟨?_, hasSlot_of_waits hw⟩, rfl⟩
    exact List.mem_zipIdx_iff_getElem?.mpr hc
  calc s.shared.semaphore.waiters.length
      ≤ ((s.procs.zipIdx.filter fun x => x.1.hasSlot).map Prod.snd).length :=
        (List.subperm_of_subset hi.wf.nodup.of_append_left hsub).length_le
    _ = s.procs.countP Call.hasSlot := by
        rw [List.length_map, ← List.countP_eq_length_filter]
        conv_rhs => rw [← List.zipIdx_map_fst 0 s.procs, List.countP_map]
        rfl
    _ = s.shared.queued := hi.slots.symm
    _ ≤ limits.maxQueue := hi.bound

/-- A parked call has fewer calls ahead of it than the queue is long; and while it waits, at
most as many permits are handed to waiters as there were ahead of it, so that the next one
after these is its own. -/
theorem waiting_bounded {s t : State} {as : List Action}
    (h : (machine limits).Reachable (init limits) s) (hs : Parked i s)
    (hrun : (machine limits).run s as = some t) (ht : Parked i t) :
    ahead i s < limits.maxQueue ∧ ahead i t + handOvers limits s as ≤ ahead i s := by
  have hi := inv_reachable h
  refine ⟨?_, handOvers_run hi hs hrun ht⟩
  have hlt : ahead i s < s.shared.semaphore.waiters.length := List.idxOf_lt_length_of_mem hs.2
  exact Nat.lt_of_lt_of_le hlt (waiters_length_le hi)

/-- Three slots in the queue: call 0 has the only permit, and the calls 1 and 2 park. -/
def oneAndThree : Limits := { maxSessions := 1, maxQueue := 3, maxQueue_lt := by decide }

def parks (i : Nat) : List Action :=
  [.spawn .idle, .act i .start, .act i .tryAcquire, .act i .load,
    .act i (.compareExchange false), .act i .pollPermit]

def secondParked : List Action :=
  [.spawn .idle, .act 0 .start, .act 0 .tryAcquire] ++ parks 1 ++ parks 2

/-- The permit goes to call 1, and call 2 is next. -/
theorem waiting_bounded_secondParked :
    ∃ s t : State, (machine oneAndThree).run (init oneAndThree) secondParked = some s ∧
      (machine oneAndThree).run s [.act 0 .dropPermit] = some t ∧
      handOvers oneAndThree s [.act 0 .dropPermit] = 1 ∧
      ahead 2 t + handOvers oneAndThree s [.act 0 .dropPermit] ≤ ahead 2 s := by
  have hrun : ∃ s t : State, (machine oneAndThree).run (init oneAndThree) secondParked = some s ∧
      (machine oneAndThree).run s [.act 0 .dropPermit] = some t ∧
      handOvers oneAndThree s [.act 0 .dropPermit] = 1 ∧
      s.procs[2]? = some (.select false) ∧ s.shared.semaphore.waiters = [1, 2] ∧
      t.procs[2]? = some (.select false) ∧ t.shared.semaphore.waiters = [2] :=
    ⟨_, _, rfl, rfl, rfl, rfl, rfl, rfl, rfl⟩
  obtain ⟨s, t, hs, ht, hcount, hsel, hwaiters, hsel', hwaiters'⟩ := hrun
  refine ⟨s, t, hs, ht, hcount, (waiting_bounded ⟨_, hs⟩ ⟨⟨false, hsel⟩, ?_⟩ ht
    ⟨⟨false, hsel'⟩, ?_⟩).2⟩
  · rw [hwaiters]
    decide
  · rw [hwaiters']
    decide

end Pinokio.Gate
