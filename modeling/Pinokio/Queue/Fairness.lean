/-
# Pinokio.Queue.Fairness -- when a later request can overtake a waiter

The semaphore serves parked tasks in the order in which they parked, but a call
is registered as a waiter one step before it parks: between its compare-exchange
on `queued` and the first poll of its acquire future. A later call that reaches
the semaphore in that gap takes a free permit, or parks first. Outside of the
gap nobody overtakes: a parked waiter means that no permit is available, so the
later call fails its `try_acquire` and parks behind.
-/
import Pinokio.Queue.Admission

namespace Pinokio.Gate

/-! ## Waiting, granted, overtaking -/

/-- Request `i` is registered as a waiter and has no permit yet. -/
def Waiting (i : Nat) (s : State) : Prop :=
  (∃ elapsed, s.procs[i]? = some (.select elapsed)) ∧ i ∉ s.shared.semaphore.assigned

/-- Its acquire future has not been polled: it is in no list of the semaphore. -/
def InGap (i : Nat) (s : State) : Prop := Waiting i s ∧ i ∉ s.shared.semaphore.waiters

/-- Request `i` has not called `acquire` yet. -/
def NotStarted (i : Nat) (s : State) : Prop := ∀ c, s.procs[i]? = some c → c = .idle

/-- The call obtained a permit; the permit may have been dropped since. -/
def Call.admitted : Call → Bool
  | released => true
  | c => c.ownsPermit

/-- Request `i` was handed a permit or has obtained one. -/
def Granted (i : Nat) (s : State) : Prop :=
  i ∈ s.shared.semaphore.assigned ∨ ∃ c, s.procs[i]? = some c ∧ c.admitted = true

/-- In this step request `j` overtakes `i` at the semaphore: while `i` is in the
gap, `j` finds a permit available at its `try_acquire`, or is polled for the
first time and takes a permit or parks. -/
def Overtakes (j i : Nat) (s : State) (e : Action) : Prop :=
  InGap i s ∧
    ((e = .act j .tryAcquire ∧ 0 < s.shared.semaphore.permits) ∨
      (e = .act j .pollPermit ∧ ¬ s.shared.semaphore.Pending j))

/-- `i` is still in the `select!` and will be served before `j`, which has no
permit. -/
structure First (i j : Nat) (s : State) : Prop where
  select : ∃ elapsed, s.procs[i]? = some (.select elapsed)
  precedes : s.shared.semaphore.Precedes i j
  waiting : ∀ c, s.procs[j]? = some c → c.admitted = false

/-- The call has left its `select!`. -/
def Call.pastSelect : Call → Bool
  | idle | tryAcquire | load | compareExchange _ | select _ => false
  | _ => true

/-- `i` was handed a permit in the `select!`, or has left it. -/
def Served (i : Nat) (s : State) : Prop :=
  ((∃ elapsed, s.procs[i]? = some (.select elapsed)) ∧ i ∈ s.shared.semaphore.assigned) ∨
    ∃ c, s.procs[i]? = some c ∧ c.pastSelect = true

theorem not_waiting_of_served {i : Nat} {s : State} (h : Served i s) : ¬ Waiting i s := by
  rintro ⟨⟨elapsed, hsel⟩, hna⟩
  rcases h with ⟨-, ha⟩ | ⟨c, hc, hpast⟩
  · exact hna ha
  · obtain rfl := Option.some.inj (hc.symm.trans hsel)
    cases hpast

/-! ## One step -/

variable {limits : Limits} {g g' : Shared} {i j k : Nat} {c c' : Call} {a : CallAction}

theorem callStep_pastSelect (h : CallStep limits g i c a g' c') (hc : c.pastSelect = true) :
    c'.pastSelect = true := by
  cases h with
  | slot outcome => cases outcome <;> rfl
  | forget | abandon | release => rfl
  | _ => cases hc

/-- A step of another call leaves the permit assigned to `i` where it is. -/
theorem callStep_assigned_of_ne (h : CallStep limits g k c a g' c') (hne : i ≠ k)
    (hi : i ∈ g.semaphore.assigned) : i ∈ g'.semaphore.assigned := by
  cases h with
  | granted => exact Semaphore.mem_assigned_poll_of_ne hne hi
  | parked => exact Semaphore.mem_assigned_poll_of_ne hne hi
  | abandon => exact Semaphore.mem_assigned_cancel_of_ne hne hi
  | release => exact Semaphore.mem_assigned_release hi
  | _ => exact hi

/-- Once served, a request does not wait again. -/
theorem served_step {s s' : State} {e : Action} (h : (machine limits).step s e = some s')
    (hs : Served i s) : Served i s' := by
  cases e with
  | spawn d =>
      obtain ⟨-, rfl⟩ := Pool.step_spawn.mp h
      rcases hs with ⟨⟨elapsed, hsel⟩, ha⟩ | ⟨c, hc, hpast⟩
      · refine Or.inl ⟨⟨elapsed, ?_⟩, ha⟩
        rw [List.getElem?_append_left (List.getElem?_eq_some_iff.mp hsel).1]
        exact hsel
      · refine Or.inr ⟨c, ?_, hpast⟩
        rw [List.getElem?_append_left (List.getElem?_eq_some_iff.mp hc).1]
        exact hc
  | env e =>
      obtain ⟨g', henv, rfl⟩ := Pool.step_env.mp h
      cases e
      obtain rfl : { s.shared with cancelled := true } = g' := Option.some.inj henv
      exact hs
  | act k a =>
      obtain ⟨d, g', d', hd, hact, rfl⟩ := Pool.step_act.mp h
      have hstep := callStep_inv hact
      by_cases hki : i = k
      · subst hki
        have hd' := Pool.getElem?_set_of_some hd d'
        -- its own step: with a permit handed to it, a poll cannot park it again
        rcases hs with ⟨⟨elapsed, hsel⟩, ha⟩ | ⟨c, hc, hpast⟩
        · obtain rfl := Option.some.inj (hd.symm.trans hsel)
          cases hstep with
          | elapse => exact Or.inl ⟨⟨true, hd'⟩, ha⟩
          | parked _ hready =>
              rw [Semaphore.poll_of_mem_assigned ha] at hready
              cases hready
          | granted => exact Or.inr ⟨_, hd', rfl⟩
          | timeout => exact Or.inr ⟨_, hd', rfl⟩
          | shutdown => exact Or.inr ⟨_, hd', rfl⟩
          | dropSelect => exact Or.inr ⟨_, hd', rfl⟩
        · obtain rfl := Option.some.inj (hd.symm.trans hc)
          exact Or.inr ⟨d', hd', callStep_pastSelect hstep hpast⟩
      · rcases hs with ⟨⟨elapsed, hsel⟩, ha⟩ | ⟨c, hc, hpast⟩
        · refine Or.inl ⟨⟨elapsed, ?_⟩, callStep_assigned_of_ne hstep hki ha⟩
          rw [List.getElem?_set_ne (Ne.symm hki)]
          exact hsel
        · refine Or.inr ⟨c, ?_, hpast⟩
          rw [List.getElem?_set_ne (Ne.symm hki)]
          exact hc

/-- A step of the waiter itself keeps it first, or it is served. -/
theorem first_step_waiter {s : State} (hij : i ≠ j) (hf : First i j s)
    (hc : s.procs[i]? = some c) (h : CallStep limits s.shared i c a g' c') :
    First i j { shared := g', procs := s.procs.set i c' } ∨
      Served i { shared := g', procs := s.procs.set i c' } := by
  obtain ⟨⟨elapsed, hsel⟩, hprec, hwait⟩ := hf
  obtain rfl := Option.some.inj (hc.symm.trans hsel)
  have hc' := Pool.getElem?_set_of_some hc c'
  have hj : ∀ d, (s.procs.set i c')[j]? = some d → d.admitted = false := by
    intro d hd
    rw [List.getElem?_set_ne hij] at hd
    exact hwait d hd
  cases h with
  | elapse => exact Or.inl ⟨⟨true, hc'⟩, hprec, hj⟩
  | parked _ hready => exact Or.inl ⟨⟨elapsed, hc'⟩, hprec.poll_first hready, hj⟩
  | granted => exact Or.inr (Or.inr ⟨_, hc', rfl⟩)
  | timeout => exact Or.inr (Or.inr ⟨_, hc', rfl⟩)
  | shutdown => exact Or.inr (Or.inr ⟨_, hc', rfl⟩)
  | dropSelect => exact Or.inr (Or.inr ⟨_, hc', rfl⟩)

/-- What a step of another call does to the order: `i` stays ahead of `j` or is
handed a permit. Where that call is `j`, it finds `i` parked. -/
theorem callStep_precedes (h : CallStep limits g k c a g' c') (hwf : g.semaphore.Wf)
    (hki : k ≠ i) (hprec : g.semaphore.Precedes i j)
    (hparked : k = j → (a = .tryAcquire ∧ 0 < g.semaphore.permits) ∨ a = .pollPermit →
      i ∈ g.semaphore.waiters) :
    i ∈ g'.semaphore.assigned ∨ g'.semaphore.Precedes i j := by
  cases h with
  | granted =>
      by_cases hkj : k = j
      · subst hkj
        exact Or.inr (hprec.poll_second hwf (hparked rfl (Or.inr rfl))).2
      · exact Or.inr (hprec.poll_of_ne hki hkj)
  | parked =>
      by_cases hkj : k = j
      · subst hkj
        exact Or.inr (hprec.poll_second hwf (hparked rfl (Or.inr rfl))).2
      · exact Or.inr (hprec.poll_of_ne hki hkj)
  | abandon => exact hprec.cancel hki
  | release => exact hprec.release
  | _ => exact Or.inr hprec

/-- A call that always finds `i` parked obtains no permit. -/
theorem callStep_not_admitted (h : CallStep limits g j c a g' c') (hwf : g.semaphore.Wf)
    (hprec : g.semaphore.Precedes i j) (hc : c.admitted = false)
    (hparked : (a = .tryAcquire ∧ 0 < g.semaphore.permits) ∨ a = .pollPermit →
      i ∈ g.semaphore.waiters) : c'.admitted = false := by
  cases h with
  | fast hp =>
      have hi := hparked (Or.inl ⟨rfl, hp⟩)
      rw [hwf.idle hp] at hi
      cases hi
  | granted _ hready =>
      rw [(hprec.poll_second hwf (hparked (Or.inr rfl))).1] at hready
      cases hready
  | load | retry =>
      unfold register
      split <;> rfl
  | abandon outcome hne => cases outcome <;> first | rfl | exact absurd rfl hne
  | slot outcome => cases outcome <;> first | rfl | cases hc
  | forget | release => cases hc
  | _ => rfl

/-- While nobody overtakes, a step leaves the waiter first or serves it. -/
theorem first_step {s s' : State} {e : Action} (hi : Inv limits s) (hij : i ≠ j)
    (h : (machine limits).step s e = some s') (hover : ¬ Overtakes j i s e) (hf : First i j s) :
    First i j s' ∨ Served i s' := by
  cases e with
  | spawn d =>
      obtain ⟨hfresh, rfl⟩ := Pool.step_spawn.mp h
      obtain rfl : d = .idle := by simpa [program] using hfresh
      obtain ⟨⟨elapsed, hsel⟩, hprec, hwait⟩ := hf
      refine Or.inl ⟨⟨elapsed, ?_⟩, hprec, fun c hc => ?_⟩
      · rw [List.getElem?_append_left (List.getElem?_eq_some_iff.mp hsel).1]
        exact hsel
      · rcases Pool.getElem?_append_cases hc with ⟨-, rfl⟩ | hc
        · rfl
        · exact hwait c hc
  | env e =>
      obtain ⟨g', henv, rfl⟩ := Pool.step_env.mp h
      cases e
      obtain rfl : { s.shared with cancelled := true } = g' := Option.some.inj henv
      exact Or.inl ⟨hf.select, hf.precedes, hf.waiting⟩
  | act k a =>
      obtain ⟨d, g', d', hd, hact, rfl⟩ := Pool.step_act.mp h
      have hstep := callStep_inv hact
      by_cases hki : k = i
      · subst hki
        exact first_step_waiter hij hf hd hstep
      obtain ⟨⟨elapsed, hsel⟩, hprec, hwait⟩ := hf
      have hsel' : (s.procs.set k d')[i]? = some (.select elapsed) := by
        rw [List.getElem?_set_ne hki]
        exact hsel
      by_cases ha : i ∈ s.shared.semaphore.assigned
      · exact Or.inr (Or.inl ⟨⟨elapsed, hsel'⟩, callStep_assigned_of_ne hstep (Ne.symm hki) ha⟩)
      -- the later call moves: outside the gap the earlier one is in the semaphore's queue
      have hparked : k = j → (a = .tryAcquire ∧ 0 < s.shared.semaphore.permits) ∨
          a = .pollPermit → i ∈ s.shared.semaphore.waiters := by
        rintro rfl hsem
        by_contra hnot
        have hgap : InGap i s := ⟨⟨⟨elapsed, hsel⟩, ha⟩, hnot⟩
        rcases hsem with ⟨rfl, hp⟩ | rfl
        · exact hover ⟨hgap, Or.inl ⟨rfl, hp⟩⟩
        · exact hover ⟨hgap, Or.inr ⟨rfl, fun hpend => hnot (hprec.mem_waiters hpend)⟩⟩
      rcases callStep_precedes hstep hi.wf hki hprec hparked with ha' | hprec'
      · exact Or.inr (Or.inl ⟨⟨elapsed, hsel'⟩, ha'⟩)
      · refine Or.inl ⟨⟨elapsed, hsel'⟩, hprec', fun c hc => ?_⟩
        rcases Pool.getElem?_set_cases hc with ⟨rfl, rfl⟩ | ⟨-, hc⟩
        · exact callStep_not_admitted hstep hi.wf hprec (hwait d hd) (hparked rfl)
        · exact hwait c hc

/-! ## Runs -/

/-- A request that starts after `i` has registered is behind it. -/
theorem first_of_notStarted {s : State} (hi : Inv limits s) (hw : Waiting i s)
    (hj : NotStarted j s) : First i j s := by
  refine ⟨hw.1, Semaphore.precedes_of_not_pending i fun hpend => ?_, fun c hc => ?_⟩
  · obtain ⟨c, hc, hwaits⟩ := hi.pending j hpend
    rw [hj c hc] at hwaits
    cases hwaits
  · rw [hj c hc]
    rfl

/-- FIFO without bypass, with its condition. From a state where `i` waits and `j`
has not started, every run in which `j` does not overtake `i` at the semaphore,
that is, does not reach it while `i` is registered but not parked, leaves `j`
without a permit for as long as `i` waits. -/
theorem no_bypass (limits : Limits) {s₁ s₂ : State} {i j : Nat} {as : List Action}
    (hreach : (machine limits).Reachable (init limits) s₁)
    (hi : Waiting i s₁) (hj : NotStarted j s₁)
    (hrun : (machine limits).run s₁ as = some s₂)
    (hover : Machine.Along (fun s e => ¬ Overtakes j i s e) (machine limits) s₁ as)
    (hi₂ : Waiting i s₂) : ¬ Granted j s₂ := by
  have hinv := inv_reachable hreach
  have hij : i ≠ j := by
    rintro rfl
    obtain ⟨elapsed, hsel⟩ := hi.1
    cases hj _ hsel
  have hend : Inv limits s₂ ∧ (First i j s₂ ∨ Served i s₂) := by
    refine Machine.run_invariant_along (I := fun s => Inv limits s ∧ (First i j s ∨ Served i s))
      ?_ hrun hover ⟨hinv, Or.inl (first_of_notStarted hinv hi hj)⟩
    rintro s e s' hstep hno ⟨hs, hf | hserved⟩
    · exact ⟨inv_step hstep hs, first_step hs hij hstep hno hf⟩
    · exact ⟨inv_step hstep hs, Or.inr (served_step hstep hserved)⟩
  rcases hend.2 with hf | hserved
  · rintro (ha | ⟨c, hc, hadm⟩)
    · exact hf.precedes.1 ha
    · rw [hf.waiting c hc] at hadm
      cases hadm
  · exact absurd hi₂ (not_waiting_of_served hserved)

/-- Call 0 has the only permit; call 1 has registered as a waiter. -/
def registeredBehindSession : List Action :=
  [.spawn .idle, .spawn .idle, .act 0 .start, .act 0 .tryAcquire,
   .act 1 .start, .act 1 .tryAcquire, .act 1 .load, .act 1 (.compareExchange false)]

/-- The state after that run. -/
def registered : State where
  shared := { semaphore := { permits := 0, waiters := [], assigned := [] }, queued := 1,
              cancelled := false }
  procs := [.holding, .select false]

/-- Before call 1 is polled the permit comes back, and call 2 takes it. -/
def bypass : List Action :=
  [.act 0 .dropPermit, .spawn .idle, .act 2 .start, .act 2 .tryAcquire]

def bypassed : State where
  shared := { semaphore := { permits := 0, waiters := [], assigned := [] }, queued := 1,
              cancelled := false }
  procs := [.released, .select false, .holding]

theorem bypass_in_gap :
    ¬ ∀ (limits : Limits) (s₁ s₂ : State) (i j : Nat) (as : List Action),
      (machine limits).Reachable (init limits) s₁ → Waiting i s₁ → NotStarted j s₁ →
      (machine limits).run s₁ as = some s₂ → Waiting i s₂ → ¬ Granted j s₂ := by
  intro h
  refine h oneAndOne registered bypassed 1 2 bypass ⟨registeredBehindSession, rfl⟩
    ⟨⟨false, rfl⟩, by decide⟩ ?_ rfl ⟨⟨false, rfl⟩, by decide⟩ (Or.inr ⟨.holding, rfl, rfl⟩)
  intro c hc
  cases hc

/-- Call 1 parked, the permit still out. -/
def parkedBehindSession : State where
  shared := { semaphore := { permits := 0, waiters := [1], assigned := [] }, queued := 1,
              cancelled := false }
  procs := [.holding, .select false]

/-- Call 2 has failed its `try_acquire` behind call 1. -/
def behindParked : State where
  shared := { semaphore := { permits := 0, waiters := [1], assigned := [] }, queued := 1,
              cancelled := false }
  procs := [.holding, .select false, .load]

theorem no_bypass_behindParked : ¬ Granted 2 behindParked := by
  refine @no_bypass oneAndOne parkedBehindSession behindParked 1 2
    [.spawn .idle, .act 2 .start, .act 2 .tryAcquire]
    ⟨registeredBehindSession ++ [.act 1 .pollPermit], rfl⟩ ⟨⟨false, rfl⟩, by decide⟩ ?_ rfl ?_
    ⟨⟨false, rfl⟩, by decide⟩
  · intro c hc
    cases hc
  · have hparked : ∀ (s : State) (e : Action), 1 ∈ s.shared.semaphore.waiters →
        ¬ Overtakes 2 1 s e := fun s e hmem hover => hover.1.2 hmem
    exact Machine.along_cons_of_step (hparked _ _ (by decide)) rfl
      (Machine.along_cons_of_step (hparked _ _ (by decide)) rfl
        (Machine.along_cons_of_step (hparked _ _ (by decide)) rfl trivial))

end Pinokio.Gate
