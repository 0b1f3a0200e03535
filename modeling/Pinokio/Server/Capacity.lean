/-
# Pinokio.Server.Capacity -- whether the gate gets its permits back

Every permit goes back to the gate by steps of the server alone, except in three places in
which a request is left to its Chromium or to its client: the connect, the upgrade and
a send to a peer that does not read (`capacity_regained_iff`). From everywhere else a
request is led to the end of its call: a call that waits by its queue timer, an admission
by the way of `Ending.Ahead`, a session by the one of `Request.Closable`, a detached
teardown by the drop of its permit. `exists_settled` leads one request after the other.
-/
import Pinokio.Server.SessionEnd

namespace Pinokio.Server

variable {Code : Type} {limits : Gate.Limits} {codes : Proxy.CloseCodes Code}

/-! ## One request after the other -/

/-- The grace period and the drain time-out are the server's, and so is what follows a wait
that is over. -/
def EnvAction.unaided : EnvAction → Bool
  | graceElapses | served | drained | drainElapses => true
  | browserReady | browserFails | signal | serveFails => false

/-- The server takes this step by itself. -/
def Unaided (s : State Code) : Action Code → Prop
  | .spawn _ => False
  | .act i a => ∃ r, s.procs[i]? = some r ∧ r.unaided a = true
  | .env e => e.unaided = true

theorem unaided_of_unaidedBy {i : Nat} {s : State Code} {e : Action Code}
    (h : UnaidedBy i s e) : Unaided s e := by
  obtain ⟨a, r, rfl, hr, ha⟩ := h
  exact ⟨r, hr, ha⟩

/-- What the steps of a request by the server keep of it, all such steps keep. -/
theorem unaided_keeps {K : Request Code → Prop} {i : Nat}
    (hstep : ∀ {s s' : AppState} {r r' : Request Code} {a : RequestAction Code},
      RequestStep limits codes s i r a s' r' → r.unaided a = true → K r → K r')
    {s s' : State Code} {e : Action Code} (h : (machine limits codes).step s e = some s')
    (hun : Unaided s e) (hk : ∃ r, s.procs[i]? = some r ∧ K r) :
    ∃ r, s'.procs[i]? = some r ∧ K r := by
  apply Pool.step_exists h _ hk
  rintro a r r' rfl hact hr hkr
  obtain ⟨q, hq, ha⟩ := hun
  obtain rfl := Option.some.inj (hq.symm.trans hr)
  exact hstep (act_inv hact).2 ha hkr

/-- Nothing has changed but the gate, and some requests are done. -/
structure Settles (done : Request Code → Prop) (s t : State Code) : Prop where
  shared : t.shared = { s.shared with gate := t.shared.gate }
  procs : ∀ r ∈ t.procs, r ∈ s.procs ∨ done r

/-- If steps of the server for each request of a kind alone bring it to where it is done, they
bring all of them there. -/
theorem exists_settled (limits : Gate.Limits) (codes : Proxy.CloseCodes Code) {s : State Code}
    (p : Request Code → Bool) (done : Request Code → Prop) (hdone : ∀ r, done r → p r = false)
    (hlead : ∀ t i r, (machine limits codes).Reachable (init limits) t → Settles done s t →
      t.procs[i]? = some r → r ∈ s.procs → p r = true →
      ∃ as s' r', Machine.Along (UnaidedBy i) (machine limits codes) t as ∧
        (machine limits codes).run t as = some s' ∧ s'.procs[i]? = some r' ∧ done r')
    (h : (machine limits codes).Reachable (init limits) s) :
    ∃ as t, Machine.Along Unaided (machine limits codes) s as ∧
      (machine limits codes).run s as = some t ∧
      ((machine limits codes).Reachable (init limits) t ∧ Settles done s t) ∧
      ∀ r ∈ t.procs, p r = false := by
  refine Pool.exists_clear (Q := Unaided)
    (I := fun t => (machine limits codes).Reachable (init limits) t ∧ Settles done s t)
    p ?_ ⟨h, rfl, fun _ hr => Or.inl hr⟩
  rintro t i r ⟨ht, hsettles⟩ hr hp
  have hmem : r ∈ s.procs := by
    rcases hsettles.procs r (List.mem_of_getElem? hr) with hmem | hd
    · exact hmem
    · rw [hdone r hd] at hp
      cases hp
  obtain ⟨as, s', r', hAlong, hrun, hr', hd⟩ := hlead t i r ht hsettles hr hmem hp
  obtain ⟨hshared, q, hprocs⟩ := unaidedBy_frame hr hrun hAlong
  obtain rfl : q = r' := by
    rw [hprocs, Pool.getElem?_set_of_some hr] at hr'
    exact Option.some.inj hr'
  refine ⟨as, s', q, Machine.along_mono (fun _ _ => unaided_of_unaidedBy) hAlong, hrun, hprocs,
    hdone q hd, ht.trans ⟨as, hrun⟩, ?_, ?_⟩
  · exact hshared.trans (by rw [hsettles.shared])
  · intro c hc
    rw [hprocs] at hc
    rcases List.mem_or_eq_of_mem_set hc with hc | rfl
    · exact hsettles.procs c hc
    · exact Or.inr hd

/-! ## Where the call of a request is -/

/-- What a phase says of the call of its request. -/
def Phase.Places : Phase Code → Gate.Call → Prop
  | authorize, c | checkShutdown, c | checkBrowser, c | parseLaunch, c => c = .idle
  | acquiring, c => c ≠ .released
  | detached _, c => c = .holding ∨ c = .released
  | ended _, c => c = .idle ∨ c.isOver = true
  | _, c => c = .holding

theorem dropPermit_of_released {g g' : Gate.Shared} {i : Nat} {c c' : Gate.Call}
    {a : Gate.CallAction} (h : Gate.CallStep limits g i c a g' c') (hc : c' = .released) :
    a = .dropPermit := by
  cases h with
  | release => rfl
  | slot outcome => cases outcome <;> cases hc
  | load | retry =>
      unfold Gate.register at hc
      split at hc <;> cases hc
  | _ => cases hc

theorem places_step {s s' : AppState} {i : Nat} {r r' : Request Code} {a : RequestAction Code}
    (h : RequestStep limits codes s i r a s' r') (hk : r.phase.Places r.call) :
    r'.phase.Places r'.call := by
  cases h with
  | gate a g c hp hne h =>
      show r.phase.Places c
      rw [hp]
      exact fun hc => hne (dropPermit_of_released (Gate.callStep_inv h) hc)
  | unauthorized hp | shuttingDown hp | browserInstalling hp | dropNew hp =>
      rw [hp] at hk
      exact Or.inl hk
  | invalidLaunchOptions reason hp hl =>
      rw [hp] at hk
      exact Or.inl hk
  | launchOptions hp hl =>
      rw [hp] at hk
      show r.call ≠ .released
      rw [show r.call = .idle from hk]
      exact fun h => by cases h
  | admitted hp hc => exact hc
  | refused error hp hc | dropped hp hc =>
      have hover : r.call.isOver = true := by
        rw [hc]
        rfl
      exact Or.inr hover
  | panic relay hp =>
      rw [hp] at hk
      exact Or.inl hk
  | detached hp hc => exact Or.inr (by rw [hc]; rfl)
  | dropSuspended hs =>
      rcases Phase.suspended_cases hs with ⟨_, _, hp⟩ | ⟨_, _, hp⟩ | hp <;> rwa [hp] at hk
  | release ending g c hp h =>
      exact Or.inr (by rw [Gate.dropPermit_inv (Gate.callStep_inv h)]; rfl)
  | releaseDetached shutdown g c hp h =>
      show r.phase.Places c
      rw [hp]
      exact Or.inr (Gate.dropPermit_inv (Gate.callStep_inv h))
  | exits p p' hc h => exact hk
  | _ => rwa [‹r.phase = _›] at hk

theorem places_reachable {s : State Code}
    (h : (machine limits codes).Reachable (init limits) s) {i : Nat} {r : Request Code}
    (hr : s.procs[i]? = some r) : r.phase.Places r.call := by
  refine h.invariant (I := fun s : State Code =>
    ∀ r, s.procs[i]? = some r → r.phase.Places r.call) (fun _ hr => by cases hr) ?_ r hr
  intro s e s' hst hk
  apply Pool.step_forall hst _ _ hk
  · intro r hnew
    rw [isNew_phase hnew]
    exact isNew_call hnew
  · intro a r r' _ hact _
    exact places_step (act_inv hact).2

/-! ## Out of the gate -/

/-- How many steps a call is from its end, when nobody gives it a permit. -/
def returningRank (g : Gate.Shared) : Gate.Call → Nat
  | .idle => 10
  | .tryAcquire => 9
  | .load => 8
  | .compareExchange current => if g.queued = current then 6 else 7
  | .select elapsed => if elapsed then 4 else 5
  | .unwind _ => 3
  | .dropSlot _ => 2
  | _ => 0

theorem returningRank_register (g : Gate.Shared) :
    returningRank g (Gate.register limits g.queued) ≤ 6 := by
  unfold Gate.register
  split <;> simp [returningRank]

theorem register_ne_released (n : Nat) : Gate.register limits n ≠ .released := by
  unfold Gate.register
  split <;> exact fun h => by cases h

/-- A call that has not returned has a step towards that, on its queue timer if nothing else. -/
theorem exists_returning_step (limits : Gate.Limits) (g : Gate.Shared) (i : Nat)
    {c : Gate.Call} (hover : c.isOver = false) (hc : c ≠ .holding) :
    ∃ a g' c', a ≠ .dropPermit ∧ a ≠ .drop ∧ Gate.callStep limits g i c a = some (g', c') ∧
      c' ≠ .released ∧ returningRank g' c' < returningRank g c := by
  cases c with
  | idle => exact ⟨.start, g, .tryAcquire, by decide, by decide, rfl, by decide,
      by simp [returningRank]⟩
  | tryAcquire =>
      cases ht : g.semaphore.tryAcquire with
      | some semaphore =>
          exact ⟨.tryAcquire, { g with semaphore }, .holding, by decide, by decide,
            by simp [Gate.callStep, ht], by decide, by simp [returningRank]⟩
      | none =>
          exact ⟨.tryAcquire, g, .load, by decide, by decide, by simp [Gate.callStep, ht],
            by decide, by simp [returningRank]⟩
  | load =>
      exact ⟨.load, g, Gate.register limits g.queued, by decide, by decide, rfl,
        register_ne_released _, Nat.lt_of_le_of_lt (returningRank_register g)
          (by simp [returningRank])⟩
  | compareExchange current =>
      by_cases heq : g.queued = current
      · exact ⟨.compareExchange false, { g with queued := Gate.incr current }, .select false,
          by decide, by decide, by simp [Gate.callStep, heq], by decide,
          by simp [returningRank, heq]⟩
      · refine ⟨.compareExchange false, g, Gate.register limits g.queued, by decide, by decide,
          by simp [Gate.callStep, heq], register_ne_released _,
          Nat.lt_of_le_of_lt (returningRank_register g) ?_⟩
        simp [returningRank, heq]
  | select elapsed =>
      cases elapsed with
      | false =>
          exact ⟨.elapse, g, .select true, by decide, by decide, rfl, by decide,
            by simp [returningRank]⟩
      | true =>
          exact ⟨.pollSleep, g, .unwind .queueTimeout, by decide, by decide, rfl, by decide,
            by simp [returningRank]⟩
  | unwind outcome =>
      cases outcome with
      | _ => exact ⟨.dropFutures, _, _, by decide, by decide, rfl, by decide,
          by simp [returningRank]⟩
  | dropSlot outcome =>
      refine ⟨.dropSlot, _, _, by decide, by decide, rfl, ?_, ?_⟩
      · cases outcome <;> exact fun h => by cases h
      · cases outcome <;> simp [returningRank, Gate.Outcome.finish]
  | holding => exact absurd rfl hc
  | returned | dropped | released => cases hover

/-- Steps of the call lead it to its permit or to its end. -/
theorem exists_returning_run (limits : Gate.Limits) (codes : Proxy.CloseCodes Code)
    {s : State Code} {i : Nat} {r : Request Code}
    (hmain : s.shared.main.isExited = false) (hr : s.procs[i]? = some r)
    (hp : r.phase = .acquiring) (hc : r.call ≠ .released) :
    ∃ as s' c, Machine.Along (UnaidedBy i) (machine limits codes) s as ∧
      (machine limits codes).run s as = some s' ∧ s'.procs[i]? = some { r with call := c } ∧
      c ≠ .released ∧ (c.isOver = true ∨ c = .holding) := by
  have hnearer : ∀ (s : AppState) (q : Request Code),
      (q = { r with call := q.call } ∧ q.call ≠ .released) →
      (q.call.isOver = true ∨ q.call = .holding) ∨
      ∃ a s' q', q.unaided a = true ∧ requestStep limits codes s i q a = some (s', q') ∧
        s'.main = s.main ∧ (q' = { r with call := q'.call } ∧ q'.call ≠ .released) ∧
        returningRank s'.gate q'.call < returningRank s.gate q.call := by
    rintro s q ⟨hq, hne⟩
    by_cases hend : q.call.isOver = true ∨ q.call = .holding
    · exact Or.inl hend
    · rw [not_or, Bool.not_eq_true] at hend
      have hphase : q.phase = .acquiring := by rw [hq]; exact hp
      obtain ⟨a, g, c, hrelease, hdrop, hstep, hc', hlt⟩ :=
        exists_returning_step limits s.gate i hend.1 hend.2
      exact Or.inr ⟨.gate a, { s with gate := g }, { q with call := c },
        by simpa [Request.unaided] using hdrop,
        by simp [requestStep, hphase, hrelease, hstep], rfl, ⟨by rw [hq], hc'⟩, hlt⟩
  obtain ⟨as, s', r', -, hAlong, hrun, hr', ⟨heq, hc'⟩, hend⟩ :=
    exists_unaided_run limits codes i (fun q => q.call.isOver = true ∨ q.call = .holding)
      (fun g q => returningRank g q.call) hnearer hmain hr ⟨rfl, hc⟩
  exact ⟨as, s', r'.call, hAlong, hrun, heq ▸ hr', hc', hend⟩

/-! ## To the end of a call -/

/-- The call owns a permit or may come to own one. -/
def Request.engaged (r : Request Code) : Bool := r.call.inProgress || r.call = .holding

theorem not_engaged {r : Request Code} (h : r.call = .idle ∨ r.call.isOver = true) :
    r.engaged = false := by
  rcases h with hidle | hover
  · simp [Request.engaged, hidle, Gate.Call.inProgress]
  · cases hcall : r.call <;> simp_all [Request.engaged, Gate.Call.inProgress, Gate.Call.isOver]

/-- The request goes on only if its Chromium or its client does something. -/
def Phase.awaitsPeer : Phase Code → Bool
  | connecting | starting .ready _ | upgrading => true
  | relaying relay => relay.blocked
  | _ => false

theorem connects_of_awaitsPeer {phase : Phase Code} (h : phase.awaitsPeer = false) :
    phase.connects = false := by
  unfold Phase.connects
  split
  all_goals first | cases h | rfl

theorem blocked_of_awaitsPeer {phase : Phase Code} (h : phase.awaitsPeer = false) :
    phase.blocked = false := by
  cases phase with
  | relaying relay => exact h
  | _ => rfl

/-- The drop of its permit is a step of any request that has nothing else left to do. -/
theorem exists_release (limits : Gate.Limits) (codes : Proxy.CloseCodes Code) {s : State Code}
    {i : Nat} {r : Request Code} (r' : Request Code) (hmain : s.shared.main.isExited = false)
    (hr : s.procs[i]? = some r)
    (hstep : ∃ s', requestStep limits codes s.shared i r .dropPermit = some (s', r')) :
    ∃ as s', Machine.Along (UnaidedBy i) (machine limits codes) s as ∧
      (machine limits codes).run s as = some s' ∧ s'.procs[i]? = some r' := by
  obtain ⟨shared, hstep⟩ := hstep
  have hmove : (machine limits codes).step s (.act i .dropPermit) =
      some { shared, procs := s.procs.set i r' } := by
    refine Pool.step_act.mpr ⟨r, shared, r', hr, ?_, rfl⟩
    simp [program, hmain, hstep]
  exact ⟨[.act i .dropPermit], _, Machine.along_cons_of_step ⟨_, r, rfl, hr, rfl⟩ hmove trivial,
    (Machine.run_singleton _).mpr hmove, Pool.getElem?_set_of_some hr r'⟩

/-- An admission that does not wait for its Chromium is led to the end of its call. -/
theorem exists_over_of_ahead {s : State Code} {i : Nat} {r : Request Code}
    (hmain : s.shared.main.isExited = false) (hr : s.procs[i]? = some r)
    (ha : Ending.Ahead r) :
    ∃ as s' r', Machine.Along (UnaidedBy i) (machine limits codes) s as ∧
      (machine limits codes).run s as = some s' ∧ s'.procs[i]? = some r' ∧ r'.over := by
  obtain ⟨as, s', -, hAlong, hrun, r', hr', hover⟩ := exists_ending_run hmain hr ha
  exact ⟨as, s', r', Machine.along_mono (fun _ _ => unaidedBy_of_serverSide) hAlong, hrun, hr',
    hover⟩

theorem ahead_of_holding {r : Request Code} (hcall : r.call = .holding)
    (hphase : r.phase.awaitsResponse = true) (haway : r.phase.connects = false)
    (hequipped : r.phase.Equipped r.chromium) : Ending.Ahead r :=
  ⟨by simp [Request.inAdmission, hcall, hphase], haway, hequipped⟩

/-- A request that does not wait for its Chromium or its client is led to the end of its call. -/
theorem exists_over {s : State Code} {i : Nat} {r : Request Code}
    (h : (machine limits codes).Reachable (init limits) s)
    (hmain : s.shared.main.isExited = false) (hr : s.procs[i]? = some r)
    (hengaged : r.engaged = true) (hno : r.phase.awaitsPeer = false) :
    ∃ as s' r', Machine.Along (UnaidedBy i) (machine limits codes) s as ∧
      (machine limits codes).run s as = some s' ∧ s'.procs[i]? = some r' ∧
      r'.call.isOver = true := by
  have hplaces := places_reachable h hr
  have hequipped := equippedAt_reachable i h r hr
  have haway := connects_of_awaitsPeer hno
  have hfree := blocked_of_awaitsPeer hno
  -- an admission up to its response
  have hahead : ∀ {t : State Code} {q : Request Code}, t.shared.main.isExited = false →
      t.procs[i]? = some q → Ending.Ahead q →
      ∃ as s' r', Machine.Along (UnaidedBy i) (machine limits codes) t as ∧
        (machine limits codes).run t as = some s' ∧ s'.procs[i]? = some r' ∧
        r'.call.isOver = true := by
    intro t q ht hq ha
    obtain ⟨as, s', r', hAlong, hrun, hr', -, hcall⟩ := exists_over_of_ahead ht hq ha
    exact ⟨as, s', r', hAlong, hrun, hr', by rw [hcall]; rfl⟩
  cases hp : r.phase with
  | acquiring =>
      rw [hp] at hplaces
      obtain ⟨as, t, c, hAlong, hrun, hc, -, hover | rfl⟩ :=
        exists_returning_run limits codes hmain hr hp hplaces
      · exact ⟨as, t, _, hAlong, hrun, hc, hover⟩
      · have ht : t.shared.main.isExited = false := by
          rw [(unaidedBy_frame hr hrun hAlong).1]
          exact hmain
        have ha : Ending.Ahead ({ r with call := .holding } : Request Code) :=
          ahead_of_holding rfl (by simp [hp, Phase.awaitsResponse]) haway hequipped
        obtain ⟨bs, s', r', hAlong', hrun', hr', hover⟩ := hahead ht hc ha
        exact ⟨as ++ bs, s', r', (Machine.along_append hrun).mpr ⟨hAlong, hAlong'⟩,
          (Machine.run_append_iff _).mpr ⟨t, hrun, hrun'⟩, hr', hover⟩
  | launching | starting | aborting =>
      rw [hp] at hplaces
      exact hahead hmain hr (ahead_of_holding hplaces (by rw [hp]; rfl) haway hequipped)
  | connecting | upgrading =>
      rw [hp] at hno
      cases hno
  | relaying | closing =>
      obtain ⟨as, s', -, hAlong, hrun, r', hr', -, hcall⟩ :=
        exists_closing_run limits codes hmain hr
          (closable_reachable h hr (by rw [hp]; rfl) hfree)
      exact ⟨as, s', r', hAlong, hrun, hr', by rw [hcall]; rfl⟩
  | releasing ending =>
      rw [hp] at hplaces
      have hcall : r.call = .holding := hplaces
      obtain ⟨as, s', hAlong, hrun, hr'⟩ := exists_release limits codes
        { r with call := .released, phase := .ended ending } hmain hr
        ⟨_, by simp only [requestStep, hp, hcall, Gate.callStep, Option.map_some]; rfl⟩
      exact ⟨as, s', _, hAlong, hrun, hr', rfl⟩
  | detached shutdown =>
      rw [hp] at hplaces
      rcases hplaces with hcall | hcall
      -- the permit of a session that panicked goes before its teardown is over
      · obtain ⟨as, s', hAlong, hrun, hr'⟩ := exists_release limits codes
          { r with call := .released } hmain hr
          ⟨_, by simp only [requestStep, hp, hcall, Gate.callStep, Option.map_some]; rfl⟩
        exact ⟨as, s', _, hAlong, hrun, hr', rfl⟩
      · exact ⟨[], s, r, trivial, rfl, hr, by rw [hcall]; rfl⟩
  | ended ending =>
      rw [hp] at hplaces
      rcases hplaces with hcall | hover
      · rw [not_engaged (Or.inl hcall)] at hengaged
        cases hengaged
      · exact ⟨[], s, r, trivial, rfl, hr, hover⟩
  | _ =>
      rw [hp] at hplaces
      rw [not_engaged (Or.inl hplaces)] at hengaged
      cases hengaged

/-! ## Who keeps a permit -/

/-- No step of the server takes a request out of such a wait, or its permit from it. -/
theorem awaitsPeer_step {s s' : AppState} {i : Nat} {r r' : Request Code}
    {a : RequestAction Code} (h : RequestStep limits codes s i r a s' r')
    (ha : r.unaided a = true) (hw : r.phase.awaitsPeer = true ∧ r.call = .holding) :
    r'.phase.awaitsPeer = true ∧ r'.call = .holding := by
  obtain ⟨hw, hcall⟩ := hw
  have hout : ∀ {p : Phase Code}, r.phase = p → p.awaitsPeer = false → False := by
    intro p hp hno
    rw [hp, hno] at hw
    cases hw
  cases h with
  | started elapsed hp => exact ⟨rfl, hcall⟩
  | startFailed error elapsed hp => exact (hout hp rfl).elim
  | startup a startup elapsed p p' startup' hp hc h =>
      cases startup with
      | ready => cases a <;> cases h
      | _ => exact (hout hp rfl).elim
  | startupElapses startup elapsed hp =>
      cases startup with
      | ready => exact ⟨rfl, hcall⟩
      | _ => exact (hout hp rfl).elim
  | relay a relay relay' hp hcancel h =>
      rw [hp] at hw
      exact ⟨Proxy.blocked_own_step h (by simpa [Request.unaided] using ha) hw, hcall⟩
  | relayed relay reason hp hr =>
      rw [hp] at hw
      simp [Phase.awaitsPeer, Proxy.State.blocked, hr] at hw
  | exits p p' hc h => exact ⟨hw, hcall⟩
  | connect | connectFails | upgrade | upgradeFails | panic | dropSuspended => cases ha
  | _ => exact (hout ‹r.phase = _› rfl).elim

theorem holding_of_awaitsPeer {s : State Code} {i : Nat} {r : Request Code}
    (h : (machine limits codes).Reachable (init limits) s) (hr : s.procs[i]? = some r)
    (hw : r.phase.awaitsPeer = true) : r.call = .holding := by
  have hplaces := places_reachable h hr
  cases hp : r.phase with
  | starting | connecting | upgrading | relaying => rwa [hp] at hplaces
  | _ =>
      rw [hp] at hw
      cases hw

/-! ## The gate -/

/-- Steps of the server alone bring the gate back to where it was made. -/
def Regains (limits : Gate.Limits) (codes : Proxy.CloseCodes Code) (s : State Code) : Prop :=
  ∃ as s', Machine.Along Unaided (machine limits codes) s as ∧
    (machine limits codes).run s as = some s' ∧
    s'.shared.gate.semaphore = .new limits.maxSessions ∧ s'.shared.gate.queued = 0

/-- With no call that is engaged the gate is as it was made. -/
theorem gate_of_not_engaged {s : State Code}
    (h : (machine limits codes).Reachable (init limits) s)
    (hnone : ∀ r ∈ s.procs, r.engaged = false) :
    s.shared.gate.semaphore = .new limits.maxSessions ∧ s.shared.gate.queued = 0 := by
  have hi := Gate.inv_reachable (gateway_simulates_gate.reachable trivial h)
  have hcalls : ∀ c ∈ (gateOf s).procs,
      c.ownsPermit = false ∧ c.hasSlot = false ∧ c.waits = false := by
    intro c hc
    obtain ⟨r, hr, rfl⟩ := List.mem_map.mp hc
    have hr := hnone r hr
    cases hcall : r.call <;>
      simp_all [Request.engaged, Gate.Call.inProgress, Gate.Call.ownsPermit, Gate.Call.hasSlot,
        Gate.Call.waits]
  have howned : Gate.owned (gateOf s) = 0 :=
    List.countP_eq_zero.mpr fun c hc => by simp [(hcalls c hc).1]
  have hslots : Gate.liveSlots (gateOf s) = 0 :=
    List.countP_eq_zero.mpr fun c hc => by simp [(hcalls c hc).2.1]
  have hpending : ∀ i, ¬ (gateOf s).shared.semaphore.Pending i := by
    intro i hp
    obtain ⟨c, hc, hw⟩ := hi.pending i hp
    rw [(hcalls c (List.mem_of_getElem? hc)).2.2] at hw
    cases hw
  have hwaiters : s.shared.gate.semaphore.waiters = [] :=
    List.eq_nil_iff_forall_not_mem.mpr fun i hw => hpending i (Or.inl hw)
  have hassigned : s.shared.gate.semaphore.assigned = [] :=
    List.eq_nil_iff_forall_not_mem.mpr fun i ha => hpending i (Or.inr ha)
  have hpermits : s.shared.gate.semaphore.free + Gate.owned (gateOf s) = limits.maxSessions :=
    hi.permits
  refine ⟨?_, hi.slots.trans hslots⟩
  rw [howned, Semaphore.free, hassigned] at hpermits
  cases hsem : s.shared.gate.semaphore with
  | mk permits waiters assigned =>
      simp only [hsem, List.length_nil, Nat.add_zero] at hwaiters hassigned hpermits
      simp [Semaphore.new, hwaiters, hassigned, hpermits]

/-- A request that holds a permit keeps the gate from having them all. -/
theorem not_new_of_holding {s : State Code}
    (h : (machine limits codes).Reachable (init limits) s) {r : Request Code} (hr : r ∈ s.procs)
    (hcall : r.call = .holding) : s.shared.gate.semaphore ≠ .new limits.maxSessions := by
  intro hnew
  have hi := Gate.inv_reachable (gateway_simulates_gate.reachable trivial h)
  have hpermits : s.shared.gate.semaphore.free + Gate.owned (gateOf s) = limits.maxSessions :=
    hi.permits
  have hpos : 0 < Gate.owned (gateOf s) :=
    List.countP_pos_iff.mpr ⟨r.call, List.mem_map_of_mem hr, by rw [hcall]; rfl⟩
  rw [hnew, Semaphore.free_new] at hpermits
  omega

/-- When capacity comes back. From a reachable state of the running server, steps of the server
alone bring the gate back to where it was made, with every permit in it and nobody in the
queue, exactly if no request waits for its Chromium to take the connect or for its upgrade,
and no session is blocked in a send to a peer that does not read. -/
theorem capacity_regained_iff {s : State Code}
    (h : (machine limits codes).Reachable (init limits) s)
    (hmain : s.shared.main.isExited = false) :
    Regains limits codes s ↔ ∀ r ∈ s.procs, r.phase.awaitsPeer = false := by
  constructor
  · rintro ⟨as, s', hAlong, hrun, hnew, -⟩ r hr
    refine Bool.eq_false_iff.mpr fun hw => ?_
    obtain ⟨i, hi⟩ := List.mem_iff_getElem?.mp hr
    have hkept := Machine.run_invariant_along (P := Unaided) (I := fun t : State Code =>
      ∃ r, t.procs[i]? = some r ∧ r.phase.awaitsPeer = true ∧ r.call = .holding)
      (fun _ _ _ hst hun => unaided_keeps awaitsPeer_step hst hun) hrun hAlong
      ⟨r, hi, hw, holding_of_awaitsPeer h hi hw⟩
    obtain ⟨q, hq, -, hcall⟩ := hkept
    exact not_new_of_holding (h.trans ⟨as, hrun⟩) (List.mem_of_getElem? hq) hcall hnew
  · intro hno
    obtain ⟨as, t, hAlong, hrun, ⟨ht, -⟩, hnone⟩ :=
      exists_settled limits codes (s := s) Request.engaged
        (fun r => r.call.isOver = true)
        (fun r hover => not_engaged (Or.inr hover))
        (fun t i r ht hsettles hr hmem hengaged =>
          exists_over ht (by rw [hsettles.shared]; exact hmain) hr hengaged (hno r hmem)) h
    exact ⟨as, t, hAlong, hrun, gate_of_not_engaged ht hnone⟩

/-- A session on open sockets, and one whose Chromium does not read. -/
theorem capacity_regained_iff_activeRun :
    (∃ s : State UInt16, (machine oneSession Proxy.plainCodes).run (init oneSession)
        activeRun = some s ∧ Regains oneSession Proxy.plainCodes s) ∧
      ∃ s : State UInt16, (machine oneSession Proxy.plainCodes).run (init oneSession)
        blockedRun = some s ∧ ¬ Regains oneSession Proxy.plainCodes s := by
  constructor
  · have hrun : ∃ s : State UInt16, ∃ r, (machine oneSession Proxy.plainCodes).run
        (init oneSession) activeRun = some s ∧ s.shared.main.isExited = false ∧
        s.procs = [r] ∧ r.phase.awaitsPeer = false := ⟨_, _, rfl, rfl, rfl, rfl⟩
    obtain ⟨s, r, hs, hmain, hprocs, hno⟩ := hrun
    refine ⟨s, hs, (capacity_regained_iff ⟨_, hs⟩ hmain).mpr fun q hq => ?_⟩
    rw [hprocs] at hq
    rw [List.mem_singleton.mp hq]
    exact hno
  · have hrun : ∃ s : State UInt16, ∃ r, (machine oneSession Proxy.plainCodes).run
        (init oneSession) blockedRun = some s ∧ s.shared.main.isExited = false ∧
        s.procs = [r] ∧ r.phase.awaitsPeer = true := ⟨_, _, rfl, rfl, rfl, rfl⟩
    obtain ⟨s, r, hs, hmain, hprocs, hw⟩ := hrun
    refine ⟨s, hs, fun hregains => ?_⟩
    rw [(capacity_regained_iff ⟨_, hs⟩ hmain).mp hregains r (by simp [hprocs])] at hw
    cases hw

end Pinokio.Server
