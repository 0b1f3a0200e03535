/-
# Pinokio.Proxy.Deadline -- when the deadline of a session is noticed

The timer and the cancellation token are polled at the select and nowhere else.
While a forwarded send is pending, a deadline that has fired waits for the socket
of the receiver: if that socket is full and its peer does not read, only the peer
can make the session go on (`blocked`). A send is pending on a full socket exactly
in the runs in which the loop reads a message that its receiver has no room for
(`roomToForward`).
-/
import Pinokio.Proxy

namespace Pinokio.Proxy

variable {Code : Type} {codes : CloseCodes Code}

/-- The deadline or the cancellation has fired. -/
def State.fired (s : State Code) : Bool := s.elapsed || s.cancelled

/-- A send to the peer stays pending until the peer acts. -/
def Endpoint.stalled {M : Type} (e : Endpoint M) : Bool := !e.accepts && !e.broken

/-- Without any step of a peer, the loop is left because of the deadline or of the
cancellation. -/
def DeadlineWins (codes : CloseCodes Code) (s : State Code) : Prop :=
  ∃ as s', (∀ a ∈ as, Action.ofPeer a = false) ∧ (machine codes).run s as = some s' ∧
    (s'.phase.reason = some .sessionTimeout ∨ s'.phase.reason = some .serverShutdown)

/-- The session goes on only if a peer acts. -/
def AwaitsPeer (codes : CloseCodes Code) (s : State Code) : Prop :=
  ∀ a s', step codes s a = some s' → a.ofPeer = true ∨ a = .elapse ∨ a = .cancel

/-- The loop is at its select, or forwards a message that is no close and that the
receiver has room for. -/
def State.unhindered (s : State Code) : Bool :=
  match s.phase with
  | .select => true
  | .sendUpstream m => !m.isClose && s.upstream.accepts
  | .sendClient m _ => !m.isClose && s.client.accepts
  | _ => false

/-- The loop awaits a send that its receiver neither takes nor fails. -/
def State.blocked (s : State Code) : Bool :=
  match s.phase with
  | .sendUpstream _ => s.upstream.stalled
  | .sendClient _ _ => s.client.stalled
  | _ => false

/-- A message that will be forwarded is read only when its receiver has room for
it, or is gone. -/
def roomToForward (codes : CloseCodes Code) (s : State Code) : Action Code → Prop
  | .pollClient => ∀ m inbox, s.client.inbox = .ok m :: inbox → s.upstream.stalled = false
  | .pollUpstream => ∀ m inbox, s.upstream.inbox = .ok m :: inbox →
      (upstreamToClient codes m).isSome = true → s.client.stalled = false
  | _ => True

@[simp] theorem reason_leave (r : CloseReason) : (leave r : Phase Code).reason = some r := by
  cases r <;> rfl

/-! ## What a single session can do by itself -/

/-- The reason of a session that has left its loop does not change. -/
theorem Step.reason_eq {s s' : State Code} {a : Action Code} (h : Step codes s a s')
    {r : CloseReason} (hr : s.phase.reason = some r) : s'.phase.reason = some r := by
  have hne : ∀ p : Phase Code, p.reason = none → s.phase ≠ p := by
    intro p hp hs
    rw [hs, hp] at hr
    cases hr
  cases h with
  | client client hact => exact hr
  | upstream upstream hact => exact hr
  | elapse => exact hr
  | cancel => exact hr
  | closedClient q hp ha => rwa [hp] at hr
  | closedUpstream q hp ha => rwa [hp] at hr
  | skipClient q hp ha => rwa [hp] at hr
  | skipUpstream q hp ha => rwa [hp] at hr
  | _ => exact absurd ‹s.phase = _› (hne _ rfl)

/-- The deadline has lost: the loop was left for another reason, or the session
cannot come back to its select by itself. -/
def State.lost (s : State Code) : Prop :=
  match s.phase.reason with
  | some r => r ≠ .sessionTimeout ∧ r ≠ .serverShutdown
  | none => s.unhindered = false

theorem lost_of_reason {s : State Code} {r : CloseReason} (hr : s.phase.reason = some r)
    (h : r ≠ .sessionTimeout ∧ r ≠ .serverShutdown) : s.lost := by
  rw [State.lost, hr]
  exact h

/-- A session that has lost its deadline does not regain it by its own steps. -/
theorem lost_step {s s' : State Code} {a : Action Code} (hs : s.lost)
    (h : step codes s a = some s') (ha : a.ofPeer = false) : s'.lost := by
  cases hr : s.phase.reason with
  | some r =>
      rw [State.lost, hr] at hs
      exact lost_of_reason ((step_inv h).reason_eq hr) hs
  | none =>
      have hhindered : s.unhindered = false := by
        rw [State.lost, hr] at hs
        exact hs
      -- hindered in the loop means inside a send
      have hselect : s.phase ≠ .select := by
        intro hp
        rw [State.unhindered, hp] at hhindered
        cases hhindered
      have hloop : ∀ r, s.phase.reason ≠ some r := by
        intro r hr'
        rw [hr] at hr'
        cases hr'
      cases step_inv h with
      | client client hact => cases ha
      | upstream upstream hact => cases ha
      | elapse => exact hs
      | cancel => exact hs
      | forwardUpstream m hp hroom =>
          -- it had room, so it was a close
          have hclose : m.isClose = true := by
            rw [State.unhindered, hp] at hhindered
            simpa [hroom] using hhindered
          refine lost_of_reason (r := .clientDisconnected) ?_ ⟨by decide, by decide⟩
          show (afterSend m.isClose .clientDisconnected).reason = _
          rw [hclose]
          rfl
      | forwardClient m converted hp hroom =>
          have hclose : m.isClose = true := by
            rw [State.unhindered, hp] at hhindered
            simpa [hroom] using hhindered
          refine lost_of_reason (r := .chromiumClosed) ?_ ⟨by decide, by decide⟩
          show (afterSend m.isClose .chromiumClosed).reason = _
          rw [hclose]
          rfl
      -- a send that fails ends the session for the peer's reason
      | failUpstream m hp hb =>
          exact lost_of_reason (reason_leave .chromiumError) ⟨by decide, by decide⟩
      | failClient m converted hp hb =>
          exact lost_of_reason (reason_leave .clientDisconnected) ⟨by decide, by decide⟩
      | closedClient r hp hroom => exact absurd (by rw [hp]; rfl) (hloop r)
      | closedUpstream r hp hroom => exact absurd (by rw [hp]; rfl) (hloop r)
      | skipClient r hp hroom => exact absurd (by rw [hp]; rfl) (hloop r)
      | skipUpstream r hp hroom => exact absurd (by rw [hp]; rfl) (hloop r)
      | _ => exact absurd ‹s.phase = _› hselect

theorem lost_run {s s' : State Code} {as : List (Action Code)} (hs : s.lost)
    (h : (machine codes).run s as = some s') (has : ∀ a ∈ as, Action.ofPeer a = false) :
    s'.lost := by
  induction as generalizing s with
  | nil => exact (Option.some.inj h) ▸ hs
  | cons a as ih =>
      obtain ⟨t, hst, ht⟩ := (Machine.run_cons_iff _).mp h
      exact ih (lost_step hs hst (has a List.mem_cons_self)) ht
        fun b hb => has b (List.mem_cons_of_mem a hb)

theorem not_deadlineWins_of_lost {s : State Code} (hs : s.lost) : ¬ DeadlineWins codes s := by
  rintro ⟨as, s', has, hrun, hreason⟩
  have hlost := lost_run hs hrun has
  rcases hreason with hr | hr
  · rw [State.lost, hr] at hlost
    exact hlost.1 rfl
  · rw [State.lost, hr] at hlost
    exact hlost.2 rfl

/-- At the select a fired deadline is one step away. -/
theorem exists_break_of_select (codes : CloseCodes Code) {s : State Code} (hp : s.phase = .select)
    (hf : s.fired = true) :
    ∃ a s', Action.ofPeer a = false ∧ step codes s a = some s' ∧
      (s'.phase.reason = some .sessionTimeout ∨ s'.phase.reason = some .serverShutdown) ∧
      a ≠ .elapse ∧ a ≠ .cancel := by
  cases he : s.elapsed with
  | true =>
      exact ⟨.pollTimeout, { s with phase := leave .sessionTimeout }, rfl, by simp [step, hp, he],
        Or.inl rfl, by simp, by simp⟩
  | false =>
      have hc : s.cancelled = true := by simpa [State.fired, he] using hf
      exact ⟨.pollCancel, { s with phase := leave .serverShutdown }, rfl, by simp [step, hp, hc],
        Or.inr rfl, by simp, by simp⟩

theorem deadlineWins_of_select (codes : CloseCodes Code) {s : State Code}
    (hp : s.phase = .select) (hf : s.fired = true) :
    DeadlineWins codes s := by
  obtain ⟨a, s', ha, hst, hr, -⟩ := exists_break_of_select codes hp hf
  exact ⟨[a], s', by simpa using ha, (Machine.run_cons_iff _).mpr ⟨s', hst, rfl⟩, hr⟩

/-- A send that completes brings the loop back to its select. -/
theorem deadlineWins_of_send {s s' : State Code} (h : step codes s .sendDone = some s')
    (hp : s'.phase = .select) (hf : s'.fired = true) : DeadlineWins codes s := by
  obtain ⟨as, t, has, hrun, hr⟩ := deadlineWins_of_select codes hp hf
  refine ⟨.sendDone :: as, t, ?_, (Machine.run_cons_iff _).mpr ⟨s', h, hrun⟩, hr⟩
  intro a ha
  rcases List.mem_cons.mp ha with rfl | ha
  · rfl
  · exact has a ha

theorem deadlineWins_iff_unhindered {s : State Code} (hin : s.phase.inLoop = true)
    (hf : s.fired = true) : DeadlineWins codes s ↔ s.unhindered = true := by
  constructor
  · intro hwins
    by_contra hh
    have hlost : s.lost := by
      rw [State.lost, Option.isNone_iff_eq_none.mp hin]
      simpa using hh
    exact not_deadlineWins_of_lost hlost hwins
  · intro hu
    rw [State.unhindered] at hu
    split at hu
    next hp => exact deadlineWins_of_select codes hp hf
    next m hp =>
      obtain ⟨hclose, hroom⟩ := Bool.and_eq_true_iff.mp hu
      have hclose : m.isClose = false := by simpa using hclose
      have hst : step codes s .sendDone = some { s with
          phase := .select, upstream := s.upstream.take,
          toUpstream := s.toUpstream ++ [clientToUpstream codes m] } := by
        simp [step, hp, hroom, hclose, afterSend]
      exact deadlineWins_of_send hst rfl hf
    next m c hp =>
      obtain ⟨hclose, hroom⟩ := Bool.and_eq_true_iff.mp hu
      have hclose : m.isClose = false := by simpa using hclose
      have hst : step codes s .sendDone = some { s with
          phase := .select, client := s.client.take, toClient := s.toClient ++ [c] } := by
        simp [step, hp, hroom, hclose, afterSend]
      exact deadlineWins_of_send hst rfl hf
    next => cases hu

/-! ## Who the session waits for -/

theorem stalled_eq_false_of_broken {M : Type} {e : Endpoint M} (h : e.broken = true) :
    e.stalled = false := by
  simp [Endpoint.stalled, h]

/-- Room for one more message only goes away when the relay sends one. -/
theorem Endpoint.act_stalled {M : Type} {e e' : Endpoint M} {a : PeerAction M}
    (h : e.act a = some e') (hs : e.stalled = false) : e'.stalled = false := by
  cases a with
  | sends m =>
      obtain ⟨-, hs'⟩ := Option.ite_none_left_eq_some.mp h
      obtain rfl := Option.some.inj hs'
      exact hs
  | errs =>
      obtain ⟨-, hs'⟩ := Option.ite_none_left_eq_some.mp h
      obtain rfl := Option.some.inj hs'
      exact hs
  | ends =>
      obtain rfl := Option.some.inj h
      exact hs
  | reads =>
      obtain ⟨-, hs'⟩ := Option.ite_none_left_eq_some.mp h
      obtain rfl := Option.some.inj hs'
      simp only [stalled, accepts, Bool.and_eq_false_iff, Bool.not_eq_false', Bool.and_eq_true,
        decide_eq_true_eq] at hs ⊢
      rcases hs with ⟨hroom, hb⟩ | hb
      · exact Or.inl ⟨by omega, hb⟩
      · exact Or.inr hb
  | breaks =>
      obtain rfl := Option.some.inj h
      exact stalled_eq_false_of_broken rfl

/-- A blocked session has no step of its own. -/
theorem awaitsPeer_of_blocked {s : State Code} (hb : s.blocked = true) : AwaitsPeer codes s := by
  intro a s' h
  have hstalled {M : Type} {e : Endpoint M} (he : e.stalled = true) :
      e.accepts = false ∧ e.broken = false := by
    simpa [Endpoint.stalled] using he
  rw [State.blocked] at hb
  split at hb
  next m hp =>
    obtain ⟨hroom, hbroken⟩ := hstalled hb
    cases a <;> simp_all [step, Action.ofPeer]
  next m c hp =>
    obtain ⟨hroom, hbroken⟩ := hstalled hb
    cases a <;> simp_all [step, Action.ofPeer]
  next => cases hb

theorem awaitsPeer_iff_blocked {s : State Code} (hin : s.phase.inLoop = true)
    (hf : s.fired = true) : AwaitsPeer codes s ↔ s.blocked = true := by
  refine ⟨fun hawait => ?_, awaitsPeer_of_blocked⟩
  have hown : ∀ a s', step codes s a = some s' → a = .sendDone ∨ a = .sendFails → False := by
    rintro a s' hst (rfl | rfl)
    · rcases hawait _ _ hst with h | h | h <;> cases h
    · rcases hawait _ _ hst with h | h | h <;> cases h
  cases hp : s.phase with
  | select =>
      obtain ⟨a, s', ha, hst, -, hne, hnc⟩ := exists_break_of_select codes hp hf
      rcases hawait a s' hst with h | h | h
      · rw [ha] at h
        cases h
      · exact absurd h hne
      · exact absurd h hnc
  | sendUpstream m =>
      by_contra hb
      rw [State.blocked, hp] at hb
      have hroom : s.upstream.accepts = true ∨ s.upstream.broken = true := by
        cases ha : s.upstream.accepts <;> simp_all [Endpoint.stalled]
      rcases hroom with ha | hbroken
      · exact hown .sendDone _ (by simp [step, hp, ha]; rfl) (Or.inl rfl)
      · exact hown .sendFails _ (by simp [step, hp, hbroken]; rfl) (Or.inr rfl)
  | sendClient m c =>
      by_contra hb
      rw [State.blocked, hp] at hb
      have hroom : s.client.accepts = true ∨ s.client.broken = true := by
        cases ha : s.client.accepts <;> simp_all [Endpoint.stalled]
      rcases hroom with ha | hbroken
      · exact hown .sendDone _ (by simp [step, hp, ha]; rfl) (Or.inl rfl)
      · exact hown .sendFails _ (by simp [step, hp, hbroken]; rfl) (Or.inr rfl)
  | closeClient r => simp [hp, Phase.inLoop, Phase.reason] at hin
  | closeUpstream r => simp [hp, Phase.inLoop, Phase.reason] at hin
  | done r => simp [hp, Phase.inLoop, Phase.reason] at hin

/-! ## Runs -/

theorem blocked_leave {s : State Code} {r : CloseReason} (h : s.phase = leave r) :
    s.blocked = false := by
  rw [State.blocked, h]
  cases r <;> rfl

theorem blocked_afterSend {s : State Code} (isClose : Bool) (r : CloseReason)
    (h : s.phase = afterSend isClose r) : s.blocked = false := by
  cases isClose with
  | true => exact blocked_leave h
  | false =>
      rw [State.blocked, h]
      rfl

/-- A step that reads a message only into room blocks nothing. -/
theorem not_blocked_step {s s' : State Code} {a : Action Code}
    (h : step codes s a = some s') (hroom : roomToForward codes s a)
    (hb : s.blocked = false) : s'.blocked = false := by
  cases step_inv h with
  | client client hact =>
      cases hp : s.phase with
      | sendClient m c =>
          have hfree : s.client.stalled = false := by simpa [State.blocked, hp] using hb
          simpa [State.blocked, hp] using Endpoint.act_stalled hact hfree
      | sendUpstream m => simpa [State.blocked, hp] using hb
      | _ => simp [State.blocked]
  | upstream upstream hact =>
      cases hp : s.phase with
      | sendUpstream m =>
          have hfree : s.upstream.stalled = false := by simpa [State.blocked, hp] using hb
          simpa [State.blocked, hp] using Endpoint.act_stalled hact hfree
      | sendClient m c => simpa [State.blocked, hp] using hb
      | _ => simp [State.blocked]
  | elapse => exact hb
  | cancel => exact hb
  | readClient m inbox hp hi => exact hroom m inbox hi
  | clientErrs e inbox hp hi => exact blocked_leave (r := .clientError) rfl
  | clientEnds hp hi he => exact blocked_leave (r := .clientDisconnected) rfl
  | readUpstream m inbox hp hi =>
      cases hm : upstreamToClient codes m with
      | some converted =>
          have hfree : s.client.stalled = false := hroom m inbox hi (by rw [hm]; rfl)
          simpa [State.blocked, hm] using hfree
      | none =>
          exact blocked_afterSend m.isClose .chromiumClosed (by simp)
  | upstreamErrs e inbox hp hi => exact blocked_leave (r := .chromiumError) rfl
  | upstreamEnds hp hi he => exact blocked_leave (r := .chromiumClosed) rfl
  | timeout hp he => exact blocked_leave (r := .sessionTimeout) rfl
  | shutdown hp hc => exact blocked_leave (r := .serverShutdown) rfl
  | forwardUpstream m hp ha => exact blocked_afterSend m.isClose .clientDisconnected rfl
  | forwardClient m converted hp ha => exact blocked_afterSend m.isClose .chromiumClosed rfl
  | failUpstream m hp hb => exact blocked_leave (r := .chromiumError) rfl
  | failClient m converted hp hb => exact blocked_leave (r := .clientDisconnected) rfl
  | closedClient r hp ha => rfl
  | closedUpstream r hp ha => rfl
  | skipClient r hp ha => rfl
  | skipUpstream r hp ha => rfl

/-- A step that reads a message without room for it blocks the session. -/
theorem blocked_of_noRoom {s s' : State Code} {a : Action Code}
    (h : step codes s a = some s') (hroom : ¬ roomToForward codes s a) : s'.blocked = true := by
  cases step_inv h with
  | readClient m inbox hp hi =>
      simp only [roomToForward, not_forall] at hroom
      obtain ⟨_, _, -, hstalled⟩ := hroom
      simpa [State.blocked] using hstalled
  | readUpstream m inbox hp hi =>
      simp only [roomToForward, not_forall] at hroom
      obtain ⟨k, inbox', hk, hsome, hstalled⟩ := hroom
      obtain ⟨hmk, -⟩ := List.cons.inj (hi.symm.trans hk)
      obtain rfl := Except.ok.inj hmk
      obtain ⟨converted, hm⟩ := Option.isSome_iff_exists.mp hsome
      simpa [State.blocked, hm] using hstalled
  | clientErrs e inbox hp hi => simp [roomToForward, hi] at hroom
  | clientEnds hp hi he => simp [roomToForward, hi] at hroom
  | upstreamErrs e inbox hp hi => simp [roomToForward, hi] at hroom
  | upstreamEnds hp hi he => simp [roomToForward, hi] at hroom
  | skipClient r hp ha => rcases ha with rfl | rfl <;> exact absurd trivial hroom
  | skipUpstream r hp ha => rcases ha with rfl | rfl <;> exact absurd trivial hroom
  | _ => exact absurd trivial hroom

/-- When the deadline of a session is noticed. For a state in the loop whose
deadline or cancellation has fired: it ends the session without the peers exactly
when the loop is at its select or forwards into room a message that is no close,
and the session waits for a peer exactly when it forwards to a full socket. For a
run: the deadline leaves the session waiting for a peer at no point of the run, had
it fired there, exactly when the loop reads each message into room. -/
theorem deadline_wins_iff {clientCapacity upstreamCapacity : Nat} {as : List (Action Code)}
    {s : State Code}
    (hrun : (machine codes).run (init clientCapacity upstreamCapacity) as = some s) :
    (s.phase.inLoop = true → s.fired = true →
      (DeadlineWins codes s ↔ s.unhindered = true) ∧ (AwaitsPeer codes s ↔ s.blocked = true)) ∧
    ((∀ bs t, bs <+: as → (machine codes).run (init clientCapacity upstreamCapacity)
        (bs ++ [.elapse]) = some t → t.phase.inLoop = true → ¬ AwaitsPeer codes t) ↔
      Machine.Along (roomToForward codes) (machine codes) (init clientCapacity upstreamCapacity)
        as) := by
  refine ⟨fun hin hf => ⟨deadlineWins_iff_unhindered hin hf, awaitsPeer_iff_blocked hin hf⟩, ?_⟩
  constructor
  · intro hnever
    by_contra hroom
    obtain ⟨bs, a, cs, t, u, rfl, hbs, -, hbreak, hst, -⟩ :=
      Machine.exists_break_of_not_along hrun hroom
    have hblocked := blocked_of_noRoom hst hbreak
    have hrunu : (machine codes).run (init clientCapacity upstreamCapacity)
        ((bs ++ [a]) ++ [.elapse]) = some { u with elapsed := true } :=
      (Machine.run_concat_iff _).mpr ⟨u, (Machine.run_concat_iff _).mpr ⟨t, hbs, hst⟩, rfl⟩
    refine hnever (bs ++ [a]) _ ?_ hrunu ?_ (awaitsPeer_of_blocked hblocked)
    · exact ⟨cs, by simp⟩
    · show u.phase.inLoop = true
      rw [State.blocked] at hblocked
      split at hblocked
      next m hp => rw [hp]; rfl
      next m c hp => rw [hp]; rfl
      next => cases hblocked
  · rintro hroom bs t ⟨cs, rfl⟩ hbs hin hawait
    obtain ⟨u, hu, hut⟩ := (Machine.run_concat_iff _).mp hbs
    have hfree : u.blocked = false :=
      Machine.run_invariant_along (I := fun t => State.blocked t = false)
        (fun _ _ _ hst hP hb => not_blocked_step hst hP hb) hu
        ((Machine.along_append hu).mp hroom).1 rfl
    obtain rfl := Option.some.inj hut
    rw [awaitsPeer_iff_blocked hin (by simp [State.fired])] at hawait
    exact absurd (hfree.symm.trans hawait) (by simp)

/-- The deadline passes while a message waits for room that is there. -/
theorem deadline_wins_iff_room :
    ∃ s : State UInt16, (machine plainCodes).run (init 1 1)
        [.client (.sends (.text "hello")), .pollClient, .elapse] = some s ∧
      s.phase = .sendUpstream (.text "hello") ∧ DeadlineWins plainCodes s ∧
      ¬ AwaitsPeer plainCodes s :=
  have hrun : ∃ s : State UInt16, (machine plainCodes).run (init 1 1)
        [.client (.sends (.text "hello")), .pollClient, .elapse] = some s ∧
      s.phase = .sendUpstream (.text "hello") ∧ s.phase.inLoop = true ∧ s.fired = true ∧
      s.unhindered = true ∧ s.blocked = false := ⟨_, rfl, rfl, rfl, rfl, rfl, rfl⟩
  let ⟨s, hs, hphase, hin, hf, hu, hb⟩ := hrun
  have hiff := (deadline_wins_iff hs).1 hin hf
  ⟨s, hs, hphase, hiff.1.mpr hu, fun ha => absurd (hb.symm.trans (hiff.2.mp ha)) (by decide)⟩

/-- Chromium does not read: its socket holds one message, the relay has read a
second one, and the session times out and is cancelled meanwhile. -/
def fullSocketRun : List (Action UInt16) :=
  [.client (.sends (.text "one")), .pollClient, .sendDone, .client (.sends (.text "two")),
    .pollClient, .elapse, .cancel]

/-- Neither the deadline nor the cancellation ends that session: it has no step of
its own left. -/
theorem deadline_loses_fullSocketRun :
    ∃ s : State UInt16, (machine plainCodes).run (init 1 1) fullSocketRun = some s ∧
      s.phase.inLoop = true ∧ s.elapsed = true ∧ s.cancelled = true ∧
      ¬ DeadlineWins plainCodes s ∧ AwaitsPeer plainCodes s :=
  have hrun : ∃ s : State UInt16, (machine plainCodes).run (init 1 1) fullSocketRun = some s ∧
      s.phase.inLoop = true ∧ s.elapsed = true ∧ s.cancelled = true ∧ s.lost ∧
      s.blocked = true := ⟨_, rfl, rfl, rfl, rfl, rfl, rfl⟩
  let ⟨s, hs, hin, he, hc, hlost, hb⟩ := hrun
  ⟨s, hs, hin, he, hc, not_deadlineWins_of_lost hlost, awaitsPeer_of_blocked hb⟩

end Pinokio.Proxy
