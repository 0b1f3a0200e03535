/-
# Pinokio.Server.SessionEnd -- what ends a session without its peers

A session goes on by itself from everywhere but one place: the forwarded send of a
message to a peer that neither reads nor breaks its connection. Outside of it the timer
of the session ends the relay, the closing sends have their own limits, and the teardown
ends with SIGKILL (`session_bounded_iff`). Inside of it neither the timer nor the shutdown
is noticed: the session keeps its permit, and the drain of `main` cannot succeed.
-/
import Pinokio.Proxy.Deadline
import Pinokio.Server.AdmissionPhase

namespace Pinokio

variable {Code : Type} {limits : Gate.Limits} {codes : Proxy.CloseCodes Code}

/-! ## The relay -/

namespace Proxy

/-- How many steps `run` is from its end at most, once its timer fires. -/
def State.rank (s : State Code) : Nat :=
  match s.phase with
  | .sendUpstream _ | .sendClient _ _ => 14
  | .select => if s.fired then 12 else 13
  | .closeClient _ => 11
  | .closeUpstream _ => 10
  | .done _ => 9

theorem State.rank_le (s : State Code) : s.rank ≤ 14 := by
  unfold rank
  split
  case h_3 => split <;> decide
  all_goals decide

/-- Out of the loop nothing but the closing sends is left. -/
theorem rank_of_reason {s : State Code} {r : CloseReason} (h : s.phase.reason = some r) :
    s.rank ≤ 11 ∧ s.blocked = false := by
  cases hp : s.phase with
  | closeClient r | closeUpstream r | done r => simp [State.rank, State.blocked, hp]
  | _ =>
      rw [hp] at h
      cases h

theorem rank_leave {s : State Code} {r : CloseReason} (h : s.phase = leave r) :
    s.rank ≤ 11 ∧ s.blocked = false :=
  rank_of_reason (h ▸ reason_leave r)

theorem rank_afterSend {s : State Code} (isClose : Bool) {r : CloseReason}
    (h : s.phase = afterSend isClose r) : s.rank ≤ 13 ∧ s.blocked = false := by
  refine ⟨?_, blocked_afterSend isClose r h⟩
  cases isClose with
  | true => exact (rank_leave h).1.trans (by decide)
  | false =>
      have hp : s.phase = .select := h
      simp only [State.rank, hp]
      split <;> decide

theorem accepts_or_broken {M : Type} {e : Endpoint M} (h : e.stalled = false) :
    e.accepts = true ∨ e.broken = true := by
  rcases Bool.eq_false_or_eq_true e.accepts with ha | ha
  · exact Or.inl ha
  · exact Or.inr (by simpa [Endpoint.stalled, ha] using h)

/-- A relay that is not blocked has a step of its own, and one that brings it nearer to its
end. -/
theorem exists_own_step (codes : CloseCodes Code) {s : State Code} (hfree : s.blocked = false)
    (hdone : ∀ r, s.phase ≠ .done r) :
    ∃ a s', Action.ofPeer a = false ∧ a.isCancel = false ∧ step codes s a = some s' ∧
      s'.blocked = false ∧ s'.rank < s.rank := by
  cases hp : s.phase with
  | select =>
      cases hf : s.fired with
      | true =>
          obtain ⟨a, s', ha, hst, hreason, -, hne⟩ := exists_break_of_select codes hp hf
          have hcancel : a.isCancel = false := by
            cases a <;> first | rfl | exact absurd rfl hne
          have hout : s'.rank ≤ 11 ∧ s'.blocked = false := by
            rcases hreason with hr | hr
            · exact rank_of_reason hr
            · exact rank_of_reason hr
          refine ⟨a, s', ha, hcancel, hst, hout.2, lt_of_le_of_lt hout.1 ?_⟩
          simp [State.rank, hp, hf]
      | false =>
          refine ⟨.elapse, { s with elapsed := true }, rfl, rfl, rfl, ?_, ?_⟩
          · simp [State.blocked, hp]
          · simp [State.rank, State.fired, hp] at hf ⊢
            simp [hf]
  | sendUpstream m =>
      have hrank : s.rank = 14 := by simp [State.rank, hp]
      have hstalled : s.upstream.stalled = false := by simpa [State.blocked, hp] using hfree
      rcases accepts_or_broken hstalled with hroom | hbroken
      · have hst : ∃ s', step codes s .sendDone = some s' ∧
            s'.phase = afterSend m.isClose .clientDisconnected :=
          ⟨_, by simp only [step, hp]; exact if_pos hroom, rfl⟩
        obtain ⟨s', hst, hphase⟩ := hst
        obtain ⟨hle, hb⟩ := rank_afterSend m.isClose hphase
        exact ⟨.sendDone, s', rfl, rfl, hst, hb, by omega⟩
      · have hst : ∃ s', step codes s .sendFails = some s' ∧ s'.phase = leave .chromiumError :=
          ⟨_, by simp only [step, hp]; exact if_pos hbroken, rfl⟩
        obtain ⟨s', hst, hphase⟩ := hst
        obtain ⟨hle, hb⟩ := rank_leave hphase
        exact ⟨.sendFails, s', rfl, rfl, hst, hb, by omega⟩
  | sendClient m converted =>
      have hrank : s.rank = 14 := by simp [State.rank, hp]
      have hstalled : s.client.stalled = false := by simpa [State.blocked, hp] using hfree
      rcases accepts_or_broken hstalled with hroom | hbroken
      · have hst : ∃ s', step codes s .sendDone = some s' ∧
            s'.phase = afterSend m.isClose .chromiumClosed :=
          ⟨_, by simp only [step, hp]; exact if_pos hroom, rfl⟩
        obtain ⟨s', hst, hphase⟩ := hst
        obtain ⟨hle, hb⟩ := rank_afterSend m.isClose hphase
        exact ⟨.sendDone, s', rfl, rfl, hst, hb, by omega⟩
      · have hst : ∃ s', step codes s .sendFails = some s' ∧
            s'.phase = leave .clientDisconnected :=
          ⟨_, by simp only [step, hp]; exact if_pos hbroken, rfl⟩
        obtain ⟨s', hst, hphase⟩ := hst
        obtain ⟨hle, hb⟩ := rank_leave hphase
        exact ⟨.sendFails, s', rfl, rfl, hst, hb, by omega⟩
  -- the closing sends are given up in time
  | closeClient r =>
      exact ⟨.sendElapses, { s with phase := .closeUpstream r }, rfl, rfl, by simp [step, hp], rfl,
        by simp [State.rank, hp]⟩
  | closeUpstream r =>
      exact ⟨.sendElapses, { s with phase := .done r }, rfl, rfl, by simp [step, hp], rfl,
        by simp [State.rank, hp]⟩
  | done r => exact absurd hp (hdone r)

/-- Of the steps of its own a blocked relay has none that brings it on. -/
theorem blocked_own_step {s s' : State Code} {a : Action Code} (h : step codes s a = some s')
    (ha : a.ofPeer = false) (hb : s.blocked = true) : s'.blocked = true := by
  rcases awaitsPeer_of_blocked hb a s' h with hpeer | rfl | rfl
  · rw [ha] at hpeer
    cases hpeer
  · cases h
    exact hb
  · cases h
    exact hb

end Proxy

namespace Server

/-! ## What the server does by itself -/

/-- A step of a request, or of the session it has become, for which no Chromium and no client
is needed. -/
def Request.unaided (r : Request Code) : RequestAction Code → Bool
  | .check => true
  | .gate a => a ≠ .drop
  | .relay a => !a.ofPeer
  -- a process that was sent SIGKILL ends
  | .exits => r.chromium.any fun p => .sigkill ∈ p.groupSignals
  | a => r.serverSide a

/-- The step is one of request `i` among these. -/
def UnaidedBy (i : Nat) (s : State Code) (e : Action Code) : Prop :=
  ∃ a r, e = .act i a ∧ s.procs[i]? = some r ∧ r.unaided a = true

theorem unaided_of_serverSide {r : Request Code} {a : RequestAction Code}
    (h : r.serverSide a = true) : r.unaided a = true := by
  cases a with
  | check => rfl
  | gate | relay => cases h
  | exits =>
      simp only [Request.serverSide] at h
      split at h
      next => exact h
      next => cases h
  | _ => exact h

theorem unaidedBy_of_serverSide {i : Nat} {s : State Code} {e : Action Code}
    (h : ServerSide i s e) : UnaidedBy i s e := by
  obtain ⟨a, r, rfl, hr, ha⟩ := h
  exact ⟨a, r, rfl, hr, unaided_of_serverSide ha⟩

theorem not_interrupts_of_unaidedBy {i : Nat} {s : State Code} {e : Action Code}
    (h : UnaidedBy i s e) : ¬ Interrupts i s e := by
  obtain ⟨a, r, rfl, -, ha⟩ := h
  intro hi
  cases a with
  | drop | upgradeFails => cases ha
  | _ => exact hi.elim

/-- Steps of one request change the gate and this request only. -/
theorem unaidedBy_frame {s s' : State Code} {i : Nat} {r : Request Code} {as : List (Action Code)}
    (hr : s.procs[i]? = some r) (hrun : (machine limits codes).run s as = some s')
    (hby : Machine.Along (UnaidedBy i) (machine limits codes) s as) :
    s'.shared = { s.shared with gate := s'.shared.gate } ∧ ∃ r', s'.procs = s.procs.set i r' := by
  refine Machine.run_invariant_along (P := UnaidedBy i) (I := fun t : State Code =>
    t.shared = { s.shared with gate := t.shared.gate } ∧ ∃ r', t.procs = s.procs.set i r')
    ?_ hrun hby ⟨rfl, r, ?_⟩
  · rintro t e t' hst ⟨a, q, rfl, -, -⟩ ⟨hshared, q', hprocs⟩
    obtain ⟨c, shared, c', hc, hact, rfl⟩ := Pool.step_act.mp hst
    refine ⟨?_, c', by rw [hprocs, List.set_set]⟩
    show shared = { s.shared with gate := shared.gate }
    rcases (act_inv hact).2.call_cases with ⟨rfl, -⟩ | ⟨b, -, heq⟩
    · exact hshared
    · rw [heq, hshared]
  · obtain ⟨hi, rfl⟩ := List.getElem?_eq_some_iff.mp hr
    rw [List.set_getElem_self]

/-- The progress rule for one request: if every step that is due is one of the request alone
that leaves `main` where it is and brings the request nearer, then such steps bring it to
where it is done. -/
theorem exists_unaided_run (limits : Gate.Limits) (codes : Proxy.CloseCodes Code) (i : Nat)
    {I : Request Code → Prop} (Done : Request Code → Prop)
    (rank : Gate.Shared → Request Code → Nat)
    (hstep : ∀ s r, I r → Done r ∨ ∃ a s' r', r.unaided a = true ∧
      requestStep limits codes s i r a = some (s', r') ∧ s'.main = s.main ∧ I r' ∧
      rank s'.gate r' < rank s.gate r)
    {s : State Code} {r : Request Code} (hmain : s.shared.main.isExited = false)
    (hr : s.procs[i]? = some r) (hI : I r) :
    ∃ as s' r', as.length ≤ rank s.shared.gate r ∧
      Machine.Along (UnaidedBy i) (machine limits codes) s as ∧
      (machine limits codes).run s as = some s' ∧ s'.procs[i]? = some r' ∧ I r' ∧ Done r' := by
  have hprogress := Pool.exists_own_run (program limits codes) (Q := fun r a => r.unaided a = true)
    (I := fun x r => x.main.isExited = false ∧ I r) (fun _ => Done) (fun x => rank x.gate) ?_ hr
    ⟨hmain, hI⟩
  · obtain ⟨as, s', r', hlen, hAlong, hrun, hr', ⟨-, hI'⟩, hdone⟩ := hprogress
    exact ⟨as, s', r', hlen, hAlong, hrun, hr', hI', hdone⟩
  · rintro x q ⟨hx, hIq⟩
    rcases hstep x q hIq with hdone | ⟨a, y, q', ha, hact, hmain', hIq', hlt⟩
    · exact Or.inl hdone
    · exact Or.inr ⟨a, y, q', ha, by simp [program, hx, hact], ⟨hmain'.symm ▸ hx, hIq'⟩, hlt⟩

/-! ## Sessions -/

/-- In `session::run`, with the Chromium in the guard or in its shutdown. -/
def Phase.inSession : Phase Code → Bool
  | relaying _ | closing _ _ => true
  | _ => false

/-- The relay awaits a send that its receiver neither takes nor fails. -/
def Phase.blocked : Phase Code → Bool
  | relaying relay => relay.blocked
  | _ => false

/-- Closed, with its permit back at the gate. -/
def Request.closed (r : Request Code) : Prop :=
  (∃ reason, r.phase = .ended (.closed reason)) ∧ r.call = .released

/-- How many steps of the server a session takes at most, once its timer fires. -/
def maxSessionSteps : Nat := 14

/-- Boundedly many steps of the server for session `i` alone close it, with its Chromium torn
down and its permit released. -/
def ClosesAlone (limits : Gate.Limits) (codes : Proxy.CloseCodes Code) (i : Nat)
    (s : State Code) : Prop :=
  ∃ as s', as.length ≤ maxSessionSteps ∧
    Machine.Along (UnaidedBy i) (machine limits codes) s as ∧
    (machine limits codes).run s as = some s' ∧ ∃ r, s'.procs[i]? = some r ∧ r.closed ∧
      ∃ p, r.chromium = some p ∧ p.tornDown = true

/-- A peer of session `i` acts, or a panic unwinds it. -/
def frees (i : Nat) : Action Code → Bool
  | .act j (.relay a) => j = i && a.ofPeer
  | .act j .panic => j = i
  | _ => false

/-- Without such an action session `i` keeps its permit for ever, and the drain of `main` has a
session to wait for. -/
def Stalls (limits : Gate.Limits) (codes : Proxy.CloseCodes Code) (i : Nat)
    (s : State Code) : Prop :=
  ∀ as s', (machine limits codes).run s as = some s' → (∀ e ∈ as, frees i e = false) →
    (∃ r, s'.procs[i]? = some r ∧ r.phase.blocked = true ∧ r.call = .holding) ∧
      (machine limits codes).step s' (.env .drained) = none

/-! ## What a session has -/

/-- A Chromium that was spawned is answered for or lost, and nothing else. -/
theorem accounted_step {s s' : AppState} {i : Nat} {r r' : Request Code} {a : RequestAction Code}
    (h : RequestStep limits codes s i r a s' r')
    (hk : r.phase.Keeps r.chromium ∨ r.phase.Lost r.chromium) :
    r'.phase.Keeps r'.chromium ∨ r'.phase.Lost r'.chromium := by
  rcases hk with hk | hl
  · by_cases hi : (a = .drop ∧ r.phase.suspended = true) ∨ a = .upgradeFails
    · exact Or.inr (lost_of_interrupt h hk hi)
    · rw [not_or, not_and, Bool.not_eq_true] at hi
      exact Or.inl (keeps_step h hk hi.1 hi.2)
  · exact Or.inr (lost_step h hl)

/-- A session waits for its Chromium without a limit once SIGKILL was sent. -/
def Phase.Killed : Phase Code → Option Chromium → Prop
  | closing .killWait _, c => ∃ p, c = some p ∧ .sigkill ∈ p.groupSignals
  | _, _ => True

theorem killed_exits {p p' : Chromium} (h : p.exits = some p') {phase : Phase Code}
    (hk : phase.Killed (some p)) : phase.Killed (some p') := by
  obtain ⟨-, rfl⟩ := exits_inv h
  cases phase with
  | closing shutdown reason =>
      cases shutdown with
      | killWait =>
          obtain ⟨q, hq, hkill⟩ := hk
          obtain rfl := Option.some.inj hq
          exact ⟨_, rfl, hkill⟩
      | _ => trivial
  | _ => trivial

theorem killed_shutdown {p p' : Chromium} {shutdown shutdown' : Shutdown} {a : ShutdownAction}
    (h : shutdownStep p shutdown a = some (p', shutdown')) (reason : Proxy.CloseReason) :
    Phase.Killed (.closing shutdown' reason : Phase Code) (some p') := by
  cases shutdown' with
  | killWait =>
      have hsent : Phase.Equipped (.aborting .killWait .shuttingDown : Phase Code) (some p') :=
        equipped_shutdown h .shuttingDown
      exact hsent
  | _ => trivial

theorem killed_step {s s' : AppState} {i : Nat} {r r' : Request Code} {a : RequestAction Code}
    (h : RequestStep limits codes s i r a s' r') (hk : r.phase.Killed r.chromium) :
    r'.phase.Killed r'.chromium := by
  cases h with
  | gate a g c hp hne h => exact hk
  | releaseDetached shutdown g c hp h => exact hk
  | close a shutdown reason p p' shutdown' hp hc h => exact killed_shutdown h reason
  | exits p p' hc h =>
      rw [hc] at hk
      exact killed_exits h hk
  | _ => trivial

theorem accounted_reachable {s : State Code}
    (h : (machine limits codes).Reachable (init limits) s) {i : Nat} {r : Request Code}
    (hr : s.procs[i]? = some r) :
    (r.phase.Keeps r.chromium ∨ r.phase.Lost r.chromium) ∧ r.phase.Killed r.chromium := by
  refine h.invariant (I := fun s : State Code => ∀ r, s.procs[i]? = some r →
    (r.phase.Keeps r.chromium ∨ r.phase.Lost r.chromium) ∧ r.phase.Killed r.chromium)
    (fun _ hr => by cases hr) ?_ r hr
  intro s e s' hst hk
  apply Pool.step_forall hst _ _ hk
  · intro r hnew
    refine ⟨Or.inl (isNew_keeps hnew), ?_⟩
    rw [isNew_phase hnew]
    trivial
  · intro a r r' _ hact _ hboth
    exact ⟨accounted_step (act_inv hact).2 hboth.1, killed_step (act_inv hact).2 hboth.2⟩

/-- A tracked session that can be led to its end. -/
structure Request.Closable (r : Request Code) : Prop where
  tracked : r.phase.tracked = true
  free : r.phase.blocked = false
  holding : r.call = .holding
  chromium : r.phase.inSession = true → r.chromium.isSome = true
  killed : r.phase.Killed r.chromium

/-- In `session::run` the Chromium is there, and nothing of it is lost. -/
theorem keeps_of_inSession {phase : Phase Code} {c : Option Chromium}
    (h : phase.Keeps c ∨ phase.Lost c) (hin : phase.inSession = true) :
    phase.Keeps c ∧ c.isSome = true := by
  cases phase with
  | relaying relay =>
      obtain ⟨p, rfl, hlive⟩ := h.resolve_right id
      exact ⟨⟨p, rfl, hlive⟩, rfl⟩
  | closing shutdown reason =>
      obtain ⟨p, rfl, hkeeps⟩ := h.resolve_right id
      exact ⟨⟨p, rfl, hkeeps⟩, rfl⟩
  | _ => cases hin

theorem admitted_of_tracked {phase : Phase Code} (h : phase.tracked = true) :
    phase.admitted = true := by
  cases phase with
  | relaying | closing | releasing => rfl
  | _ => cases h

theorem tracked_of_inSession {phase : Phase Code} (h : phase.inSession = true) :
    phase.tracked = true := by
  cases phase with
  | relaying | closing => rfl
  | _ => cases h

theorem closable_reachable {s : State Code}
    (h : (machine limits codes).Reachable (init limits) s) {i : Nat} {r : Request Code}
    (hr : s.procs[i]? = some r) (htracked : r.phase.tracked = true)
    (hfree : r.phase.blocked = false) : r.Closable := by
  obtain ⟨hk, hkilled⟩ := accounted_reachable h hr
  obtain ⟨as, hrun⟩ := h
  exact ⟨htracked, hfree, holdingAt_run i hrun r hr (admitted_of_tracked htracked),
    fun hin => (keeps_of_inSession hk hin).2, hkilled⟩

/-! ## To the end of a session -/

/-- How many steps of the server a session is from its end. -/
def sessionRank (r : Request Code) : Nat :=
  match r.phase with
  | .relaying relay => relay.rank
  | .closing shutdown _ => shutdownRank shutdown r.chromium
  | .releasing _ => 1
  | _ => 0

theorem sessionRank_le (r : Request Code) : sessionRank r ≤ maxSessionSteps := by
  unfold sessionRank maxSessionSteps
  split
  case h_1 relay hp => exact relay.rank_le
  case h_2 shutdown reason hp =>
    unfold shutdownRank
    split
    case h_3 => split <;> decide
    all_goals decide
  all_goals decide

/-- A session that is not blocked has a step of the server that brings it nearer to its end. -/
theorem exists_closing_step (limits : Gate.Limits) (codes : Proxy.CloseCodes Code) (s : AppState)
    (i : Nat) {r : Request Code} (hr : r.Closable) :
    ∃ a s' r', r.unaided a = true ∧ requestStep limits codes s i r a = some (s', r') ∧
      s'.main = s.main ∧ (r'.closed ∨ r'.Closable) ∧ sessionRank r' < sessionRank r := by
  obtain ⟨htracked, hfree, hcall, hchromium, hkilled⟩ := hr
  cases hp : r.phase with
  | relaying relay =>
      rw [hp] at hfree hchromium
      by_cases hdone : ∃ reason, relay.phase = .done reason
      · obtain ⟨reason, hdone⟩ := hdone
        refine ⟨.resume, s, { r with phase := .closing .tryWait reason }, rfl,
          by simp [requestStep, resumeStep, hp, hdone], rfl, Or.inr ?_, ?_⟩
        · exact ⟨rfl, rfl, hcall, fun _ => hchromium rfl, trivial⟩
        · simp [sessionRank, hp, Proxy.State.rank, hdone, shutdownRank]
      · obtain ⟨a, relay', hpeer, hcancel, hstep, hfree', hlt⟩ :=
          Proxy.exists_own_step codes hfree fun reason h => hdone ⟨reason, h⟩
        refine ⟨.relay a, s, { r with phase := .relaying relay' }, by simp [Request.unaided, hpeer],
          by simp [requestStep, hp, hcancel, hstep], rfl, Or.inr ?_, ?_⟩
        · exact ⟨rfl, hfree', hcall, fun _ => hchromium rfl, trivial⟩
        · simpa [sessionRank, hp] using hlt
  | closing shutdown reason =>
      rw [hp] at hchromium hkilled
      obtain ⟨p, hc⟩ := Option.isSome_iff_exists.mp (hchromium rfl)
      by_cases hfinished : shutdown = .finished
      · subst hfinished
        refine ⟨.resume, s, { r with phase := .releasing (.closed reason) }, rfl,
          by simp [requestStep, resumeStep, hp], rfl, Or.inr ?_, ?_⟩
        · exact ⟨rfl, rfl, hcall, fun h => (by cases h), trivial⟩
        · simp [sessionRank, hp, shutdownRank]
      · by_cases hkill : shutdown = .killWait ∧ p.child = .running
        -- SIGKILL was sent and cannot be ignored
        · obtain ⟨rfl, hrunning⟩ := hkill
          obtain ⟨q, hq, hsent⟩ := hkilled
          obtain rfl := Option.some.inj (hq.symm.trans hc)
          refine ⟨.exits, s, { r with chromium := some { q with child := .exited } }, ?_,
            by simp [requestStep, hp, hc, Chromium.exits, hrunning], rfl, Or.inr ?_, ?_⟩
          · simp [Request.unaided, hc, hsent]
          · refine ⟨by rw [hp]; rfl, by rw [hp]; rfl, hcall, fun _ => rfl, ?_⟩
            rw [hp]
            exact ⟨_, rfl, hsent⟩
          · simp [sessionRank, hp, shutdownRank, hc, hrunning]
        · obtain ⟨a, p', shutdown', hstep, hlt⟩ :=
            exists_shutdown_step (p := p) hfinished fun hk hrunning => hkill ⟨hk, hrunning⟩
          refine ⟨.shutdown a, s,
            { r with chromium := some p', phase := .closing shutdown' reason }, rfl,
            by simp [requestStep, hp, Request.shutdownStep, hc, hstep], rfl, Or.inr ?_, ?_⟩
          · exact ⟨rfl, rfl, hcall, fun _ => rfl, killed_shutdown hstep reason⟩
          · simpa [sessionRank, hp, hc] using hlt
  | releasing ending =>
      rw [hp] at htracked
      cases ending with
      | closed reason =>
          refine ⟨.dropPermit,
            { s with gate := { s.gate with semaphore := s.gate.semaphore.release } },
            { r with call := .released, phase := .ended (.closed reason) }, rfl, ?_, rfl,
            Or.inl ⟨⟨reason, rfl⟩, rfl⟩, by simp [sessionRank, hp]⟩
          simp only [requestStep, hp, hcall, Gate.callStep, Option.map_some]
      | _ => cases htracked
  | _ =>
      rw [hp] at htracked
      cases htracked

/-- Steps of the server alone lead it there, each of them one nearer to its end. -/
theorem exists_closing_run (limits : Gate.Limits) (codes : Proxy.CloseCodes Code) {s : State Code}
    {i : Nat} {r : Request Code}
    (hmain : s.shared.main.isExited = false) (hr : s.procs[i]? = some r) (hc : r.Closable) :
    ∃ as s', as.length ≤ sessionRank r ∧
      Machine.Along (UnaidedBy i) (machine limits codes) s as ∧
      (machine limits codes).run s as = some s' ∧ ∃ r, s'.procs[i]? = some r ∧ r.closed := by
  have hnearer : ∀ (s : AppState) (r : Request Code), r.closed ∨ r.Closable → r.closed ∨
      ∃ a s' r', r.unaided a = true ∧ requestStep limits codes s i r a = some (s', r') ∧
        s'.main = s.main ∧ (r'.closed ∨ r'.Closable) ∧ sessionRank r' < sessionRank r := by
    rintro s r (hclosed | hclosable)
    · exact Or.inl hclosed
    · exact Or.inr (exists_closing_step limits codes s i hclosable)
  obtain ⟨as, s', r', hlen, hAlong, hrun, hr', -, hclosed⟩ :=
    exists_unaided_run limits codes i Request.closed (fun _ => sessionRank) hnearer hmain hr
      (Or.inr hc)
  exact ⟨as, s', hlen, hAlong, hrun, r', hr', hclosed⟩

theorem chromium_isSome_step {s s' : AppState} {i : Nat} {r r' : Request Code}
    {a : RequestAction Code} (h : RequestStep limits codes s i r a s' r')
    (hc : r.chromium.isSome = true) : r'.chromium.isSome = true := by
  cases h with
  | spawn | startup | abort | close | detach | exits => rfl
  | upgradeFails hp => simpa [Request.dropChromium] using hc
  | dropSuspended hs => simpa [Request.dropChromium] using hc
  | _ => exact hc

/-- On the way the Chromium is torn down. -/
theorem tornDown_of_closed {s s' : State Code} {as : List (Action Code)} {i : Nat}
    {r r' : Request Code} (hr : s.procs[i]? = some r)
    (hrun : (machine limits codes).run s as = some s')
    (hby : Machine.Along (UnaidedBy i) (machine limits codes) s as)
    (hk : r.phase.Keeps r.chromium) (hc : r.chromium.isSome = true)
    (hr' : s'.procs[i]? = some r') (hclosed : r'.closed) :
    ∃ p, r'.chromium = some p ∧ p.tornDown = true := by
  have hkeeps : KeepsAt i s' :=
    Machine.run_invariant_along (P := UnaidedBy i) (I := KeepsAt i)
      (fun _ _ _ hst hu hk => keepsAt_step hst (not_interrupts_of_unaidedBy hu) hk) hrun hby
      fun q hq => by
        obtain rfl := Option.some.inj (hr.symm.trans hq)
        exact hk
  have hsome : ∃ q, s'.procs[i]? = some q ∧ q.chromium.isSome = true :=
    Machine.run_invariant (I := fun t : State Code =>
      ∃ q, t.procs[i]? = some q ∧ q.chromium.isSome = true)
      (fun _ _ _ hst => Pool.step_exists hst fun _ _ _ _ hact _ =>
        chromium_isSome_step (act_inv hact).2) hrun ⟨r, hr, hc⟩
  obtain ⟨q, hq, hqc⟩ := hsome
  obtain rfl := Option.some.inj (hr'.symm.trans hq)
  obtain ⟨p, hp⟩ := Option.isSome_iff_exists.mp hqc
  obtain ⟨⟨reason, hphase⟩, -⟩ := hclosed
  have hended := hkeeps r' hr'
  rw [hphase] at hended
  exact ⟨p, hp, hended p hp⟩

/-! ## A blocked session -/

/-- Neither the request itself nor anything else in the server brings a blocked session on. -/
theorem blocked_step {s s' : AppState} {i : Nat} {r r' : Request Code} {a : RequestAction Code}
    (h : RequestStep limits codes s i r a s' r') (ha : frees i (.act i a : Action Code) = false)
    (hb : r.phase.blocked = true ∧ r.call = .holding) :
    r'.phase.blocked = true ∧ r'.call = .holding := by
  obtain ⟨hb, hcall⟩ := hb
  have hout : ∀ {p : Phase Code}, r.phase = p → p.blocked = false → False := by
    intro p hp hno
    rw [hp, hno] at hb
    cases hb
  cases h with
  | relay a relay relay' hp hcancel h =>
      rw [hp] at hb
      exact ⟨Proxy.blocked_own_step h (by simpa [frees] using ha) hb, hcall⟩
  | relayed relay reason hp hr =>
      rw [hp] at hb
      simp [Phase.blocked, Proxy.State.blocked, hr] at hb
  | panic relay hp => simp [frees] at ha
  | exits p p' hc h => exact ⟨hb, hcall⟩
  | dropSuspended hs =>
      rcases Phase.suspended_cases hs with ⟨_, _, hp⟩ | ⟨_, _, hp⟩ | hp <;>
        exact (hout hp rfl).elim
  | _ => exact (hout ‹r.phase = _› rfl).elim

theorem tracked_of_blocked {phase : Phase Code} (h : phase.blocked = true) :
    phase.tracked = true := by
  cases phase with
  | relaying => rfl
  | _ => cases h

theorem not_drained_of_blocked {s : State Code} {r : Request Code} (hr : r ∈ s.procs)
    (hb : r.phase.blocked = true) : (machine limits codes).step s (.env .drained) = none := by
  by_contra hdrained
  obtain ⟨t, ht⟩ := Option.ne_none_iff_exists'.mp hdrained
  obtain ⟨shared, henv, -⟩ := Pool.step_env.mp ht
  obtain ⟨-, henv⟩ := Option.ite_none_left_eq_some.mp henv
  obtain ⟨⟨-, hall⟩, -⟩ := Option.ite_none_right_eq_some.mp henv
  have htracked := hall r hr
  rw [tracked_of_blocked hb] at htracked
  cases htracked

theorem stalls_of_blocked {s : State Code} {i : Nat} {r : Request Code}
    (hr : s.procs[i]? = some r) (hb : r.phase.blocked = true) (hcall : r.call = .holding) :
    Stalls limits codes i s := by
  intro as s' hrun hsilent
  have hkept := Machine.run_invariant_along
    (I := fun t : State Code =>
      ∃ r, t.procs[i]? = some r ∧ r.phase.blocked = true ∧ r.call = .holding)
    (P := fun _ e => frees i e = false) ?_ hrun
    (Machine.along_of_forall (fun e he _ => hsilent e he) _) ⟨r, hr, hb, hcall⟩
  · obtain ⟨q, hq, hqb, hqc⟩ := hkept
    exact ⟨⟨q, hq, hqb, hqc⟩, not_drained_of_blocked (List.mem_of_getElem? hq) hqb⟩
  · intro t e u hst hno ht
    apply Pool.step_exists hst _ ht
    rintro a r r' rfl hact _ hboth
    exact blocked_step (act_inv hact).2 hno hboth

theorem not_frees_of_unaided {r : Request Code} {a : RequestAction Code}
    (h : r.unaided a = true) (i j : Nat) : frees i (.act j a : Action Code) = false := by
  cases a with
  | relay a => simpa [frees, Request.unaided] using fun _ => h
  | panic => cases h
  | _ => rfl

theorem not_closesAlone_of_blocked {s : State Code} {i : Nat} {r : Request Code}
    (hr : s.procs[i]? = some r) (hb : r.phase.blocked = true) (hcall : r.call = .holding) :
    ¬ ClosesAlone limits codes i s := by
  rintro ⟨as, s', -, hAlong, hrun, q, hq, ⟨⟨reason, hphase⟩, -⟩, -⟩
  have hkept := Machine.run_invariant_along
    (I := fun t : State Code =>
      ∃ r, t.procs[i]? = some r ∧ r.phase.blocked = true ∧ r.call = .holding)
    (P := UnaidedBy i) ?_ hrun hAlong ⟨r, hr, hb, hcall⟩
  · obtain ⟨q', hq', hblocked, -⟩ := hkept
    obtain rfl := Option.some.inj (hq'.symm.trans hq)
    rw [hphase] at hblocked
    cases hblocked
  · rintro t e u hst ⟨b, q, rfl, -, hb⟩ ht
    apply Pool.step_exists hst _ ht
    rintro a r r' heq hact _ hboth
    injection heq with _ hab
    subst hab
    exact blocked_step (act_inv hact).2 (not_frees_of_unaided hb i i) hboth

/-! ## Reachable states -/

/-- When a session is bounded. Take any reachable state of the running server and a session in
its relay or in its teardown. A bounded number of steps of the server for this session
closes it, with its Chromium torn down and its permit released, exactly when its relay is
not blocked in a send; and there, as long as no peer of it acts, it keeps its permit and
the drain cannot succeed, whatever else happens. -/
theorem session_bounded_iff {s : State Code} {i : Nat} {r : Request Code}
    (h : (machine limits codes).Reachable (init limits) s)
    (hmain : s.shared.main.isExited = false) (hr : s.procs[i]? = some r)
    (hin : r.phase.inSession = true) :
    (ClosesAlone limits codes i s ↔ r.phase.blocked = false) ∧
      (r.phase.blocked = true → Stalls limits codes i s) := by
  have hkeeps := keeps_of_inSession (accounted_reachable h hr).1 hin
  have hcall : r.call = .holding := by
    obtain ⟨as, hrun⟩ := h
    exact holdingAt_run i hrun r hr (admitted_of_tracked (tracked_of_inSession hin))
  refine ⟨⟨fun hcloses => ?_, fun hfree => ?_⟩, fun hb => stalls_of_blocked hr hb hcall⟩
  · by_contra hb
    exact not_closesAlone_of_blocked hr (by simpa using hb) hcall hcloses
  · obtain ⟨as, s', hlen, hAlong, hrun, q, hq, hclosed⟩ :=
      exists_closing_run limits codes hmain hr
        (closable_reachable h hr (tracked_of_inSession hin) hfree)
    exact ⟨as, s', hlen.trans (sessionRank_le r), hAlong, hrun, q, hq, hclosed,
      tornDown_of_closed hr hrun hAlong hkeeps.1 hkeeps.2 hq hclosed⟩

/-- Request 0 has become a session, on sockets that hold one message each. -/
def activeRun : List (Action UInt16) :=
  connectingRun ++ [.act 0 .connect, .act 0 (.upgrade 1 1)]

/-- Its Chromium does not read, and the client has sent two messages. -/
def blockedRun : List (Action UInt16) :=
  activeRun ++
    [.act 0 (.relay (.client (.sends (.text "one")))), .act 0 (.relay .pollClient),
      .act 0 (.relay .sendDone), .act 0 (.relay (.client (.sends (.text "two")))),
      .act 0 (.relay .pollClient)]

theorem session_bounded_iff_activeRun :
    (∃ s : State UInt16, (machine oneSession Proxy.plainCodes).run (init oneSession)
        activeRun = some s ∧ ClosesAlone oneSession Proxy.plainCodes 0 s) ∧
      ∃ s : State UInt16, (machine oneSession Proxy.plainCodes).run (init oneSession)
        blockedRun = some s ∧ Stalls oneSession Proxy.plainCodes 0 s := by
  constructor
  · have hrun : ∃ (s : State UInt16) (r : Request UInt16),
        (machine oneSession Proxy.plainCodes).run (init oneSession) activeRun = some s ∧
        s.shared.main.isExited = false ∧ s.procs[0]? = some r ∧ r.phase.inSession = true ∧
        r.phase.blocked = false := ⟨_, _, rfl, rfl, rfl, rfl, rfl⟩
    obtain ⟨s, r, hs, hmain, hr, hin, hfree⟩ := hrun
    exact ⟨s, hs, (session_bounded_iff ⟨_, hs⟩ hmain hr hin).1.mpr hfree⟩
  · have hrun : ∃ (s : State UInt16) (r : Request UInt16),
        (machine oneSession Proxy.plainCodes).run (init oneSession) blockedRun = some s ∧
        s.shared.main.isExited = false ∧ s.procs[0]? = some r ∧ r.phase.inSession = true ∧
        r.phase.blocked = true := ⟨_, _, rfl, rfl, rfl, rfl, rfl⟩
    obtain ⟨s, r, hs, hmain, hr, hin, hblocked⟩ := hrun
    exact ⟨s, hs, (session_bounded_iff ⟨_, hs⟩ hmain hr hin).2 hblocked⟩

end Server

end Pinokio
