/-
# Pinokio.Server.SessionRelay -- the relay of a session

To its relay the gateway is two peers, a timer and a token: seen from one session, every run
of the gateway is a run of `proxy::run` by the steps that this session took, in their order,
and a session is closed with the reason that its `run` returned
(`session_refines_proxy`). So whatever holds of every run of the relay holds of every
session. For the reason this is that it names something that happened to this session, and
for a shutdown, that the signal came and its grace period was over (`closed_for_cause`).
-/
import Pinokio.Proxy.Cause
import Pinokio.Server.SessionEnd

namespace Pinokio.Server

variable {Code : Type} {limits : Gate.Limits} {codes : Proxy.CloseCodes Code}

/-! ## The session as the relay sees it -/

/-- The step of the relay of session `i` that this is, if it is one. -/
def relayAction (i : Nat) : Action Code → Option (Proxy.Action Code)
  | .act j (.relay a) => if j = i then some a else none
  | _ => none

def relayActions (i : Nat) (as : List (Action Code)) : List (Proxy.Action Code) :=
  as.filterMap (relayAction i)

/-- On sockets of some capacities, `run` comes to this state by these steps. -/
def Relays (codes : Proxy.CloseCodes Code) (bs : List (Proxy.Action Code))
    (relay : Proxy.State Code) : Prop :=
  ∃ clientCapacity upstreamCapacity,
    (Proxy.machine codes).run (Proxy.init clientCapacity upstreamCapacity) bs = some relay

/-- The reason for which a session was or is being closed. -/
def Phase.closeReason : Phase Code → Option Proxy.CloseReason
  | closing _ reason | releasing (.closed reason) | ended (.closed reason) => some reason
  | _ => none

/-- How far the relay of a request has come by these steps. -/
def Phase.Relayed (codes : Proxy.CloseCodes Code) (bs : List (Proxy.Action Code)) :
    Phase Code → Prop
  | relaying relay => Relays codes bs relay
  | closing _ reason | releasing (.closed reason) | ended (.closed reason) =>
    ∃ relay, Relays codes bs relay ∧ relay.phase = .done reason
  | releasing _ | ended _ | detached _ => True
  -- up to the upgrade there is no relay
  | _ => bs = []

theorem Relays.step {bs : List (Proxy.Action Code)} {relay relay' : Proxy.State Code}
    {a : Proxy.Action Code} (h : Relays codes bs relay)
    (hstep : Proxy.step codes relay a = some relay') : Relays codes (bs ++ [a]) relay' := by
  obtain ⟨clientCapacity, upstreamCapacity, hrun⟩ := h
  exact ⟨clientCapacity, upstreamCapacity, (Machine.run_concat_iff _).mpr ⟨relay, hrun, hstep⟩⟩

/-- A step of the relay is one of `run`, and the token it listens to is the one of the sessions. -/
theorem relay_inv {s s' : AppState} {i : Nat} {r r' : Request Code} {a : Proxy.Action Code}
    (h : RequestStep limits codes s i r (.relay a) s' r') :
    ∃ relay relay', r.phase = .relaying relay ∧ (a.isCancel = true → s.sessionCancel = true) ∧
      Proxy.step codes relay a = some relay' ∧ r'.phase = .relaying relay' := by
  cases h with
  | relay _ relay relay' hp hcancel hstep => exact ⟨relay, relay', hp, hcancel, hstep, rfl⟩

/-- A step of the request that is none of its relay. -/
theorem relayed_step {s s' : AppState} {i : Nat} {r r' : Request Code} {a : RequestAction Code}
    {bs : List (Proxy.Action Code)} (h : RequestStep limits codes s i r a s' r')
    (ha : ∀ b, a ≠ .relay b) (hk : r.phase.Relayed codes bs) : r'.phase.Relayed codes bs := by
  cases h with
  | gate | releaseDetached | exits => exact hk
  | relay a relay relay' hp hcancel h => exact absurd rfl (ha a)
  | upgrade clientCapacity upstreamCapacity hp =>
      rw [hp] at hk
      obtain rfl : bs = [] := hk
      exact ⟨clientCapacity, upstreamCapacity, rfl⟩
  | relayed relay reason hp hr =>
      rw [hp] at hk
      exact ⟨relay, hk, hr⟩
  | release ending g c hp h =>
      rw [hp] at hk
      cases ending with
      | closed reason => exact hk
      | _ => trivial
  | notShutdown hp | browser hp | launchOptions hp | admitted hp | spawn hp | startup _ _ _ _ _ _ hp
  | startupElapses _ _ hp | started _ hp | startFailed _ _ hp | connect hp | connectFails _ hp
  | abort _ _ _ _ _ _ hp | close _ _ _ _ _ _ hp | closed _ hp | authorized hp =>
      rw [hp] at hk
      exact hk
  | _ => trivial

/-- What the steps of session `i` have brought about. -/
def RelayedAt (codes : Proxy.CloseCodes Code) (i : Nat) (as : List (Action Code))
    (s : State Code) : Prop :=
  (∀ r, s.procs[i]? = some r → r.phase.Relayed codes (relayActions i as)) ∧
    (s.procs[i]? = none → relayActions i as = [])

theorem relayActions_concat (i : Nat) (as : List (Action Code)) (e : Action Code) :
    relayActions i (as ++ [e]) = relayActions i as ++ (relayAction i e).toList := by
  rw [relayActions, List.filterMap_append]
  cases h : relayAction i e with
  | none => simp [relayActions, h]
  | some a => simp [relayActions, h]

theorem relayAction_of_ne {i : Nat} {e : Action Code} (h : ∀ a, e ≠ .act i a) :
    relayAction i e = none := by
  cases e with
  | act j a =>
      have hne : j ≠ i := by
        rintro rfl
        exact h a rfl
      cases a with
      | relay b => exact if_neg hne
      | _ => rfl
  | spawn | env => rfl

theorem relayedAt_step {i : Nat} (as : List (Action Code)) (s : State Code) (e : Action Code)
    (s' : State Code) (h : (machine limits codes).step s e = some s')
    (hI : RelayedAt codes i as s) : RelayedAt codes i (as ++ [e]) s' := by
  obtain ⟨hsome, hnone⟩ := hI
  rw [RelayedAt, relayActions_concat]
  cases hs : s.procs[i]? with
  | some r =>
      rcases Pool.step_proc_next h hs with ⟨a, r', rfl, hact, hr'⟩ | ⟨hr', hne⟩
      · refine ⟨fun q hq => ?_, fun hno => by rw [hr'] at hno; cases hno⟩
        obtain rfl := Option.some.inj (hr'.symm.trans hq)
        by_cases ha : ∃ b, a = .relay b
        · obtain ⟨b, rfl⟩ := ha
          have hshown : relayAction i (.act i (.relay b) : Action Code) = some b := if_pos rfl
          rw [hshown]
          obtain ⟨relay, relay', hp, -, hstep, hp'⟩ := relay_inv (act_inv hact).2
          have hk := hsome r hs
          rw [hp] at hk
          rw [hp']
          exact Relays.step hk hstep
        · have hshown : relayAction i (.act i a : Action Code) = none := by
            cases a with
            | relay b => exact absurd ⟨b, rfl⟩ ha
            | _ => rfl
          rw [hshown, Option.toList_none, List.append_nil]
          exact relayed_step (act_inv hact).2 (fun b hb => ha ⟨b, hb⟩) (hsome r hs)
      · rw [relayAction_of_ne hne, Option.toList_none, List.append_nil]
        refine ⟨fun q hq => ?_, fun hno => by rw [hr'] at hno; cases hno⟩
        obtain rfl := Option.some.inj (hr'.symm.trans hq)
        exact hsome r hs
  | none =>
      -- a request that is not there yet takes no step
      have hne : ∀ a, e ≠ .act i a := by
        rintro a rfl
        obtain ⟨c, _, _, hc, -⟩ := Pool.step_act.mp h
        rw [hs] at hc
        cases hc
      rw [relayAction_of_ne hne, Option.toList_none, List.append_nil, hnone hs]
      refine ⟨fun q hq => ?_, fun _ => rfl⟩
      rcases Pool.step_proc h hq with ⟨-, hfresh⟩ | ⟨a, c, -, hc, -⟩ | ⟨hc, -⟩
      · rw [isNew_phase hfresh]
        rfl
      · rw [hs] at hc
        cases hc
      · rw [hs] at hc
        cases hc

theorem relayed_of_run {s : State Code} {as : List (Action Code)} {i : Nat} {r : Request Code}
    (hrun : (machine limits codes).run (init limits) as = some s) (hr : s.procs[i]? = some r) :
    r.phase.Relayed codes (relayActions i as) := by
  have hI : RelayedAt codes i as s :=
    Machine.run_history (I := RelayedAt codes i) relayedAt_step hrun
      ⟨(fun r hr => by cases hr), fun _ => rfl⟩
  exact hI.1 r hr

theorem relays_of_closeReason {phase : Phase Code} {bs : List (Proxy.Action Code)}
    {reason : Proxy.CloseReason} (hk : phase.Relayed codes bs)
    (h : phase.closeReason = some reason) :
    ∃ relay, Relays codes bs relay ∧ relay.phase = .done reason := by
  cases phase with
  | closing shutdown reason' =>
      obtain rfl := Option.some.inj h
      exact hk
  | releasing ending | ended ending =>
      cases ending with
      | closed reason' =>
          obtain rfl := Option.some.inj h
          exact hk
      | _ => cases h
  | _ => cases h

/-- Every run of the gateway is, seen from a session in its relay, a run of the relay by the
steps that this session took; and a session is closed with the reason that such a run
returned. -/
theorem session_refines_proxy {s : State Code} {as : List (Action Code)} {i : Nat}
    {r : Request Code} (hrun : (machine limits codes).run (init limits) as = some s)
    (hr : s.procs[i]? = some r) :
    (∀ relay, r.phase = .relaying relay → Relays codes (relayActions i as) relay) ∧
      ∀ reason, r.phase.closeReason = some reason →
        ∃ relay, Relays codes (relayActions i as) relay ∧ relay.phase = .done reason := by
  have hk := relayed_of_run hrun hr
  refine ⟨fun relay hp => ?_, fun reason hreason => relays_of_closeReason hk hreason⟩
  rwa [hp] at hk

/-- The session of `closedRun`: its client goes away. -/
theorem session_refines_proxy_closedRun :
    ∃ s : State UInt16,
      (machine oneSession Proxy.plainCodes).run (init oneSession) closedRun = some s ∧
      ∃ relay, Relays Proxy.plainCodes [.client .ends, .pollClient, .sendElapses] relay ∧
        relay.phase = .done .clientDisconnected := by
  have hrun : ∃ s : State UInt16,
      (machine oneSession Proxy.plainCodes).run (init oneSession) closedRun = some s ∧
      s.procs[0]? = some closedRequest := ⟨_, rfl, rfl⟩
  obtain ⟨s, hs, hr⟩ := hrun
  exact ⟨s, hs, (session_refines_proxy hs hr).2 .clientDisconnected rfl⟩

/-! ## The reason -/

/-- The signal, the end of its grace period and the cancellation of session `i`, in this
order. -/
def shutdownSteps (i : Nat) : List (Action Code) :=
  [.env .signal, .env .graceElapses, .act i (.relay .cancel)]

/-- What has happened when `main` has got that far, and when the token of the sessions or the one
of session `i` is cancelled. -/
structure Announced (i : Nat) (as : List (Action Code)) (s : AppState) : Prop where
  signal : s.main = .stopping ∨ s.main = .draining →
    ((shutdownSteps i : List (Action Code)).take 1).Sublist as
  grace : s.sessionCancel = true → ((shutdownSteps i : List (Action Code)).take 2).Sublist as
  cancel : .act i (.relay .cancel) ∈ as → (shutdownSteps i : List (Action Code)).Sublist as

theorem announced_init (i : Nat) :
    Announced i ([] : List (Action Code)) (AppState.new limits) where
  signal h := by rcases h with h | h <;> cases h
  grace h := by cases h
  cancel h := by cases h

/-- A step of the environment on the way of the shutdown. -/
theorem announced_env {i : Nat} {as : List (Action Code)} {s s' : AppState}
    {requests : List (Request Code)} {e : EnvAction}
    (h : (program limits codes).env s requests e = some s') (hA : Announced i as s) :
    Announced i (as ++ [.env e]) s' := by
  obtain ⟨hsignal, hgrace, hcancel⟩ := hA
  have hlater : ∀ {bs : List (Action Code)}, bs.Sublist as → bs.Sublist (as ++ [.env e]) :=
    fun hsub => hsub.trans (List.sublist_append_left as _)
  have hcancel' : (.act i (.relay .cancel) : Action Code) ∈ as ++ [.env e] →
      (shutdownSteps i).Sublist (as ++ [.env e]) := by
    intro hmem
    rcases List.mem_append.mp hmem with hmem | hmem
    · exact hlater (hcancel hmem)
    · cases List.mem_singleton.mp hmem
  obtain ⟨-, h⟩ := Option.ite_none_left_eq_some.mp h
  cases e with
  | browserReady | browserFails =>
      obtain ⟨-, h⟩ := Option.ite_none_left_eq_some.mp h
      cases h
      exact ⟨fun hm => hlater (hsignal hm), fun hg => hlater (hgrace hg), hcancel'⟩
  | signal =>
      obtain ⟨-, h⟩ := Option.ite_none_right_eq_some.mp h
      cases h
      exact ⟨fun _ => List.sublist_append_right as _, fun hg => hlater (hgrace hg), hcancel'⟩
  | graceElapses =>
      -- the grace timer is started by the signal
      have hgraced : s.main = .stopping ∨ s.main = .draining →
          Announced i (as ++ [.env .graceElapses]) { s with sessionCancel := true } := by
        intro hm
        refine ⟨fun hm => hlater (hsignal hm), fun _ => ?_, hcancel'⟩
        exact List.Sublist.append (hsignal hm)
          (List.Sublist.refl ([.env .graceElapses] : List (Action Code)))
      simp only [envStep] at h
      split at h
      next hm =>
        cases h
        exact hgraced (Or.inl hm)
      next hm =>
        cases h
        exact hgraced (Or.inr hm)
      next => cases h
  | served =>
      obtain ⟨⟨hm, -⟩, h⟩ := Option.ite_none_right_eq_some.mp h
      cases h
      exact ⟨fun _ => hlater (hsignal (Or.inl hm)), fun hg => hlater (hgrace hg), hcancel'⟩
  | serveFails | drained | drainElapses =>
      obtain ⟨-, h⟩ := Option.ite_none_right_eq_some.mp h
      cases h
      exact ⟨(fun hm => by rcases hm with hm | hm <;> cases hm), fun hg => hlater (hgrace hg),
        hcancel'⟩

theorem announced_step {i : Nat} (as : List (Action Code)) (s : State Code) (e : Action Code)
    (s' : State Code) (h : (machine limits codes).step s e = some s')
    (hA : Announced i as s.shared) : Announced i (as ++ [e]) s'.shared := by
  have hlater : ∀ {bs : List (Action Code)}, bs.Sublist as → bs.Sublist (as ++ [e]) :=
    fun hsub => hsub.trans (List.sublist_append_left as _)
  cases e with
  | spawn r =>
      obtain ⟨-, rfl⟩ := Pool.step_spawn.mp h
      refine ⟨fun hm => hlater (hA.signal hm), fun hg => hlater (hA.grace hg), fun hmem => ?_⟩
      rcases List.mem_append.mp hmem with hmem | hmem
      · exact hlater (hA.cancel hmem)
      · cases List.mem_singleton.mp hmem
  | act j a =>
      obtain ⟨r, shared, r', hr, hact, rfl⟩ := Pool.step_act.mp h
      have hsame : shared.main = s.shared.main ∧
          shared.sessionCancel = s.shared.sessionCancel := by
        rcases (act_inv hact).2.call_cases with ⟨rfl, -⟩ | ⟨b, -, heq⟩
        · exact ⟨rfl, rfl⟩
        · rw [heq]
          exact ⟨rfl, rfl⟩
      refine ⟨fun hm => hlater (hA.signal ?_), fun hg => hlater (hA.grace ?_), fun hmem => ?_⟩
      · rwa [hsame.1] at hm
      · rwa [hsame.2] at hg
      · rcases List.mem_append.mp hmem with hmem | hmem
        · exact hlater (hA.cancel hmem)
        · -- a session hears of the shutdown by the token that is cancelled after the grace period
          have heq := List.mem_singleton.mp hmem
          injection heq with hj ha
          subst hj
          subst ha
          obtain ⟨-, -, -, hcancel, -⟩ := relay_inv (act_inv hact).2
          exact List.Sublist.append (hA.grace (hcancel rfl))
            (List.Sublist.refl ([.act i (.relay .cancel)] : List (Action Code)))
  | env e =>
      obtain ⟨shared, henv, rfl⟩ := Pool.step_env.mp h
      exact announced_env henv hA

theorem mem_relayActions {i : Nat} {as : List (Action Code)} {a : Proxy.Action Code}
    (h : a ∈ relayActions i as) : .act i (.relay a) ∈ as := by
  obtain ⟨e, he, hshown⟩ := List.mem_filterMap.mp h
  cases e with
  | act j b =>
      cases b with
      | relay b =>
          obtain ⟨rfl, hb⟩ := Option.ite_none_right_eq_some.mp hshown
          obtain rfl := Option.some.inj hb
          exact he
      | _ => cases hshown
  | spawn | env => cases hshown

/-- A session is closed for a reason that its own relay met with: what the client, its Chromium,
its timer or its token did. For `serverShutdown` the signal had come before, and then its
grace period was over. -/
theorem closed_for_cause {s : State Code} {as : List (Action Code)} {i : Nat}
    {r : Request Code} {reason : Proxy.CloseReason}
    (hrun : (machine limits codes).run (init limits) as = some s)
    (hr : s.procs[i]? = some r) (hreason : r.phase.closeReason = some reason) :
    reason.CausedBy (relayActions i as) ∧
      (reason = .serverShutdown → (shutdownSteps i : List (Action Code)).Sublist as) := by
  obtain ⟨relay, ⟨clientCapacity, upstreamCapacity, hrelay⟩, hdone⟩ :=
    relays_of_closeReason (relayed_of_run hrun hr) hreason
  have hcaused : reason.CausedBy (relayActions i as) :=
    Proxy.causedBy_of_reason hrelay (by rw [hdone]; rfl)
  refine ⟨hcaused, ?_⟩
  rintro rfl
  have hA : Announced i as s.shared :=
    Machine.run_history (I := fun as (s : State Code) => Announced i as s.shared) announced_step
      hrun (announced_init i)
  exact hA.cancel (mem_relayActions hcaused)

/-- A session is still open when the grace period is over. -/
def shutdownRun : List (Action UInt16) :=
  activeRun ++ shutdownSteps 0 ++
    [.act 0 (.relay .pollCancel), .act 0 (.relay .sendDone), .act 0 (.relay .sendDone),
      .act 0 .resume]

theorem closed_for_cause_shutdownRun :
    ∃ s : State UInt16,
      (machine oneSession Proxy.plainCodes).run (init oneSession) shutdownRun = some s ∧
      Proxy.CloseReason.CausedBy (relayActions 0 shutdownRun) .serverShutdown ∧
      (shutdownSteps 0 : List (Action UInt16)).Sublist shutdownRun := by
  have hrun : ∃ s : State UInt16, ∃ r,
      (machine oneSession Proxy.plainCodes).run (init oneSession) shutdownRun = some s ∧
      s.procs[0]? = some r ∧ r.phase.closeReason = some .serverShutdown := ⟨_, _, rfl, rfl, rfl⟩
  obtain ⟨s, r, hs, hr, hreason⟩ := hrun
  obtain ⟨hcaused, hsteps⟩ := closed_for_cause hs hr hreason
  exact ⟨s, hs, hcaused, hsteps rfl⟩

end Pinokio.Server
