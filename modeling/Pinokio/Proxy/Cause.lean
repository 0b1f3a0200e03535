/-
# Pinokio.Proxy.Cause -- what the reason of a session says

`run` returns why it left its loop, and the session is logged and closed with that reason.
Whatever the peers did, in whatever order it was read, the reason names something that
happened (`causedBy_of_reason`): all that the relay sees of a peer is what that peer did
(`Endpoint.Backed`), and each of its ways out of the loop looks at one of these things.
-/
import Pinokio.Proxy

namespace Pinokio.Proxy

variable {Code : Type} {codes : CloseCodes Code}

/-- Among these actions there is one that accounts for the reason. -/
def CloseReason.CausedBy (as : List (Action Code)) : CloseReason → Prop
  | clientDisconnected =>
    .client .ends ∈ as ∨ .client .breaks ∈ as ∨ ∃ m, m.isClose = true ∧ .client (.sends m) ∈ as
  | clientError => .client .errs ∈ as
  | chromiumClosed => .upstream .ends ∈ as ∨ ∃ m, m.isClose = true ∧ .upstream (.sends m) ∈ as
  | chromiumError => .upstream .errs ∈ as ∨ .upstream .breaks ∈ as
  | sessionTimeout => .elapse ∈ as
  | serverShutdown => .cancel ∈ as

theorem CloseReason.CausedBy.mono {as bs : List (Action Code)} (hsub : as ⊆ bs)
    {r : CloseReason} (h : r.CausedBy as) : r.CausedBy bs := by
  cases r with
  | clientDisconnected =>
      rcases h with h | h | ⟨m, hm, h⟩
      · exact Or.inl (hsub h)
      · exact Or.inr (Or.inl (hsub h))
      · exact Or.inr (Or.inr ⟨m, hm, hsub h⟩)
  | chromiumClosed =>
      rcases h with h | ⟨m, hm, h⟩
      · exact Or.inl (hsub h)
      · exact Or.inr ⟨m, hm, hsub h⟩
  | chromiumError =>
      rcases h with h | h
      · exact Or.inl (hsub h)
      · exact Or.inr (hsub h)
  | clientError | sessionTimeout | serverShutdown => exact hsub h

/-! ## What is seen of a peer -/

/-- All that there is to see of this peer is what it did. -/
structure Endpoint.Backed {M : Type} (did : PeerAction M → Prop) (e : Endpoint M) : Prop where
  message : ∀ m, .ok m ∈ e.inbox → did (.sends m)
  error : ∀ u, .error u ∈ e.inbox → did .errs
  ended : e.ended = true → did .ends
  broken : e.broken = true → did .breaks

section Peer

variable {M : Type} {did did' : PeerAction M → Prop} {e e' : Endpoint M}

theorem Endpoint.backed_new (capacity : Nat) :
    (Endpoint.new capacity : Endpoint M).Backed did where
  message m h := by cases h
  error u h := by cases h
  ended h := by cases h
  broken h := by cases h

theorem Endpoint.Backed.mono (h : e.Backed did) (hsub : ∀ a, did a → did' a) : e.Backed did' :=
  ⟨fun m hm => hsub _ (h.message m hm), fun u hu => hsub _ (h.error u hu),
    fun he => hsub _ (h.ended he), fun hb => hsub _ (h.broken hb)⟩

theorem Endpoint.Backed.act {a : PeerAction M} (h : e.Backed did) (hact : e.act a = some e')
    (ha : did a) : e'.Backed did := by
  obtain ⟨hmessage, herror, hended, hbroken⟩ := h
  cases a with
  | sends m =>
      obtain ⟨-, hs⟩ := Option.ite_none_left_eq_some.mp hact
      obtain rfl := Option.some.inj hs
      refine ⟨fun k hk => ?_, fun u hu => ?_, hended, hbroken⟩
      · rcases List.mem_append.mp hk with hk | hk
        · exact hmessage k hk
        · obtain rfl := Except.ok.inj (List.mem_singleton.mp hk)
          exact ha
      · rcases List.mem_append.mp hu with hu | hu
        · exact herror u hu
        · cases List.mem_singleton.mp hu
  | errs =>
      obtain ⟨-, hs⟩ := Option.ite_none_left_eq_some.mp hact
      obtain rfl := Option.some.inj hs
      refine ⟨fun k hk => ?_, fun _ _ => ha, hended, hbroken⟩
      rcases List.mem_append.mp hk with hk | hk
      · exact hmessage k hk
      · cases List.mem_singleton.mp hk
  | ends =>
      obtain rfl := Option.some.inj hact
      exact ⟨hmessage, herror, fun _ => ha, hbroken⟩
  | reads =>
      obtain ⟨-, hs⟩ := Option.ite_none_left_eq_some.mp hact
      obtain rfl := Option.some.inj hs
      exact ⟨hmessage, herror, hended, hbroken⟩
  | breaks =>
      obtain rfl := Option.some.inj hact
      exact ⟨hmessage, herror, hended, fun _ => ha⟩

/-- What is left to read after one entry. -/
theorem Endpoint.Backed.tail {x : Except Unit M} {inbox : List (Except Unit M)}
    (h : e.Backed did) (hi : e.inbox = x :: inbox) : ({ e with inbox } : Endpoint M).Backed did :=
  ⟨fun m hm => h.message m (hi ▸ List.mem_cons_of_mem x hm),
    fun u hu => h.error u (hi ▸ List.mem_cons_of_mem x hu), h.ended, h.broken⟩

theorem Endpoint.Backed.take (h : e.Backed did) : e.take.Backed did :=
  ⟨h.message, h.error, h.ended, h.broken⟩

end Peer

/-! ## What the relay knows -/

/-- A message that is held was sent, and a reason has its cause. -/
def Phase.Caused (as : List (Action Code)) : Phase Code → Prop
  | select => True
  | sendUpstream m => .client (.sends m) ∈ as
  | sendClient m _ => .upstream (.sends m) ∈ as
  | closeClient r | closeUpstream r | done r => r.CausedBy as

theorem caused_leave {as : List (Action Code)} {r : CloseReason} (h : r.CausedBy as) :
    (leave r : Phase Code).Caused as := by
  unfold leave
  split
  · exact h
  · exact h

theorem caused_afterSend {as : List (Action Code)} {r : CloseReason} (isClose : Bool)
    (h : isClose = true → r.CausedBy as) : (afterSend isClose r : Phase Code).Caused as := by
  cases isClose with
  | true => exact caused_leave (h rfl)
  | false => trivial

/-- All that the relay knows is among these actions. -/
structure State.Accounted (as : List (Action Code)) (s : State Code) : Prop where
  client : s.client.Backed fun a => .client a ∈ as
  upstream : s.upstream.Backed fun a => .upstream a ∈ as
  elapsed : s.elapsed = true → .elapse ∈ as
  cancelled : s.cancelled = true → .cancel ∈ as
  phase : s.phase.Caused as

theorem State.Accounted.mono {as bs : List (Action Code)} {s : State Code} (hsub : as ⊆ bs)
    (h : s.Accounted as) : s.Accounted bs := by
  refine ⟨h.client.mono fun _ ha => hsub ha, h.upstream.mono fun _ ha => hsub ha,
    fun he => hsub (h.elapsed he), fun hc => hsub (h.cancelled hc), ?_⟩
  have hphase := h.phase
  cases hp : s.phase with
  | select => trivial
  | sendUpstream | sendClient =>
      rw [hp] at hphase
      exact hsub hphase
  | closeClient | closeUpstream | done =>
      rw [hp] at hphase
      exact hphase.mono hsub

theorem accounted_init (clientCapacity upstreamCapacity : Nat) :
    (init clientCapacity upstreamCapacity : State Code).Accounted [] where
  client := Endpoint.backed_new _
  upstream := Endpoint.backed_new _
  elapsed h := by cases h
  cancelled h := by cases h
  phase := trivial

/-- A step whose action is among them adds nothing else. -/
theorem Step.accounted {as : List (Action Code)} {s s' : State Code} {a : Action Code}
    (h : Step codes s a s') (ha : a ∈ as) (hA : s.Accounted as) : s'.Accounted as := by
  obtain ⟨hclient, hupstream, helapsed, hcancelled, hphase⟩ := hA
  cases h with
  | client client hact => exact ⟨hclient.act hact ha, hupstream, helapsed, hcancelled, hphase⟩
  | upstream upstream hact => exact ⟨hclient, hupstream.act hact ha, helapsed, hcancelled, hphase⟩
  | elapse => exact ⟨hclient, hupstream, fun _ => ha, hcancelled, hphase⟩
  | cancel => exact ⟨hclient, hupstream, helapsed, fun _ => ha, hphase⟩
  | readClient m inbox hp hi =>
      exact ⟨hclient.tail hi, hupstream, helapsed, hcancelled,
        hclient.message m (hi ▸ List.mem_cons_self)⟩
  | clientErrs e inbox hp hi =>
      exact ⟨hclient.tail hi, hupstream, helapsed, hcancelled,
        caused_leave (r := .clientError) (hclient.error e (hi ▸ List.mem_cons_self))⟩
  | clientEnds hp hi he =>
      exact ⟨hclient, hupstream, helapsed, hcancelled,
        caused_leave (r := .clientDisconnected) (Or.inl (hclient.ended he))⟩
  | readUpstream m inbox hp hi =>
      have hsent := hupstream.message m (hi ▸ List.mem_cons_self)
      refine ⟨hclient, hupstream.tail hi, helapsed, hcancelled, ?_⟩
      dsimp only
      split
      · exact hsent
      · exact caused_afterSend m.isClose fun hclose => Or.inr ⟨m, hclose, hsent⟩
  | upstreamErrs e inbox hp hi =>
      exact ⟨hclient, hupstream.tail hi, helapsed, hcancelled,
        caused_leave (r := .chromiumError) (Or.inl (hupstream.error e (hi ▸ List.mem_cons_self)))⟩
  | upstreamEnds hp hi he =>
      exact ⟨hclient, hupstream, helapsed, hcancelled,
        caused_leave (r := .chromiumClosed) (Or.inl (hupstream.ended he))⟩
  | timeout hp he =>
      exact ⟨hclient, hupstream, helapsed, hcancelled,
        caused_leave (r := .sessionTimeout) (helapsed he)⟩
  | shutdown hp hc =>
      exact ⟨hclient, hupstream, helapsed, hcancelled,
        caused_leave (r := .serverShutdown) (hcancelled hc)⟩
  | forwardUpstream m hp hroom =>
      rw [hp] at hphase
      exact ⟨hclient, hupstream.take, helapsed, hcancelled,
        caused_afterSend m.isClose fun hclose => Or.inr (Or.inr ⟨m, hclose, hphase⟩)⟩
  | forwardClient m converted hp hroom =>
      rw [hp] at hphase
      exact ⟨hclient.take, hupstream, helapsed, hcancelled,
        caused_afterSend m.isClose fun hclose => Or.inr ⟨m, hclose, hphase⟩⟩
  | failUpstream m hp hb =>
      exact ⟨hclient, hupstream, helapsed, hcancelled,
        caused_leave (r := .chromiumError) (Or.inr (hupstream.broken hb))⟩
  | failClient m converted hp hb =>
      exact ⟨hclient, hupstream, helapsed, hcancelled,
        caused_leave (r := .clientDisconnected) (Or.inr (Or.inl (hclient.broken hb)))⟩
  -- the teardown keeps the reason
  | closedClient r hp hroom =>
      rw [hp] at hphase
      exact ⟨hclient.take, hupstream, helapsed, hcancelled, hphase⟩
  | closedUpstream r hp hroom =>
      rw [hp] at hphase
      exact ⟨hclient, hupstream.take, helapsed, hcancelled, hphase⟩
  | skipClient r hp ha | skipUpstream r hp ha =>
      rw [hp] at hphase
      exact ⟨hclient, hupstream, helapsed, hcancelled, hphase⟩

/-- Whatever the peers do: the reason with which the loop was left names something that
happened in the run. -/
theorem causedBy_of_reason {clientCapacity upstreamCapacity : Nat} {as : List (Action Code)}
    {s : State Code} {r : CloseReason}
    (hrun : (machine codes).run (init clientCapacity upstreamCapacity) as = some s)
    (hr : s.phase.reason = some r) : r.CausedBy as := by
  have hA : s.Accounted as :=
    Machine.run_history (I := fun as s => State.Accounted as s)
      (fun as s a s' hst hA => (step_inv hst).accounted (by simp)
        (hA.mono (List.subset_append_left as [a]))) hrun (accounted_init _ _)
  have hphase := hA.phase
  cases hp : s.phase with
  | closeClient | closeUpstream | done =>
      rw [hp] at hr hphase
      obtain rfl := Option.some.inj hr
      exact hphase
  | _ =>
      rw [hp] at hr
      cases hr

end Pinokio.Proxy
