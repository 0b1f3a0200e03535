/-
# Pinokio.Proxy.Transparency -- the relay is a pair of first-in first-out channels

The conversions keep what a message says (`Wire`), in both directions. The loop
keeps one flow in each direction (`Inv`): what it has read of a side is what it
has forwarded, but for at most one message whose forwarding is pending or failed,
and it reads nothing after a close. Each step of the relay is therefore a run of
two independent channels, which the end of the loop cuts.
-/
import Pinokio.Lib.Channel
import Pinokio.Lib.Utf8
import Pinokio.Proxy

namespace Pinokio.Proxy

variable {Code : Type} {codes : CloseCodes Code}

/-! ## What a message says -/

/-- The kind of a message, its payload bytes, and the code and reason bytes of a
close. -/
inductive Wire where
  | text (payload : ByteArray)
  | binary (payload : ByteArray)
  | ping (payload : ByteArray)
  | pong (payload : ByteArray)
  | close (frame : Option (UInt16 × ByteArray))
  | raw (payload : ByteArray)

def ClientMessage.wire : ClientMessage → Wire
  | text s => .text s.toUTF8
  | binary b => .binary b
  | ping b => .ping b
  | pong b => .pong b
  | close frame => .close (frame.map fun f => (f.code, f.reason.toUTF8))

def UpstreamMessage.wire (codes : CloseCodes Code) : UpstreamMessage Code → Wire
  | text s => .text s.toUTF8
  | binary b => .binary b
  | ping b => .ping b
  | pong b => .pong b
  | close fr => .close (fr.map fun f => (codes.toU16 f.code, f.reason.toUTF8))
  | frame b => .raw b

@[simp] theorem reasonOfBytes_toByteArray (s : String) : reasonOfBytes s.toByteArray = s := by
  show (String.fromUTF8? s.toUTF8).getD "" = s
  rw [Utf8.fromUTF8?_toUTF8]
  rfl

/-- The conversion keeps a valid text a text. -/
theorem clientToUpstream_text (s : String) :
    clientToUpstream codes (.text s) = .text s := by
  have hutf8 : String.fromUTF8? s.toUTF8 = some s := Utf8.fromUTF8?_toUTF8 s
  simp only [clientToUpstream, hutf8]

theorem clientToUpstream_close (frame : Option (CloseFrame UInt16)) :
    clientToUpstream codes (.close frame) =
      .close (frame.map fun f => { code := codes.ofU16 f.code, reason := f.reason }) := by
  simp [clientToUpstream]

theorem upstreamToClient_text (s : String) :
    upstreamToClient codes (.text s) = some (.text s) := by
  show (String.fromUTF8? s.toUTF8).map ClientMessage.text = some (.text s)
  rw [Utf8.fromUTF8?_toUTF8]
  rfl

theorem upstreamToClient_close (frame : Option (CloseFrame Code)) :
    upstreamToClient codes (.close frame) =
      some (.close (frame.map fun f => { code := codes.toU16 f.code, reason := f.reason })) := by
  simp [upstreamToClient]

/-- Towards Chromium nothing of a message is lost. -/
theorem wire_clientToUpstream (hcodes : codes.Lossless) (m : ClientMessage) :
    (clientToUpstream codes m).wire codes = m.wire := by
  cases m with
  | text s =>
      rw [clientToUpstream_text]
      rfl
  | close frame =>
      rw [clientToUpstream_close]
      cases frame with
      | none => rfl
      | some f => simp [UpstreamMessage.wire, ClientMessage.wire, hcodes f.code]
  | _ => rfl

/-- Towards the client nothing of a message is lost. -/
theorem wire_upstreamToClient {m : UpstreamMessage Code} {c : ClientMessage}
    (h : upstreamToClient codes m = some c) : c.wire = m.wire codes := by
  cases m with
  | text s =>
      rw [upstreamToClient_text] at h
      obtain rfl := Option.some.inj h
      rfl
  | close frame =>
      rw [upstreamToClient_close] at h
      obtain rfl := Option.some.inj h
      cases frame <;> rfl
  | frame raw => cases h
  | _ =>
      obtain rfl := Option.some.inj h
      rfl

/-- Only a raw frame has no image. -/
theorem upstreamToClient_isSome {m : UpstreamMessage Code} (h : m.isRaw = false) :
    (upstreamToClient codes m).isSome = true := by
  cases m with
  | text s => rw [upstreamToClient_text]; rfl
  | frame raw => cases h
  | _ => rfl

/-- A client message survives the way to Chromium and back. -/
theorem upstreamToClient_clientToUpstream (hcodes : codes.Lossless) (m : ClientMessage) :
    upstreamToClient codes (clientToUpstream codes m) = some m := by
  cases m with
  | text s => rw [clientToUpstream_text, upstreamToClient_text]
  | close frame =>
      rw [clientToUpstream_close, upstreamToClient_close]
      cases frame with
      | none => rfl
      | some f => simp [hcodes f.code]
  | _ => rfl

/-! ## The flows of the loop -/

/-- The messages of an inbox, without a stream error. -/
def messages {M : Type} (inbox : List (Except Unit M)) : List M :=
  inbox.filterMap Except.toOption

@[simp] theorem messages_append {M : Type} (xs ys : List (Except Unit M)) :
    messages (xs ++ ys) = messages xs ++ messages ys := by
  simp [messages]

@[simp] theorem messages_ok {M : Type} (m : M) (inbox : List (Except Unit M)) :
    messages (.ok m :: inbox) = m :: messages inbox := rfl

@[simp] theorem messages_error {M : Type} (e : Unit) (inbox : List (Except Unit M)) :
    messages (.error e :: inbox) = messages inbox := rfl

/-- The image of a client message that was read and not forwarded. -/
def heldUpstream (codes : CloseCodes Code) (s : State Code) : Option (UpstreamMessage Code) :=
  match s.phase with
  | .sendUpstream m => some (clientToUpstream codes m)
  | _ => s.failedUpstream.map (clientToUpstream codes)

/-- The image of a message of Chromium that was read and not forwarded. -/
def heldClient (s : State Code) : Option ClientMessage :=
  match s.phase with
  | .sendClient _ converted => some converted
  | _ => s.failedClient

/-- The client may be read again. -/
def Phase.clientFresh : Phase Code → Bool
  | select | sendClient _ _ => true
  | sendUpstream m => !m.isClose
  | _ => false

/-- Chromium may be read again. -/
def Phase.upstreamFresh : Phase Code → Bool
  | select | sendUpstream _ => true
  | sendClient m _ => !m.isClose
  | _ => false

structure Inv (codes : CloseCodes Code) (s : State Code) : Prop where
  up : RelayFlow (fun m => some (clientToUpstream codes m)) ClientMessage.isClose s.client.sent
    s.readClient (messages s.client.inbox) s.toUpstream (heldUpstream codes s) s.phase.clientFresh
  down : RelayFlow (upstreamToClient codes) UpstreamMessage.isClose s.upstream.sent
    s.readUpstream (messages s.upstream.inbox) s.toClient (heldClient s) s.phase.upstreamFresh
  failed : s.phase.inLoop = true → s.failedUpstream = none ∧ s.failedClient = none

theorem inv_init (clientCapacity upstreamCapacity : Nat) :
    Inv codes (init clientCapacity upstreamCapacity) where
  up := RelayFlow.start _ _
  down := RelayFlow.start _ _
  failed := fun _ => ⟨rfl, rfl⟩

/-! ### The invariant, phase by phase -/

section Phases

variable {s : State Code}

theorem Inv.select_up (h : Inv codes s) (hp : s.phase = .select) :
    RelayFlow (fun m => some (clientToUpstream codes m)) ClientMessage.isClose s.client.sent
      s.readClient (messages s.client.inbox) s.toUpstream none true := by
  have hup := h.up
  simpa [heldUpstream, hp, Phase.clientFresh, (h.failed (by rw [hp]; rfl)).1] using hup

theorem Inv.select_down (h : Inv codes s) (hp : s.phase = .select) :
    RelayFlow (upstreamToClient codes) UpstreamMessage.isClose s.upstream.sent
      s.readUpstream (messages s.upstream.inbox) s.toClient none true := by
  have hdown := h.down
  simpa [heldClient, hp, Phase.upstreamFresh, (h.failed (by rw [hp]; rfl)).2] using hdown

theorem Inv.sendUpstream_up {m : ClientMessage} (h : Inv codes s)
    (hp : s.phase = .sendUpstream m) :
    RelayFlow (fun m => some (clientToUpstream codes m)) ClientMessage.isClose s.client.sent
      s.readClient (messages s.client.inbox) s.toUpstream (some (clientToUpstream codes m))
      (!m.isClose) := by
  have hup := h.up
  simpa only [heldUpstream, hp, Phase.clientFresh] using hup

theorem Inv.sendUpstream_down {m : ClientMessage} (h : Inv codes s)
    (hp : s.phase = .sendUpstream m) :
    RelayFlow (upstreamToClient codes) UpstreamMessage.isClose s.upstream.sent
      s.readUpstream (messages s.upstream.inbox) s.toClient none true := by
  have hdown := h.down
  simpa [heldClient, hp, Phase.upstreamFresh, (h.failed (by rw [hp]; rfl)).2] using hdown

theorem Inv.sendClient_up {m : UpstreamMessage Code} {c : ClientMessage} (h : Inv codes s)
    (hp : s.phase = .sendClient m c) :
    RelayFlow (fun m => some (clientToUpstream codes m)) ClientMessage.isClose s.client.sent
      s.readClient (messages s.client.inbox) s.toUpstream none true := by
  have hup := h.up
  simpa [heldUpstream, hp, Phase.clientFresh, (h.failed (by rw [hp]; rfl)).1] using hup

theorem Inv.sendClient_down {m : UpstreamMessage Code} {c : ClientMessage} (h : Inv codes s)
    (hp : s.phase = .sendClient m c) :
    RelayFlow (upstreamToClient codes) UpstreamMessage.isClose s.upstream.sent
      s.readUpstream (messages s.upstream.inbox) s.toClient (some c) (!m.isClose) := by
  have hdown := h.down
  simpa only [heldClient, hp, Phase.upstreamFresh] using hdown

theorem heldUpstream_of_left (hp : s.phase.inLoop = false) :
    heldUpstream codes s = s.failedUpstream.map (clientToUpstream codes) := by
  unfold heldUpstream
  split
  next m hm =>
    rw [hm] at hp
    cases hp
  next => rfl

theorem heldClient_of_left (hp : s.phase.inLoop = false) : heldClient s = s.failedClient := by
  unfold heldClient
  split
  next m c hm =>
    rw [hm] at hp
    cases hp
  next => rfl

theorem clientFresh_of_left {p : Phase Code} (hp : p.inLoop = false) : p.clientFresh = false := by
  cases p <;> first | rfl | cases hp

theorem upstreamFresh_of_left {p : Phase Code} (hp : p.inLoop = false) :
    p.upstreamFresh = false := by
  cases p <;> first | rfl | cases hp

/-- Once the loop is left only the failed message counts as held. -/
theorem Inv.of_left {upFresh downFresh : Bool} (hp : s.phase.inLoop = false)
    (hup : RelayFlow (fun m => some (clientToUpstream codes m)) ClientMessage.isClose s.client.sent
      s.readClient (messages s.client.inbox) s.toUpstream
      (s.failedUpstream.map (clientToUpstream codes)) upFresh)
    (hdown : RelayFlow (upstreamToClient codes) UpstreamMessage.isClose s.upstream.sent
      s.readUpstream (messages s.upstream.inbox) s.toClient s.failedClient downFresh) :
    Inv codes s where
  up := by
    rw [heldUpstream_of_left hp, clientFresh_of_left hp]
    exact hup.stop
  down := by
    rw [heldClient_of_left hp, upstreamFresh_of_left hp]
    exact hdown.stop
  failed := fun hin => by
    rw [hp] at hin
    cases hin

theorem Inv.left_up (h : Inv codes s) (hp : s.phase.inLoop = false) :
    RelayFlow (fun m => some (clientToUpstream codes m)) ClientMessage.isClose s.client.sent
      s.readClient (messages s.client.inbox) s.toUpstream
      (s.failedUpstream.map (clientToUpstream codes)) false := by
  have hup := h.up
  rwa [heldUpstream_of_left hp, clientFresh_of_left hp] at hup

theorem Inv.left_down (h : Inv codes s) (hp : s.phase.inLoop = false) :
    RelayFlow (upstreamToClient codes) UpstreamMessage.isClose s.upstream.sent
      s.readUpstream (messages s.upstream.inbox) s.toClient s.failedClient false := by
  have hdown := h.down
  rwa [heldClient_of_left hp, upstreamFresh_of_left hp] at hdown

@[simp] theorem inLoop_leave (r : CloseReason) : (leave r : Phase Code).inLoop = false := by
  cases r <;> rfl

/-- Leaving the loop from the select stops both flows with nothing held. -/
theorem Inv.of_break {upFresh downFresh : Bool} (r : CloseReason) (hp : s.phase = leave r)
    (hfailed : s.failedUpstream = none ∧ s.failedClient = none)
    (hup : RelayFlow (fun m => some (clientToUpstream codes m)) ClientMessage.isClose s.client.sent
      s.readClient (messages s.client.inbox) s.toUpstream none upFresh)
    (hdown : RelayFlow (upstreamToClient codes) UpstreamMessage.isClose s.upstream.sent
      s.readUpstream (messages s.upstream.inbox) s.toClient none downFresh) :
    Inv codes s := by
  have hleft : s.phase.inLoop = false := by
    rw [hp]
    exact inLoop_leave r
  exact .of_left hleft (by rw [hfailed.1]; exact hup) (by rw [hfailed.2]; exact hdown)

/-- After a forwarded message the flow goes on, unless that message was a close. -/
theorem Inv.of_afterSend {upFresh downFresh : Bool} (isClose : Bool) (r : CloseReason)
    (hp : s.phase = afterSend isClose r)
    (hfailed : s.failedUpstream = none ∧ s.failedClient = none)
    (hup : RelayFlow (fun m => some (clientToUpstream codes m)) ClientMessage.isClose s.client.sent
      s.readClient (messages s.client.inbox) s.toUpstream none upFresh)
    (hdown : RelayFlow (upstreamToClient codes) UpstreamMessage.isClose s.upstream.sent
      s.readUpstream (messages s.upstream.inbox) s.toClient none downFresh)
    (hu : isClose = false → upFresh = true) (hd : isClose = false → downFresh = true) :
    Inv codes s := by
  cases isClose with
  | true => exact .of_break r hp hfailed hup hdown
  | false =>
      have hselect : s.phase = .select := hp
      refine ⟨?_, ?_, fun _ => hfailed⟩
      · simpa [heldUpstream, hselect, hfailed.1] using hup.mono fun _ => hu rfl
      · simpa [heldClient, hselect, hfailed.2] using hdown.mono fun _ => hd rfl

end Phases

/-! ### One step, and every run -/

/-- A peer only ever adds one message to what it has sent and to what waits to be
read. -/
theorem Endpoint.act_messages {M : Type} {e e' : Endpoint M} {a : PeerAction M}
    (h : e.act a = some e') :
    (e'.sent = e.sent ∧ messages e'.inbox = messages e.inbox) ∨
      ∃ m, e'.sent = e.sent ++ [m] ∧ messages e'.inbox = messages e.inbox ++ [m] := by
  cases a with
  | sends m =>
      simp only [Endpoint.act, Option.ite_none_left_eq_some] at h
      obtain ⟨-, hs⟩ := h
      obtain rfl := Option.some.inj hs
      exact Or.inr ⟨m, rfl, messages_append _ _⟩
  | errs =>
      simp only [Endpoint.act, Option.ite_none_left_eq_some] at h
      obtain ⟨-, hs⟩ := h
      obtain rfl := Option.some.inj hs
      exact Or.inl ⟨rfl, (messages_append _ _).trans (List.append_nil _)⟩
  | ends =>
      obtain rfl := Option.some.inj h
      exact Or.inl ⟨rfl, rfl⟩
  | reads =>
      simp only [Endpoint.act, Option.ite_none_left_eq_some] at h
      obtain ⟨-, hs⟩ := h
      obtain rfl := Option.some.inj hs
      exact Or.inl ⟨rfl, rfl⟩
  | breaks =>
      obtain rfl := Option.some.inj h
      exact Or.inl ⟨rfl, rfl⟩

theorem inv_step {s s' : State Code} {a : Action Code} (hI : Inv codes s)
    (h : step codes s a = some s') : Inv codes s' := by
  cases step_inv h with
  | client client hact =>
      refine ⟨?_, hI.down, hI.failed⟩
      show RelayFlow _ _ client.sent s.readClient (messages client.inbox) s.toUpstream
        (heldUpstream codes s) s.phase.clientFresh
      rcases Endpoint.act_messages hact with ⟨hsent, hinbox⟩ | ⟨m, hsent, hinbox⟩
      · rw [hsent, hinbox]
        exact hI.up
      · rw [hsent, hinbox]
        exact hI.up.put m
  | upstream upstream hact =>
      refine ⟨hI.up, ?_, hI.failed⟩
      show RelayFlow _ _ upstream.sent s.readUpstream (messages upstream.inbox) s.toClient
        (heldClient s) s.phase.upstreamFresh
      rcases Endpoint.act_messages hact with ⟨hsent, hinbox⟩ | ⟨m, hsent, hinbox⟩
      · rw [hsent, hinbox]
        exact hI.down
      · rw [hsent, hinbox]
        exact hI.down.put m
  | elapse => exact ⟨hI.up, hI.down, hI.failed⟩
  | cancel => exact ⟨hI.up, hI.down, hI.failed⟩
  | readClient m inbox hp hi =>
      have hup := hI.select_up hp
      rw [hi, messages_ok] at hup
      have hfailed := hI.failed (by rw [hp]; rfl)
      refine ⟨hup.take, ?_, fun _ => hfailed⟩
      have hdown := hI.select_down hp
      rwa [← hfailed.2] at hdown
  | clientErrs e inbox hp hi =>
      have hup := hI.select_up hp
      rw [hi, messages_error] at hup
      exact .of_break .clientError rfl (hI.failed (by rw [hp]; rfl)) hup (hI.select_down hp)
  | clientEnds hp hi he =>
      exact .of_break .clientDisconnected rfl (hI.failed (by rw [hp]; rfl)) (hI.select_up hp)
        (hI.select_down hp)
  | readUpstream m inbox hp hi =>
      have hup := hI.select_up hp
      have hdown := hI.select_down hp
      rw [hi, messages_ok] at hdown
      have hfailed := hI.failed (by rw [hp]; rfl)
      cases hm : upstreamToClient codes m with
      | some converted =>
          refine ⟨?_, ?_, fun _ => hfailed⟩
          · simpa [heldUpstream, hm, hfailed.1, Phase.clientFresh] using hup
          · simpa [heldClient, hm, Phase.upstreamFresh] using hdown.take
      | none =>
          have htake := hdown.take
          rw [hm] at htake
          exact .of_afterSend m.isClose .chromiumClosed rfl hfailed hup htake (fun _ => rfl)
            (fun hc => by rw [hc]; rfl)
  | upstreamErrs e inbox hp hi =>
      have hdown := hI.select_down hp
      rw [hi, messages_error] at hdown
      exact .of_break .chromiumError rfl (hI.failed (by rw [hp]; rfl)) (hI.select_up hp) hdown
  | upstreamEnds hp hi he =>
      exact .of_break .chromiumClosed rfl (hI.failed (by rw [hp]; rfl)) (hI.select_up hp)
        (hI.select_down hp)
  | timeout hp he =>
      exact .of_break .sessionTimeout rfl (hI.failed (by rw [hp]; rfl)) (hI.select_up hp)
        (hI.select_down hp)
  | shutdown hp hc =>
      exact .of_break .serverShutdown rfl (hI.failed (by rw [hp]; rfl)) (hI.select_up hp)
        (hI.select_down hp)
  | forwardUpstream m hp ha =>
      exact .of_afterSend m.isClose .clientDisconnected rfl (hI.failed (by rw [hp]; rfl))
        (hI.sendUpstream_up hp).pass (hI.sendUpstream_down hp) (fun hc => by rw [hc]; rfl) (fun _ => rfl)
  | forwardClient m converted hp ha =>
      exact .of_afterSend m.isClose .chromiumClosed rfl (hI.failed (by rw [hp]; rfl))
        (hI.sendClient_up hp) (hI.sendClient_down hp).pass (fun _ => rfl) (fun hc => by rw [hc]; rfl)
  | failUpstream m hp hb =>
      have hfailed := hI.failed (by rw [hp]; rfl)
      have hdown := hI.sendUpstream_down hp
      rw [← hfailed.2] at hdown
      exact .of_left (inLoop_leave .chromiumError) (hI.sendUpstream_up hp) hdown
  | failClient m converted hp hb =>
      have hfailed := hI.failed (by rw [hp]; rfl)
      have hup := hI.sendClient_up hp
      rw [← Option.map_none, ← hfailed.1] at hup
      exact .of_left (inLoop_leave .clientDisconnected) hup (hI.sendClient_down hp)
  | closedClient r hp ha =>
      have hleft : s.phase.inLoop = false := by rw [hp]; rfl
      exact .of_left rfl (hI.left_up hleft) (hI.left_down hleft)
  | closedUpstream r hp ha =>
      have hleft : s.phase.inLoop = false := by rw [hp]; rfl
      exact .of_left rfl (hI.left_up hleft) (hI.left_down hleft)
  | skipClient r hp ha =>
      have hleft : s.phase.inLoop = false := by rw [hp]; rfl
      exact .of_left rfl (hI.left_up hleft) (hI.left_down hleft)
  | skipUpstream r hp ha =>
      have hleft : s.phase.inLoop = false := by rw [hp]; rfl
      exact .of_left rfl (hI.left_up hleft) (hI.left_down hleft)

theorem inv_reachable {clientCapacity upstreamCapacity : Nat} {s : State Code}
    (h : (machine codes).Reachable (init clientCapacity upstreamCapacity) s) : Inv codes s :=
  h.invariant (inv_init _ _) fun _ _ _ hst hI => inv_step hI hst

/-! ## A pair of channels -/

/-- The channel that each direction of the relay implements: of the images of what
a peer has sent, those forwarded are delivered, and leaving the loop cuts it. -/
def channels (codes : CloseCodes Code) (s : State Code) :
    Channel (UpstreamMessage Code) × Channel ClientMessage :=
  (.ofList (s.client.sent.filterMap fun m => some (clientToUpstream codes m))
      s.toUpstream.length !s.phase.inLoop,
    .ofList (s.upstream.sent.filterMap (upstreamToClient codes)) s.toClient.length
      !s.phase.inLoop)

theorem Endpoint.act_sent {M : Type} {e e' : Endpoint M} {a : PeerAction M}
    (h : e.act a = some e') : e.sent <+: e'.sent := by
  rcases Endpoint.act_messages h with ⟨hsent, -⟩ | ⟨m, hsent, -⟩
  · exact hsent ▸ List.prefix_refl _
  · exact hsent ▸ List.prefix_append _ _

theorem Step.sent_prefix {s s' : State Code} {a : Action Code} (h : Step codes s a s') :
    s.client.sent <+: s'.client.sent ∧ s.upstream.sent <+: s'.upstream.sent := by
  cases h with
  | client client hact => exact ⟨Endpoint.act_sent hact, List.prefix_refl _⟩
  | upstream upstream hact => exact ⟨List.prefix_refl _, Endpoint.act_sent hact⟩
  | _ => exact ⟨List.prefix_refl _, List.prefix_refl _⟩

/-- What was forwarded stays forwarded. -/
theorem Step.forwarded_le {s s' : State Code} {a : Action Code} (h : Step codes s a s') :
    s.toUpstream.length ≤ s'.toUpstream.length ∧ s.toClient.length ≤ s'.toClient.length := by
  cases h with
  | forwardUpstream m hp ha => simp
  | forwardClient m converted hp ha => simp
  | _ => exact ⟨Nat.le_refl _, Nat.le_refl _⟩

/-- Nothing is forwarded after the loop, and there is no way back into it. -/
theorem Step.left {s s' : State Code} {a : Action Code} (h : Step codes s a s')
    (hleft : s.phase.inLoop = false) :
    s'.phase.inLoop = false ∧ s'.toUpstream = s.toUpstream ∧ s'.toClient = s.toClient := by
  have hne : ∀ p : Phase Code, p.inLoop = true → s.phase ≠ p := by
    intro p hp hs
    rw [hs, hp] at hleft
    cases hleft
  cases h with
  | client client hact => exact ⟨hleft, rfl, rfl⟩
  | upstream upstream hact => exact ⟨hleft, rfl, rfl⟩
  | elapse => exact ⟨hleft, rfl, rfl⟩
  | cancel => exact ⟨hleft, rfl, rfl⟩
  | closedClient r hp ha => exact ⟨rfl, rfl, rfl⟩
  | closedUpstream r hp ha => exact ⟨rfl, rfl, rfl⟩
  | skipClient r hp ha => exact ⟨rfl, rfl, rfl⟩
  | skipUpstream r hp ha => exact ⟨rfl, rfl, rfl⟩
  | _ => exact absurd ‹s.phase = _› (hne _ rfl)

/-- The relay simulates two channels that know nothing of each other. -/
theorem relay_simulates_channels :
    Machine.Simulates (machine codes) (Machine.both Channel.machine Channel.machine) (Inv codes)
      (channels codes) where
  preserved _ _ _ hst hI := inv_step hI hst
  matched s a s' hst hI := by
    have hI' := inv_step hI hst
    have hs := step_inv hst
    obtain ⟨⟨sent, hsent⟩, ⟨sent', hsent'⟩⟩ := hs.sent_prefix
    obtain ⟨hup, hdown⟩ := hs.forwarded_le
    have hcut (hc : (!s.phase.inLoop) = true) := hs.left (by simpa using hc)
    have hupLe := hI'.up.length_le
    have hdownLe := hI'.down.length_le
    rw [← hsent, List.filterMap_append] at hupLe
    rw [← hsent', List.filterMap_append] at hdownLe
    have hleft := Channel.reachable_ofList (!s.phase.inLoop) (!s'.phase.inLoop) hI.up.length_le
      hup hupLe fun hc => ⟨by rw [(hcut hc).2.1], by rw [(hcut hc).1]; rfl⟩
    have hright := Channel.reachable_ofList (!s.phase.inLoop) (!s'.phase.inLoop)
      hI.down.length_le hdown hdownLe fun hc => ⟨by rw [(hcut hc).2.2], by rw [(hcut hc).1]; rfl⟩
    rw [← List.filterMap_append, hsent] at hleft
    rw [← List.filterMap_append, hsent'] at hright
    exact Machine.both_reachable hleft hright

/-- What the relay owes to one direction: the messages sent are those it has read and,
after them, those that still wait to be read, so that none was thrown away; it reads
nothing after a close; each message read has an image, and the images in order are
what it has forwarded and at most one image that it holds; and a forwarded message
says what the message it came from says. -/
structure Relayed {A B : Type} (f : A → Option B) (wireA : A → Wire) (wireB : B → Wire)
    (closes : A → Bool) (sent read unread : List A) (forwarded : List B) (held : Option B) :
    Prop where
  sent_eq : sent = read ++ unread
  closed : ∀ m ∈ read.dropLast, closes m = false
  forwarded_eq : read.map f = (forwarded ++ held.toList).map some
  wire_eq : read.map wireA = (forwarded ++ held.toList).map wireB

theorem map_eq_map_some {A B : Type} {f : A → Option B} {xs : List A} {ys : List B}
    (h : xs.filterMap f = ys) (hf : ∀ x ∈ xs, (f x).isSome = true) : xs.map f = ys.map some := by
  subst h
  induction xs with
  | nil => rfl
  | cons x xs ih =>
      obtain ⟨y, hy⟩ := Option.isSome_iff_exists.mp (hf x List.mem_cons_self)
      simp [hy, ih fun z hz => hf z (List.mem_cons_of_mem x hz)]

theorem Relayed.of_flow {A B : Type} {f : A → Option B} {wireA : A → Wire} {wireB : B → Wire}
    {closes : A → Bool} {sent read unread : List A} {forwarded : List B} {held : Option B}
    {fresh : Bool} (h : RelayFlow f closes sent read unread forwarded held fresh)
    (hf : ∀ m ∈ sent, (f m).isSome = true) (hwire : ∀ m c, f m = some c → wireB c = wireA m) :
    Relayed f wireA wireB closes sent read unread forwarded held := by
  have hread : read <+: sent := ⟨unread, h.sent_eq.symm⟩
  have heq : read.map f = (forwarded ++ held.toList).map some :=
    map_eq_map_some h.out_eq fun m hm => hf m (hread.subset hm)
  refine ⟨h.sent_eq, h.closed, heq, ?_⟩
  rw [← h.out_eq, List.map_filterMap, ← List.filterMap_eq_map]
  apply List.filterMap_congr
  intro m hm
  obtain ⟨c, hc⟩ := Option.isSome_iff_exists.mp (hf m (hread.subset hm))
  simp [hc, hwire m c hc]

/-- The relay is transparent: in every state that a run reaches, each direction is
relayed in order, once, and without loss: what a peer sent is what was read and what
its socket still holds, and what was read is what was forwarded and at most the last
message read, held while its forwarding is pending and lost when that failed. The round trip of
a client message is the identity, and the state is one of a pair of independent
channels that have delivered what was forwarded. -/
theorem relay_transparent (hcodes : codes.Lossless) {clientCapacity upstreamCapacity : Nat}
    {s : State Code} (h : (machine codes).Reachable (init clientCapacity upstreamCapacity) s)
    (hraw : ∀ m ∈ s.upstream.sent, m.isRaw = false) :
    Relayed (fun m => some (clientToUpstream codes m)) ClientMessage.wire
        (UpstreamMessage.wire codes) ClientMessage.isClose s.client.sent s.readClient
        (messages s.client.inbox) s.toUpstream (heldUpstream codes s) ∧
      Relayed (upstreamToClient codes) (UpstreamMessage.wire codes) ClientMessage.wire
        UpstreamMessage.isClose s.upstream.sent s.readUpstream (messages s.upstream.inbox)
        s.toClient (heldClient s) ∧
      (s.phase.inLoop = false →
        heldUpstream codes s = s.failedUpstream.map (clientToUpstream codes) ∧
          heldClient s = s.failedClient) ∧
      (∀ m, upstreamToClient codes (clientToUpstream codes m) = some m) ∧
      (Machine.both Channel.machine Channel.machine).Reachable (Channel.new, Channel.new)
        (channels codes s) ∧
      (channels codes s).1.received = s.toUpstream ∧
      (channels codes s).2.received = s.toClient := by
  have hI := inv_reachable h
  refine ⟨.of_flow hI.up (fun _ _ => rfl) ?_, .of_flow hI.down ?_ ?_, ?_,
    upstreamToClient_clientToUpstream hcodes, ?_, hI.up.received _, hI.down.received _⟩
  · intro m c hc
    obtain rfl := Option.some.inj hc
    exact wire_clientToUpstream hcodes m
  · intro m hm
    exact upstreamToClient_isSome (hraw m hm)
  · intro m c hc
    exact wire_upstreamToClient hc
  · intro hleft
    exact ⟨heldUpstream_of_left hleft, heldClient_of_left hleft⟩
  · exact relay_simulates_channels.reachable (inv_init clientCapacity upstreamCapacity) h

/-- The client sends a text, which is forwarded, and a ping, which is not read any
more because Chromium closes; the deadline passes while that close is forwarded. -/
def closeRun : List (Action UInt16) :=
  [.client (.sends (.text "hello")), .pollClient, .client (.sends (.ping ByteArray.empty)),
    .upstream (.sends (.close none)), .sendDone, .pollUpstream, .sendDone, .elapse, .sendDone,
    .sendDone]

/-- A run in which both directions carry a message and one message stays unread. -/
theorem relay_transparent_closeRun :
    ∃ s : State UInt16, (machine plainCodes).run (init 2 2) closeRun = some s ∧
      s.phase = .done .chromiumClosed ∧
      s.toUpstream = [clientToUpstream plainCodes (.text "hello")] ∧
      s.client.sent = s.readClient ++ [.ping ByteArray.empty] ∧
      (Machine.both Channel.machine Channel.machine).Reachable (Channel.new, Channel.new)
        (channels plainCodes s) :=
  have hrun : ∃ s : State UInt16, (machine plainCodes).run (init 2 2) closeRun = some s ∧
      s.phase = .done .chromiumClosed ∧
      s.toUpstream = [clientToUpstream plainCodes (.text "hello")] ∧
      messages s.client.inbox = [.ping ByteArray.empty] ∧
      s.upstream.sent = [.close none] := ⟨_, rfl, rfl, rfl, rfl, rfl⟩
  let ⟨s, hs, hphase, hup, hinbox, hsent⟩ := hrun
  have hlossless : plainCodes.Lossless := fun _ => rfl
  have htransparent := relay_transparent hlossless ⟨closeRun, hs⟩
    (fun m hm => by rw [hsent] at hm; obtain rfl := List.mem_singleton.mp hm; rfl)
  ⟨s, hs, hphase, hup, hinbox ▸ htransparent.1.sent_eq, htransparent.2.2.2.2.1⟩

end Pinokio.Proxy
