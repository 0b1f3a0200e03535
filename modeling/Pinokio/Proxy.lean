/-
# Pinokio.Proxy -- the WebSocket relay (`proxy.rs`)

The two message types with the conversions between them, and `run`: the select
loop that reads a message from one side and awaits its forwarding to the other,
with its timer, its cancellation token and the teardown after it.

The loop is a machine. Its own steps are the arms of the select, the outcome of
an awaited send and the outcomes of the two closing sends; the steps of a peer
are sending a message, ending or failing its stream, reading from its socket and
breaking the connection. A send to a peer completes when that peer's socket has
room and stays pending otherwise: room only comes back when the peer reads.
-/
import Pinokio.Lib.Machine

namespace Pinokio.Proxy

/-! ## Messages -/

/-- A close frame with its status code and its reason. -/
structure CloseFrame (Code : Type) where
  code : Code
  reason : String
  deriving DecidableEq

/-- A message of the client side (`axum`); close codes are plain numbers. A text
payload is valid UTF-8, as a `String` is. -/
inductive ClientMessage where
  | text (payload : String)
  | binary (payload : ByteArray)
  | ping (payload : ByteArray)
  | pong (payload : ByteArray)
  | close (frame : Option (CloseFrame UInt16))

/-- A message of the Chromium side (`tungstenite`), over its type of close codes. -/
inductive UpstreamMessage (Code : Type) where
  | text (payload : String)
  | binary (payload : ByteArray)
  | ping (payload : ByteArray)
  | pong (payload : ByteArray)
  | close (frame : Option (CloseFrame Code))
  | frame (raw : ByteArray)

/-- The conversions between numbers and the close codes of `tungstenite`. -/
structure CloseCodes (Code : Type) where
  ofU16 : UInt16 → Code
  toU16 : Code → UInt16

/-- Every number survives the conversion to a close code and back. -/
def CloseCodes.Lossless {Code : Type} (codes : CloseCodes Code) : Prop :=
  ∀ n, codes.toU16 (codes.ofU16 n) = n

/-- Close codes that are plain numbers. -/
def plainCodes : CloseCodes UInt16 := ⟨id, id⟩

def ClientMessage.isClose : ClientMessage → Bool
  | close _ => true
  | _ => false

def UpstreamMessage.isClose {Code : Type} : UpstreamMessage Code → Bool
  | close _ => true
  | _ => false

/-- A raw frame, which standard read mode never produces. -/
def UpstreamMessage.isRaw {Code : Type} : UpstreamMessage Code → Bool
  | frame _ => true
  | _ => false

/-- `bytes.try_into().unwrap_or_default()` on the bytes of a reason. -/
def reasonOfBytes (bytes : ByteArray) : String := (String.fromUTF8? bytes).getD ""

variable {Code : Type} (codes : CloseCodes Code)

def clientToUpstream : ClientMessage → UpstreamMessage Code
  | .text text =>
    match String.fromUTF8? text.toUTF8 with
    | some utf8 => .text utf8
    | none => .binary text.toUTF8
  | .binary data => .binary data
  | .ping data => .ping data
  | .pong data => .pong data
  | .close frame => .close (frame.map fun f =>
      { code := codes.ofU16 f.code, reason := reasonOfBytes f.reason.toUTF8 })

def upstreamToClient : UpstreamMessage Code → Option ClientMessage
  | .text text => (String.fromUTF8? text.toUTF8).map .text
  | .binary data => some (.binary data)
  | .ping data => some (.ping data)
  | .pong data => some (.pong data)
  | .close frame => some (.close (frame.map fun f =>
      { code := codes.toU16 f.code, reason := reasonOfBytes f.reason.toUTF8 }))
  | .frame _ => none

/-! ## The loop -/

/-- Why the proxy loop ended. -/
inductive CloseReason where
  | clientDisconnected
  | clientError
  | chromiumClosed
  | chromiumError
  | sessionTimeout
  | serverShutdown
  deriving DecidableEq, Repr

def CloseReason.asStr : CloseReason → String
  | clientDisconnected => "client_disconnected"
  | clientError => "client_error"
  | chromiumClosed => "chromium_closed"
  | chromiumError => "chromium_error"
  | sessionTimeout => "session_timeout"
  | serverShutdown => "server_shutdown"

/-- The close code sent to the client; zero means that none is sent. -/
def CloseReason.closeCode : CloseReason → UInt16
  | chromiumClosed => 1000
  | sessionTimeout | serverShutdown => 1001
  | chromiumError => 1011
  | clientDisconnected | clientError => 0

/-- The connection to one peer. `sent` is the history of its messages, `inbox`
what the relay has not read of its stream (a message or a stream error);
`unread` counts the messages sent to it that it has not read, of which its socket
holds `capacity` at most; `broken` says that sends to it fail. -/
structure Endpoint (M : Type) where
  sent : List M
  inbox : List (Except Unit M)
  ended : Bool
  unread : Nat
  capacity : Nat
  broken : Bool

def Endpoint.new {M : Type} (capacity : Nat) : Endpoint M :=
  { sent := [], inbox := [], ended := false, unread := 0, capacity, broken := false }

inductive PeerAction (M : Type) where
  | sends (message : M)
  | errs
  | ends
  | reads
  | breaks

def Endpoint.act {M : Type} (e : Endpoint M) : PeerAction M → Option (Endpoint M)
  | .sends m =>
    if e.ended then none else some { e with sent := e.sent ++ [m], inbox := e.inbox ++ [.ok m] }
  | .errs => if e.ended then none else some { e with inbox := e.inbox ++ [.error ()] }
  | .ends => some { e with ended := true }
  | .reads => if e.unread = 0 then none else some { e with unread := e.unread - 1 }
  | .breaks => some { e with broken := true }

/-- Where `run` is suspended: in the select, in a forwarded send, or in one of
the two closing sends. -/
inductive Phase (Code : Type) where
  | select
  | sendUpstream (message : ClientMessage)
  | sendClient (message : UpstreamMessage Code) (converted : ClientMessage)
  | closeClient (reason : CloseReason)
  | closeUpstream (reason : CloseReason)
  | done (reason : CloseReason)

/-- The state of `run`, with the history of what it read and forwarded, of the
forwarded send that failed, and of the close frame that the teardown sent. -/
structure State (Code : Type) where
  phase : Phase Code
  client : Endpoint ClientMessage
  upstream : Endpoint (UpstreamMessage Code)
  elapsed : Bool
  cancelled : Bool
  readClient : List ClientMessage
  readUpstream : List (UpstreamMessage Code)
  toUpstream : List (UpstreamMessage Code)
  toClient : List ClientMessage
  failedUpstream : Option ClientMessage
  failedClient : Option ClientMessage
  farewell : Option ClientMessage

inductive Action (Code : Type) where
  | client (a : PeerAction ClientMessage)
  | upstream (a : PeerAction (UpstreamMessage Code))
  /-- `session_timeout` elapses. -/
  | elapse
  /-- The session token is cancelled. -/
  | cancel
  | pollClient
  | pollUpstream
  | pollTimeout
  | pollCancel
  /-- The pending send completes. -/
  | sendDone
  /-- The pending send fails. -/
  | sendFails
  /-- The time limit of a closing send. -/
  | sendElapses

/-- A step that only a peer can make. -/
def Action.ofPeer {Code : Type} : Action Code → Bool
  | client _ | upstream _ => true
  | _ => false

/-- The session token is cancelled. -/
def Action.isCancel {Code : Type} : Action Code → Bool
  | cancel => true
  | _ => false

/-- `break reason`: what follows the loop. -/
def leave (reason : CloseReason) : Phase Code :=
  if reason.closeCode ≠ 0 then .closeClient reason else .closeUpstream reason

/-- After a forwarded send: out of the loop when the message was a close. -/
def afterSend (isClose : Bool) (reason : CloseReason) : Phase Code :=
  if isClose then leave reason else .select

/-- The close frame of the teardown. -/
def closeMessage (reason : CloseReason) : ClientMessage :=
  .close (some { code := reason.closeCode, reason := reason.asStr })

/-- A send to the peer completes. -/
def Endpoint.accepts {M : Type} (e : Endpoint M) : Bool := e.unread < e.capacity && !e.broken

def Endpoint.take {M : Type} (e : Endpoint M) : Endpoint M := { e with unread := e.unread + 1 }

def step (s : State Code) : Action Code → Option (State Code)
  | .client a => (s.client.act a).map fun client => { s with client }
  | .upstream a => (s.upstream.act a).map fun upstream => { s with upstream }
  | .elapse => some { s with elapsed := true }
  | .cancel => some { s with cancelled := true }
  | .pollClient =>
    match s.phase, s.client.inbox with
    -- the message is out of the stream before its send is awaited
    | .select, .ok m :: inbox =>
      some { s with
        phase := .sendUpstream m, client := { s.client with inbox },
        readClient := s.readClient ++ [m] }
    | .select, .error _ :: inbox =>
      some { s with phase := leave .clientError, client := { s.client with inbox } }
    | .select, [] =>
      if s.client.ended then some { s with phase := leave .clientDisconnected } else none
    | _, _ => none
  | .pollUpstream =>
    match s.phase, s.upstream.inbox with
    | .select, .ok m :: inbox =>
      some { s with
        phase :=
          match upstreamToClient codes m with
          | some converted => .sendClient m converted
          -- a raw frame has no image: nothing is awaited
          | none => afterSend m.isClose .chromiumClosed
        upstream := { s.upstream with inbox }, readUpstream := s.readUpstream ++ [m] }
    | .select, .error _ :: inbox =>
      some { s with phase := leave .chromiumError, upstream := { s.upstream with inbox } }
    | .select, [] =>
      if s.upstream.ended then some { s with phase := leave .chromiumClosed } else none
    | _, _ => none
  -- the timer and the token are arms of the select and are polled nowhere else
  | .pollTimeout =>
    match s.phase with
    | .select => if s.elapsed then some { s with phase := leave .sessionTimeout } else none
    | _ => none
  | .pollCancel =>
    match s.phase with
    | .select => if s.cancelled then some { s with phase := leave .serverShutdown } else none
    | _ => none
  | .sendDone =>
    match s.phase with
    -- the awaited send of an arm: the loop goes on only when it is over
    | .sendUpstream m =>
      if s.upstream.accepts then
        some { s with
          phase := afterSend m.isClose .clientDisconnected, upstream := s.upstream.take,
          toUpstream := s.toUpstream ++ [clientToUpstream codes m] }
      else none
    | .sendClient m converted =>
      if s.client.accepts then
        some { s with
          phase := afterSend m.isClose .chromiumClosed, client := s.client.take,
          toClient := s.toClient ++ [converted] }
      else none
    | .closeClient reason =>
      if s.client.accepts then
        some { s with
          phase := .closeUpstream reason, client := s.client.take,
          farewell := some (closeMessage reason) }
      else none
    | .closeUpstream reason =>
      if s.upstream.accepts then
        some { s with phase := .done reason, upstream := s.upstream.take }
      else none
    | _ => none
  | .sendFails =>
    match s.phase with
    | .sendUpstream m =>
      if s.upstream.broken then
        some { s with phase := leave .chromiumError, failedUpstream := some m }
      else none
    | .sendClient _ converted =>
      if s.client.broken then
        some { s with phase := leave .clientDisconnected, failedClient := some converted }
      else none
    -- a closing send that fails is not reported
    | .closeClient reason =>
      if s.client.broken then some { s with phase := .closeUpstream reason } else none
    | .closeUpstream reason =>
      if s.upstream.broken then some { s with phase := .done reason } else none
    | _ => none
  | .sendElapses =>
    match s.phase with
    -- only the two closing sends have a limit of their own
    | .closeClient reason => some { s with phase := .closeUpstream reason }
    | .closeUpstream reason => some { s with phase := .done reason }
    | _ => none

def machine : Machine (State Code) (Action Code) := ⟨step codes⟩

/-- `run` at its first poll, with the capacities of the two sockets. -/
def init (clientCapacity upstreamCapacity : Nat) : State Code where
  phase := .select
  client := .new clientCapacity
  upstream := .new upstreamCapacity
  elapsed := false
  cancelled := false
  readClient := []
  readUpstream := []
  toUpstream := []
  toClient := []
  failedUpstream := none
  failedClient := none
  farewell := none

/-- The reason with which the loop was left. -/
def Phase.reason : Phase Code → Option CloseReason
  | closeClient r | closeUpstream r | done r => some r
  | _ => none

/-- The loop has not been left. -/
def Phase.inLoop (p : Phase Code) : Bool := p.reason.isNone

/-! ## Everything one step can do -/

inductive Step (s : State Code) : Action Code → State Code → Prop
  | client {a} (client) (h : s.client.act a = some client) :
      Step s (.client a) { s with client }
  | upstream {a} (upstream) (h : s.upstream.act a = some upstream) :
      Step s (.upstream a) { s with upstream }
  | elapse : Step s .elapse { s with elapsed := true }
  | cancel : Step s .cancel { s with cancelled := true }
  | readClient (m inbox) (hp : s.phase = .select) (hi : s.client.inbox = .ok m :: inbox) :
      Step s .pollClient
        { s with
          phase := .sendUpstream m, client := { s.client with inbox },
          readClient := s.readClient ++ [m] }
  | clientErrs (e inbox) (hp : s.phase = .select) (hi : s.client.inbox = .error e :: inbox) :
      Step s .pollClient { s with phase := leave .clientError, client := { s.client with inbox } }
  | clientEnds (hp : s.phase = .select) (hi : s.client.inbox = []) (he : s.client.ended = true) :
      Step s .pollClient { s with phase := leave .clientDisconnected }
  | readUpstream (m inbox) (hp : s.phase = .select) (hi : s.upstream.inbox = .ok m :: inbox) :
      Step s .pollUpstream
        { s with
          phase :=
            match upstreamToClient codes m with
            | some converted => .sendClient m converted
            | none => afterSend m.isClose .chromiumClosed
          upstream := { s.upstream with inbox }, readUpstream := s.readUpstream ++ [m] }
  | upstreamErrs (e inbox) (hp : s.phase = .select) (hi : s.upstream.inbox = .error e :: inbox) :
      Step s .pollUpstream
        { s with phase := leave .chromiumError, upstream := { s.upstream with inbox } }
  | upstreamEnds (hp : s.phase = .select) (hi : s.upstream.inbox = [])
      (he : s.upstream.ended = true) :
      Step s .pollUpstream { s with phase := leave .chromiumClosed }
  | timeout (hp : s.phase = .select) (he : s.elapsed = true) :
      Step s .pollTimeout { s with phase := leave .sessionTimeout }
  | shutdown (hp : s.phase = .select) (hc : s.cancelled = true) :
      Step s .pollCancel { s with phase := leave .serverShutdown }
  | forwardUpstream (m) (hp : s.phase = .sendUpstream m) (ha : s.upstream.accepts = true) :
      Step s .sendDone
        { s with
          phase := afterSend m.isClose .clientDisconnected, upstream := s.upstream.take,
          toUpstream := s.toUpstream ++ [clientToUpstream codes m] }
  | forwardClient (m converted) (hp : s.phase = .sendClient m converted)
      (ha : s.client.accepts = true) :
      Step s .sendDone
        { s with
          phase := afterSend m.isClose .chromiumClosed, client := s.client.take,
          toClient := s.toClient ++ [converted] }
  | failUpstream (m) (hp : s.phase = .sendUpstream m) (hb : s.upstream.broken = true) :
      Step s .sendFails { s with phase := leave .chromiumError, failedUpstream := some m }
  | failClient (m converted) (hp : s.phase = .sendClient m converted)
      (hb : s.client.broken = true) :
      Step s .sendFails
        { s with phase := leave .clientDisconnected, failedClient := some converted }
  | closedClient (r) (hp : s.phase = .closeClient r) (ha : s.client.accepts = true) :
      Step s .sendDone
        { s with
          phase := .closeUpstream r, client := s.client.take,
          farewell := some (closeMessage r) }
  | closedUpstream (r) (hp : s.phase = .closeUpstream r) (ha : s.upstream.accepts = true) :
      Step s .sendDone { s with phase := .done r, upstream := s.upstream.take }
  | skipClient {a} (r) (hp : s.phase = .closeClient r) (ha : a = .sendFails ∨ a = .sendElapses) :
      Step s a { s with phase := .closeUpstream r }
  | skipUpstream {a} (r) (hp : s.phase = .closeUpstream r)
      (ha : a = .sendFails ∨ a = .sendElapses) :
      Step s a { s with phase := .done r }

theorem step_inv {codes : CloseCodes Code} {s s' : State Code} {a : Action Code}
    (h : step codes s a = some s') : Step codes s a s' := by
  cases a with
  | client a =>
      obtain ⟨client, hact, rfl⟩ := Option.map_eq_some_iff.mp h
      exact .client client hact
  | upstream a =>
      obtain ⟨upstream, hact, rfl⟩ := Option.map_eq_some_iff.mp h
      exact .upstream upstream hact
  | elapse =>
      obtain rfl := Option.some.inj h
      exact .elapse
  | cancel =>
      obtain rfl := Option.some.inj h
      exact .cancel
  | pollClient =>
      simp only [step] at h
      split at h
      next m inbox hp hi =>
        obtain rfl := Option.some.inj h
        exact .readClient m inbox hp hi
      next e inbox hp hi =>
        obtain rfl := Option.some.inj h
        exact .clientErrs e inbox hp hi
      next hp hi =>
        obtain ⟨he, hs⟩ := Option.ite_none_right_eq_some.mp h
        obtain rfl := Option.some.inj hs
        exact .clientEnds hp hi he
      next => cases h
  | pollUpstream =>
      simp only [step] at h
      split at h
      next m inbox hp hi =>
        obtain rfl := Option.some.inj h
        exact .readUpstream m inbox hp hi
      next e inbox hp hi =>
        obtain rfl := Option.some.inj h
        exact .upstreamErrs e inbox hp hi
      next hp hi =>
        obtain ⟨he, hs⟩ := Option.ite_none_right_eq_some.mp h
        obtain rfl := Option.some.inj hs
        exact .upstreamEnds hp hi he
      next => cases h
  | pollTimeout =>
      simp only [step] at h
      split at h
      next hp =>
        obtain ⟨he, hs⟩ := Option.ite_none_right_eq_some.mp h
        obtain rfl := Option.some.inj hs
        exact .timeout hp he
      next => cases h
  | pollCancel =>
      simp only [step] at h
      split at h
      next hp =>
        obtain ⟨hc, hs⟩ := Option.ite_none_right_eq_some.mp h
        obtain rfl := Option.some.inj hs
        exact .shutdown hp hc
      next => cases h
  | sendDone =>
      simp only [step] at h
      split at h
      next m hp =>
        obtain ⟨ha, hs⟩ := Option.ite_none_right_eq_some.mp h
        obtain rfl := Option.some.inj hs
        exact .forwardUpstream m hp ha
      next m converted hp =>
        obtain ⟨ha, hs⟩ := Option.ite_none_right_eq_some.mp h
        obtain rfl := Option.some.inj hs
        exact .forwardClient m converted hp ha
      next r hp =>
        obtain ⟨ha, hs⟩ := Option.ite_none_right_eq_some.mp h
        obtain rfl := Option.some.inj hs
        exact .closedClient r hp ha
      next r hp =>
        obtain ⟨ha, hs⟩ := Option.ite_none_right_eq_some.mp h
        obtain rfl := Option.some.inj hs
        exact .closedUpstream r hp ha
      next => cases h
  | sendFails =>
      simp only [step] at h
      split at h
      next m hp =>
        obtain ⟨hb, hs⟩ := Option.ite_none_right_eq_some.mp h
        obtain rfl := Option.some.inj hs
        exact .failUpstream m hp hb
      next m converted hp =>
        obtain ⟨hb, hs⟩ := Option.ite_none_right_eq_some.mp h
        obtain rfl := Option.some.inj hs
        exact .failClient m converted hp hb
      next r hp =>
        obtain ⟨-, hs⟩ := Option.ite_none_right_eq_some.mp h
        obtain rfl := Option.some.inj hs
        exact .skipClient r hp (Or.inl rfl)
      next r hp =>
        obtain ⟨-, hs⟩ := Option.ite_none_right_eq_some.mp h
        obtain rfl := Option.some.inj hs
        exact .skipUpstream r hp (Or.inl rfl)
      next => cases h
  | sendElapses =>
      simp only [step] at h
      split at h
      next r hp =>
        obtain rfl := Option.some.inj h
        exact .skipClient r hp (Or.inr rfl)
      next r hp =>
        obtain rfl := Option.some.inj h
        exact .skipUpstream r hp (Or.inr rfl)
      next => cases h

end Pinokio.Proxy
