/-
# Pinokio.Proxy.CloseCode -- the close frame a client sees

Two paths send close frames to the client: the relay forwards a close of Chromium
as it forwards everything else, and the teardown sends one whose code tells why the
loop ended. The first path ends the loop, with `chromiumClosed`; so for every other
reason the client sees the code of that reason first, and for `chromiumClosed` it
sees Chromium's own close when there was one.
-/
import Pinokio.Proxy.Transparency

namespace Pinokio.Proxy

variable {Code : Type} {codes : CloseCodes Code}

/-- The content of a close frame. -/
def ClientMessage.closeFrame : ClientMessage → Option (Option (CloseFrame UInt16))
  | close frame => some frame
  | _ => none

/-- Everything the relay has sent to the client, in order. -/
def State.framesToClient (s : State Code) : List ClientMessage :=
  s.toClient ++ s.farewell.toList

/-- The first close frame sent to the client. -/
def State.firstClose (s : State Code) : Option (Option (CloseFrame UInt16)) :=
  s.framesToClient.findSome? ClientMessage.closeFrame

/-- The close frame that the client gets for a close of Chromium. -/
def closeImage (codes : CloseCodes Code) (frame : Option (CloseFrame Code)) :
    Option (CloseFrame UInt16) :=
  frame.map fun f => { code := codes.toU16 f.code, reason := f.reason }

/-- The last message read from Chromium was this close. -/
def State.ChromiumClosedWith (s : State Code) (frame : Option (CloseFrame Code)) : Prop :=
  s.readUpstream.getLast? = some (.close frame)

/-- No close frame is among the messages. -/
def NoClose (messages : List ClientMessage) : Prop := ∀ c ∈ messages, c.closeFrame = none

/-! ## What has been sent -/

theorem noClose_append {xs : List ClientMessage} {c : ClientMessage} (h : NoClose xs)
    (hc : c.closeFrame = none) : NoClose (xs ++ [c]) := by
  intro d hd
  rcases List.mem_append.mp hd with hd | hd
  · exact h d hd
  · obtain rfl := List.mem_singleton.mp hd
    exact hc

theorem findSome?_of_noClose {xs ys : List ClientMessage} (h : NoClose xs) :
    (xs ++ ys).findSome? ClientMessage.closeFrame = ys.findSome? ClientMessage.closeFrame := by
  rw [List.findSome?_append, List.findSome?_eq_none_iff.mpr h]
  rfl

/-- A message that is no close does not become one. -/
theorem closeFrame_of_not_close {m : UpstreamMessage Code} {c : ClientMessage}
    (h : upstreamToClient codes m = some c) (hm : m.isClose = false) : c.closeFrame = none := by
  cases m with
  | text s =>
      rw [upstreamToClient_text] at h
      obtain rfl := Option.some.inj h
      rfl
  | close frame => cases hm
  | frame raw => cases h
  | _ =>
      obtain rfl := Option.some.inj h
      rfl

/-- A close becomes the close that the client gets for it. -/
theorem closeFrame_of_close {m : UpstreamMessage Code} {c : ClientMessage}
    (h : upstreamToClient codes m = some c) (hm : m.isClose = true) :
    ∃ frame, m = .close frame ∧ c = .close (closeImage codes frame) := by
  cases m with
  | close frame =>
      rw [upstreamToClient_close] at h
      exact ⟨frame, rfl, (Option.some.inj h).symm⟩
  | _ => cases hm

/-- How the loop was left: without a close on the way to the client, or with a close of
Chromium as the last message forwarded. -/
def LeftWith (codes : CloseCodes Code) (s : State Code) (r : CloseReason) : Prop :=
  NoClose s.toClient ∨
    (r = .chromiumClosed ∧ ∃ frame before, s.ChromiumClosedWith frame ∧ NoClose before ∧
      s.toClient = before ++ [.close (closeImage codes frame)])

/-- What the client has been sent, phase by phase. -/
def CloseAccount (codes : CloseCodes Code) (s : State Code) : Prop :=
  match s.phase with
  | .select | .sendUpstream _ => NoClose s.toClient ∧ s.farewell = none
  | .sendClient m c =>
    NoClose s.toClient ∧ s.farewell = none ∧ s.readUpstream.getLast? = some m ∧
      upstreamToClient codes m = some c
  | .closeClient r => LeftWith codes s r ∧ s.farewell = none
  | .closeUpstream r | .done r =>
    LeftWith codes s r ∧ (s.farewell = none ∨ s.farewell = some (closeMessage r))

theorem closeAccount_leave {s : State Code} {r : CloseReason} (hp : s.phase = leave r)
    (hleft : LeftWith codes s r) (hf : s.farewell = none) : CloseAccount codes s := by
  by_cases hcode : r.closeCode ≠ 0
  · have hclient : s.phase = .closeClient r := by rw [hp, leave, if_pos hcode]
    rw [CloseAccount, hclient]
    exact ⟨hleft, hf⟩
  · have hupstream : s.phase = .closeUpstream r := by rw [hp, leave, if_neg hcode]
    rw [CloseAccount, hupstream]
    exact ⟨hleft, Or.inl hf⟩

theorem closeAccount_afterSend {s : State Code} (isClose : Bool) (r : CloseReason)
    (hp : s.phase = afterSend isClose r) (hleft : isClose = true → LeftWith codes s r)
    (hgo : isClose = false → NoClose s.toClient) (hf : s.farewell = none) :
    CloseAccount codes s := by
  cases isClose with
  | true => exact closeAccount_leave hp (hleft rfl) hf
  | false =>
      have hselect : s.phase = .select := hp
      rw [CloseAccount, hselect]
      exact ⟨hgo rfl, hf⟩

theorem closeAccount_select {s : State Code} (h : CloseAccount codes s) (hp : s.phase = .select) :
    NoClose s.toClient ∧ s.farewell = none := by
  rwa [CloseAccount, hp] at h

theorem closeAccount_step {s s' : State Code} {a : Action Code} (h : step codes s a = some s')
    (hc : CloseAccount codes s) : CloseAccount codes s' := by
  cases step_inv h with
  | client client hact => exact hc
  | upstream upstream hact => exact hc
  | elapse => exact hc
  | cancel => exact hc
  | readClient m inbox hp hi =>
      obtain ⟨hno, hf⟩ := closeAccount_select hc hp
      exact ⟨hno, hf⟩
  | clientErrs e inbox hp hi =>
      obtain ⟨hno, hf⟩ := closeAccount_select hc hp
      exact closeAccount_leave (r := .clientError) rfl (Or.inl hno) hf
  | clientEnds hp hi he =>
      obtain ⟨hno, hf⟩ := closeAccount_select hc hp
      exact closeAccount_leave (r := .clientDisconnected) rfl (Or.inl hno) hf
  | readUpstream m inbox hp hi =>
      obtain ⟨hno, hf⟩ := closeAccount_select hc hp
      cases hm : upstreamToClient codes m with
      | some c =>
          simp only [CloseAccount]
          exact ⟨hno, hf, by simp, hm⟩
      | none =>
          exact closeAccount_afterSend m.isClose .chromiumClosed (by simp)
            (fun _ => Or.inl hno) (fun _ => hno) hf
  | upstreamErrs e inbox hp hi =>
      obtain ⟨hno, hf⟩ := closeAccount_select hc hp
      exact closeAccount_leave (r := .chromiumError) rfl (Or.inl hno) hf
  | upstreamEnds hp hi he =>
      obtain ⟨hno, hf⟩ := closeAccount_select hc hp
      exact closeAccount_leave (r := .chromiumClosed) rfl (Or.inl hno) hf
  | timeout hp he =>
      obtain ⟨hno, hf⟩ := closeAccount_select hc hp
      exact closeAccount_leave (r := .sessionTimeout) rfl (Or.inl hno) hf
  | shutdown hp hcancel =>
      obtain ⟨hno, hf⟩ := closeAccount_select hc hp
      exact closeAccount_leave (r := .serverShutdown) rfl (Or.inl hno) hf
  | forwardUpstream m hp ha =>
      rw [CloseAccount, hp] at hc
      exact closeAccount_afterSend m.isClose .clientDisconnected rfl (fun _ => Or.inl hc.1)
        (fun _ => hc.1) hc.2
  | forwardClient m c hp ha =>
      rw [CloseAccount, hp] at hc
      obtain ⟨hno, hf, hlast, himage⟩ := hc
      refine closeAccount_afterSend m.isClose .chromiumClosed rfl (fun hclose => ?_)
        (fun hclose => ?_) hf
      -- the close that ends the loop is the last thing forwarded
      · obtain ⟨frame, rfl, rfl⟩ := closeFrame_of_close himage hclose
        exact Or.inr ⟨rfl, frame, s.toClient, hlast, hno, rfl⟩
      · exact noClose_append hno (closeFrame_of_not_close himage hclose)
  | failUpstream m hp hb =>
      rw [CloseAccount, hp] at hc
      exact closeAccount_leave (r := .chromiumError) rfl (Or.inl hc.1) hc.2
  | failClient m c hp hb =>
      rw [CloseAccount, hp] at hc
      exact closeAccount_leave (r := .clientDisconnected) rfl (Or.inl hc.1) hc.2.1
  | closedClient r hp ha =>
      rw [CloseAccount, hp] at hc
      exact ⟨hc.1, Or.inr rfl⟩
  | closedUpstream r hp ha =>
      rw [CloseAccount, hp] at hc
      exact hc
  | skipClient r hp ha =>
      rw [CloseAccount, hp] at hc
      exact ⟨hc.1, Or.inl hc.2⟩
  | skipUpstream r hp ha =>
      rw [CloseAccount, hp] at hc
      exact hc

theorem closeAccount_run {clientCapacity upstreamCapacity : Nat} {as : List (Action Code)}
    {s : State Code}
    (hrun : (machine codes).run (init clientCapacity upstreamCapacity) as = some s) :
    CloseAccount codes s :=
  Machine.run_invariant (I := CloseAccount codes) (fun _ _ _ hst hc => closeAccount_step hst hc)
    hrun ⟨(fun _ hc => by cases hc), rfl⟩

/-- What the first close tells the client. For every run that returns a reason with a
close code of its own, the first close frame sent to the client, if one is sent, is
the one of the teardown, with the code and the name of that reason; or the reason is
`chromiumClosed` and it is, unchanged, the close that Chromium itself sent. So a
client that sees 1001 knows that the session timed out or the server shuts down,
unless Chromium closed with 1001. -/
theorem first_close {clientCapacity upstreamCapacity : Nat} {as : List (Action Code)}
    {s : State Code} {r : CloseReason}
    (hrun : (machine codes).run (init clientCapacity upstreamCapacity) as = some s)
    (hdone : s.phase = .done r) (hcode : r.closeCode ≠ 0)
    {frame : Option (CloseFrame UInt16)} (hframe : s.firstClose = some frame) :
    (frame = some { code := r.closeCode, reason := r.asStr } ∨
      (r = .chromiumClosed ∧ ∃ own, s.ChromiumClosedWith own ∧ frame = closeImage codes own)) ∧
    (frame.map CloseFrame.code = some 1001 →
      r = .sessionTimeout ∨ r = .serverShutdown ∨
        ∃ own, s.ChromiumClosedWith own ∧ (closeImage codes own).map CloseFrame.code = some 1001) := by
  have hsent : frame = some { code := r.closeCode, reason := r.asStr } ∨
      (r = .chromiumClosed ∧ ∃ own, s.ChromiumClosedWith own ∧ frame = closeImage codes own) := by
    have haccount := closeAccount_run hrun
    rw [CloseAccount, hdone] at haccount
    obtain ⟨hleft, hfarewell⟩ := haccount
    rw [State.firstClose, State.framesToClient] at hframe
    rcases hleft with hno | ⟨hr, own, before, hown, hno, hsent⟩
    -- nothing but the farewell of the teardown can be a close
    · rw [findSome?_of_noClose hno] at hframe
      rcases hfarewell with hnone | hsome
      · rw [hnone] at hframe
        cases hframe
      · rw [hsome] at hframe
        exact Or.inl (Option.some.inj hframe).symm
    · rw [hsent, List.append_assoc, findSome?_of_noClose hno] at hframe
      exact Or.inr ⟨hr, own, hown, (Option.some.inj hframe).symm⟩
  refine ⟨hsent, fun h1001 => ?_⟩
  rcases hsent with rfl | ⟨-, own, hown, rfl⟩
  · have hcode : r.closeCode = 1001 := Option.some.inj h1001
    cases r with
    | sessionTimeout => exact Or.inl rfl
    | serverShutdown => exact Or.inr (Or.inl rfl)
    | _ => exact absurd hcode (by decide)
  · exact Or.inr (Or.inr ⟨own, hown, h1001⟩)

/-- The session times out. -/
def timeoutRun : List (Action UInt16) := [.elapse, .pollTimeout, .sendDone, .sendDone]

theorem first_close_timeoutRun :
    ∃ (s : State UInt16) (frame : Option (CloseFrame UInt16)),
      (machine plainCodes).run (init 1 1) timeoutRun = some s ∧ s.firstClose = some frame ∧
      frame = some { code := 1001, reason := "session_timeout" } := by
  have hrun : ∃ (s : State UInt16) (frame : Option (CloseFrame UInt16)),
      (machine plainCodes).run (init 1 1) timeoutRun = some s ∧
      s.phase = .done .sessionTimeout ∧ s.firstClose = some frame := ⟨_, _, rfl, rfl, rfl⟩
  obtain ⟨s, frame, hs, hdone, hfirst⟩ := hrun
  refine ⟨s, frame, hs, hfirst, ?_⟩
  rcases (first_close hs hdone (by decide) hfirst).1 with hframe | ⟨hclosed, -⟩
  · exact hframe
  · cases hclosed

/-- Chromium closes with "going away" of its own. -/
def goingAwayRun : List (Action UInt16) :=
  [.upstream (.sends (.close (some { code := 1001, reason := "" }))), .pollUpstream, .sendDone,
    .sendElapses, .sendDone]

/-- The client sees that code, and the reason of the session is `chromiumClosed`. -/
theorem first_close_goingAwayRun :
    ∃ s : State UInt16, (machine plainCodes).run (init 1 1) goingAwayRun = some s ∧
      s.phase = .done .chromiumClosed ∧ CloseReason.closeCode .chromiumClosed = 1000 ∧
      s.firstClose = some (some { code := 1001, reason := "" }) :=
  ⟨_, rfl, rfl, rfl, rfl⟩

end Pinokio.Proxy
