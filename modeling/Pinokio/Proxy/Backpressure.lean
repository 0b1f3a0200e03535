/-
# Pinokio.Proxy.Backpressure -- what a peer that does not read holds up

The relay awaits a forwarded send before it goes back to its select. While the
receiver does not drain its socket, neither stream is read: not the one whose
messages go to that receiver, and not the receiver's own either. So in no state in
which that happens is a message of the receiver forwarded (`Crossed`), and if the
receiver does not read before it is read, both wait for ever (`circularWait`).
-/
import Pinokio.Proxy.Deadline

namespace Pinokio.Proxy

variable {Code : Type} {codes : CloseCodes Code}

/-! ## A message in the other direction -/

/-- What the peer has sent and the relay reads next, unless its stream failed first. -/
def Endpoint.next {M : Type} (e : Endpoint M) : Option M :=
  match e.inbox with
  | .ok m :: _ => some m
  | _ => none

end Pinokio.Proxy
