/-
# Pinokio.Errors -- the errors a client sees before the WebSocket upgrade

`GatewayError` with its messages and its HTTP status codes (`errors.rs`).
-/
import Mathlib.Tactic.TypeStar

namespace Pinokio

/-- Errors surfaced to clients before the WebSocket upgrade completes. -/
inductive GatewayError where
  | invalidLaunchOptions (reason : String)
  | unauthorized
  | queueFull
  | shuttingDown
  | browserInstalling
  | queueTimeout
  | chromiumStartupTimeout
  | chromiumUnavailable (reason : String)
  deriving DecidableEq, Repr

namespace GatewayError

def message : GatewayError → String
  | invalidLaunchOptions reason => s!"invalid launch options: {reason}"
  | unauthorized => "missing or invalid token"
  | queueFull => "session queue is full"
  | shuttingDown => "server is shutting down"
  | browserInstalling => "browser is still being installed, retry shortly"
  | queueTimeout => "timed out waiting for a session slot"
  | chromiumStartupTimeout => "timed out waiting for Chromium to start"
  | chromiumUnavailable reason => s!"failed to start Chromium: {reason}"

def statusCode : GatewayError → Nat
  | invalidLaunchOptions _ => 400
  | unauthorized => 401
  | queueFull => 429
  | shuttingDown | browserInstalling | chromiumUnavailable _ => 503
  | queueTimeout | chromiumStartupTimeout => 504

end GatewayError

end Pinokio
