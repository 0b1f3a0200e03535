/-
# Pinokio.Chromium.Lifecycle -- one Chromium, from its spawn to its teardown (`chromium.rs`)

A spawned Chromium with the resources that its session owes back: the child
process, its process group and its user data dir. `startupStep` is the loop of
`wait_for_devtools_endpoint`, `shutdownStep` is `Chromium::shutdown`, both in steps
between which the owner may be suspended, and `dropped` is what the destructors
of the owner do when it is dropped there instead.

The parent sees its child running, exited (a zombie), or reaped; `wait` completes
when it reaps an exited child. A `killpg` reaches every process of the group, the
kill of `kill_on_drop` reaches the leader only.
-/
import Pinokio.Errors

namespace Pinokio

/-- The child process as its parent sees it. -/
inductive Child where
  | running
  | exited
  | reaped
  deriving DecidableEq, Repr

inductive Signal where
  | sigterm
  | sigkill
  deriving DecidableEq, Repr

/-- A spawned Chromium. `groupSignals` are the signals sent to its group so far and
`leaderKilled` says that `kill_on_drop` has killed its leader; `userDataDir` says
that the temp dir exists, and `teardowns` counts the shutdowns that ran to their end. -/
structure Chromium where
  child : Child
  groupSignals : List Signal
  leaderKilled : Bool
  userDataDir : Bool
  teardowns : Nat
  deriving DecidableEq, Repr

namespace Chromium

/-- Right after `command.spawn()`. -/
def spawned : Chromium :=
  { child := .running, groupSignals := [], leaderKilled := false, userDataDir := true,
    teardowns := 0 }

def killpg (p : Chromium) (signal : Signal) : Chromium :=
  { p with groupSignals := p.groupSignals ++ [signal] }

/-- `try_wait` or `wait` on a child that is not running any more. -/
def reap (p : Chromium) : Chromium := { p with child := .reaped }

/-- The process ends, by itself or by a signal. -/
def exits (p : Chromium) : Option Chromium :=
  if p.child = .running then some { p with child := .exited } else none

/-- The destructors of the `Child` and of the `TempDir`: a child that was not reaped
is killed, alone, and the directory is removed. -/
def dropped (p : Chromium) : Chromium :=
  { p with leaderKilled := p.leaderKilled || p.child ≠ .reaped, userDataDir := false }

/-- Its group was killed and its child reaped. -/
def isDown (p : Chromium) : Bool := p.child = .reaped && .sigkill ∈ p.groupSignals

/-- It went through the whole teardown, once. -/
def tornDown (p : Chromium) : Bool := p.isDown && !p.userDataDir && p.teardowns = 1

end Chromium

/-! ## `wait_for_devtools_endpoint` -/

/-- Where the polling loop is. It is suspended while it reads the port file and
while it sleeps. -/
inductive Startup where
  | tryWait
  | readPort
  | checkDeadline
  | sleep
  | ready
  | failed (error : GatewayError)
  deriving DecidableEq, Repr

inductive StartupAction where
  /-- `try_wait`, with the text of the exit status if there is one. -/
  | tryWait (status : String)
  | tryWaitFails (error : String)
  /-- The port file has been read; it may hold an endpoint. -/
  | readPort (endpoint : Bool)
  | checkDeadline
  | wake
  deriving DecidableEq, Repr

def startupStep (elapsed : Bool) (p : Chromium) :
    Startup → StartupAction → Option (Chromium × Startup)
  -- `try_wait` reaps a child that has exited
  | .tryWait, .tryWait status =>
    if p.child = .running then some (p, .readPort)
    else some (p.reap, .failed (.chromiumUnavailable s!"chromium exited during startup with {status}"))
  | .tryWait, .tryWaitFails error =>
    some (p, .failed (.chromiumUnavailable s!"wait failed: {error}"))
  | .readPort, .readPort endpoint => some (p, if endpoint then .ready else .checkDeadline)
  | .checkDeadline, .checkDeadline =>
    some (p, if elapsed then .failed .chromiumStartupTimeout else .sleep)
  | .sleep, .wake => some (p, .tryWait)
  | _, _ => none

/-- The loop does nothing to the Chromium but reap it when it has exited. -/
theorem startupStep_chromium {elapsed : Bool} {p p' : Chromium} {startup startup' : Startup}
    {a : StartupAction} (h : startupStep elapsed p startup a = some (p', startup')) :
    p' = p ∨ (p.child ≠ .running ∧ p' = p.reap) := by
  unfold startupStep at h
  split at h
  case h_1 =>
    split at h
    next =>
      obtain ⟨rfl, -⟩ := Prod.mk.inj (Option.some.inj h)
      exact Or.inl rfl
    next hne =>
      obtain ⟨rfl, -⟩ := Prod.mk.inj (Option.some.inj h)
      exact Or.inr ⟨hne, rfl⟩
  case h_6 => cases h
  all_goals
    obtain ⟨rfl, -⟩ := Prod.mk.inj (Option.some.inj h)
    exact Or.inl rfl

/-- The places where the future of the loop can be dropped. -/
def Startup.suspended : Startup → Bool
  | readPort | sleep => true
  | _ => false

/-! ## `Chromium::shutdown` -/

/-- Where a shutdown is. It is suspended while it waits for the child: for at most
the grace period after SIGTERM, and without a limit after SIGKILL. -/
inductive Shutdown where
  | tryWait
  | graceWait
  | killWait
  | sweep
  | removeDir
  | finished
  deriving DecidableEq, Repr

inductive ShutdownAction where
  /-- Up to the first await: `try_wait`, and SIGTERM to the group of a running child. -/
  | tryWait
  /-- The awaited `wait` completes. -/
  | reaped
  /-- `SIGTERM_GRACE` elapses; the group is sent SIGKILL. -/
  | elapse
  /-- The sweep for stragglers. -/
  | sweep
  | removeDir
  deriving DecidableEq, Repr

def shutdownStep (p : Chromium) : Shutdown → ShutdownAction → Option (Chromium × Shutdown)
  | .tryWait, .tryWait =>
    -- without its directory it was shut down before
    if !p.userDataDir then some (p, .finished)
    else if p.child = .running then some (p.killpg .sigterm, .graceWait)
    else some (p.reap, .sweep)
  | .graceWait, .reaped => if p.child = .running then none else some (p.reap, .sweep)
  -- the wait is taken up again, now without a limit
  | .graceWait, .elapse => some (p.killpg .sigkill, .killWait)
  | .killWait, .reaped => if p.child = .running then none else some (p.reap, .sweep)
  | .sweep, .sweep => some (p.killpg .sigkill, .removeDir)
  | .removeDir, .removeDir =>
    some ({ p with userDataDir := false, teardowns := p.teardowns + 1 }, .finished)
  | _, _ => none

/-- The places where the future of a shutdown can be dropped. -/
def Shutdown.suspended : Shutdown → Bool
  | graceWait | killWait => true
  | _ => false

end Pinokio
