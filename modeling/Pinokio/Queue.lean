/-
# Pinokio.Queue -- the concurrency gate (`queue.rs`)

`Gate::acquire` as the sequence of its atomic steps on the two shared objects it
touches, the semaphore and the `queued` counter, and the machine that interleaves
any number of such calls with the ends of the sessions they admit. The points at
which a call can be suspended are the places where its future can be dropped;
what its destructors then do is part of the call.

The semaphore is the library one: parked tasks are served in the order in which
they parked, a released permit goes to the oldest of them, and `try_acquire`
succeeds exactly when a permit is available.
-/
import Pinokio.Errors
import Pinokio.Lib.Pool
import Pinokio.Lib.Semaphore

namespace Pinokio.Gate

/-- `max_sessions` and `max_queue` as given to `Gate::new`; the queue limit is a
`usize`, like the counter compared with it. -/
structure Limits where
  maxSessions : Nat
  maxQueue : Nat
  maxQueue_lt : maxQueue < 2 ^ 64

/-- The shared state of the gate, and the shutdown token its calls listen to. -/
structure Shared where
  semaphore : Semaphore Nat
  queued : Nat
  cancelled : Bool
  deriving DecidableEq, Repr

/-- `Gate::new`, with a token that is not cancelled yet. -/
def Shared.new (limits : Limits) : Shared :=
  { semaphore := .new limits.maxSessions, queued := 0, cancelled := false }

/-- `fetch_add` of one on an `AtomicUsize`, as the compare-exchange writes it. -/
def incr (n : Nat) : Nat := (n + 1) % 2 ^ 64

/-- `fetch_sub` of one on an `AtomicUsize`; it wraps at zero. -/
def decr (n : Nat) : Nat := if n = 0 then 2 ^ 64 - 1 else n - 1

/-- `Gate::active_sessions`, with its saturating subtraction. -/
def activeSessions (limits : Limits) (g : Shared) : Nat := limits.maxSessions - g.semaphore.permits

def queuedSessions (g : Shared) : Nat := g.queued

/-- `Gate::has_capacity`. -/
def hasCapacity (limits : Limits) (g : Shared) : Bool :=
  0 < g.semaphore.permits || queuedSessions g < limits.maxQueue

/-- How a call leaves its `select!`. -/
inductive Outcome where
  | acquired
  | queueTimeout
  | shuttingDown
  | dropped
  deriving DecidableEq, Repr

/-- Where one call of `Gate::acquire` is. From `select` on, its `_slot` is live
until `dropSlot` has been left; `holding` is the caller's life with the permit. -/
inductive Call where
  /-- The request exists but has not called `acquire`. -/
  | idle
  | tryAcquire
  | load
  | compareExchange (current : Nat)
  /-- In the `select!`, with the queue timer elapsed or not. -/
  | select (elapsed : Bool)
  /-- The `select!` is over; its branch futures are still to be dropped. -/
  | unwind (outcome : Outcome)
  /-- The branch futures are dropped; `_slot` is still to be dropped. -/
  | dropSlot (outcome : Outcome)
  | holding
  | returned (error : GatewayError)
  | dropped
  /-- The permit was dropped by its owner. -/
  | released
  deriving DecidableEq, Repr

inductive CallAction where
  | start
  | tryAcquire
  | load
  | compareExchange (spurious : Bool)
  /-- The queue timer elapses. -/
  | elapse
  | pollPermit
  | pollSleep
  | pollShutdown
  /-- The caller drops the future of the call. -/
  | drop
  | dropFutures
  | dropSlot
  | dropPermit
  deriving DecidableEq, Repr

/-- The head of the compare-exchange loop with the value read last. -/
def register (limits : Limits) (current : Nat) : Call :=
  if limits.maxQueue ≤ current then .returned .queueFull else .compareExchange current

/-- What the caller is left with when `acquire` is over. -/
def Outcome.finish : Outcome → Call
  | .acquired => .holding
  | .queueTimeout => .returned .queueTimeout
  | .shuttingDown => .returned .shuttingDown
  | .dropped => .dropped

/-- One atomic step of call `i` of `Gate::acquire`. -/
def callStep (limits : Limits) (g : Shared) (i : Nat) : Call → CallAction → Option (Shared × Call)
  | .idle, .start => some (g, .tryAcquire)
  | .tryAcquire, .tryAcquire =>
    -- fast path: a slot is free, the queue accounting is skipped
    match g.semaphore.tryAcquire with
    | some semaphore => some ({ g with semaphore }, .holding)
    | none => some (g, .load)
  | .load, .load => some (g, register limits g.queued)
  | .compareExchange current, .compareExchange spurious =>
    if g.queued = current ∧ spurious = false then
      some ({ g with queued := incr current }, .select false)
    -- another value, or a spurious failure: the loop starts again with the value read
    else some (g, register limits g.queued)
  | .select _, .elapse => some (g, .select true)
  | .select elapsed, .pollPermit =>
    let r := g.semaphore.poll i
    some ({ g with semaphore := r.1 }, if r.2 then .unwind .acquired else .select elapsed)
  | .select true, .pollSleep => some (g, .unwind .queueTimeout)
  | .select _, .pollShutdown =>
    if g.cancelled then some (g, .unwind .shuttingDown) else none
  -- a future that was never polled owns nothing; suspended, it is in the `select!`
  | .tryAcquire, .drop => some (g, .dropped)
  | .select _, .drop => some (g, .unwind .dropped)
  -- the permit is out of the semaphore already; any other end gives back what it waits for
  | .unwind .acquired, .dropFutures => some (g, .dropSlot .acquired)
  | .unwind outcome, .dropFutures =>
    some ({ g with semaphore := g.semaphore.cancel i }, .dropSlot outcome)
  -- the guard of the counter goes last, whatever the outcome
  | .dropSlot outcome, .dropSlot => some ({ g with queued := decr g.queued }, outcome.finish)
  | .holding, .dropPermit => some ({ g with semaphore := g.semaphore.release }, .released)
  | _, _ => none

/-! ## What a call owns -/

namespace Call

/-- The call, or the session it admitted, owns a permit. -/
def ownsPermit : Call → Bool
  | unwind .acquired | dropSlot .acquired | holding => true
  | _ => false

/-- The `QueueSlot` guard of the call is live. -/
def hasSlot : Call → Bool
  | select _ | unwind _ | dropSlot _ => true
  | _ => false

/-- The call still has a future of the semaphore that can be in its queue. -/
def waits : Call → Bool
  | select _ | unwind .queueTimeout | unwind .shuttingDown | unwind .dropped => true
  | _ => false

/-- `acquire` is over, and so is the session it may have admitted. -/
def isOver : Call → Bool
  | returned _ | dropped | released => true
  | _ => false

/-- `acquire` has been called and has not returned. -/
def inProgress : Call → Bool
  | tryAcquire | load | compareExchange _ | select _ | unwind _ | dropSlot _ => true
  | _ => false

end Call

@[simp] theorem register_ownsPermit (limits : Limits) (n : Nat) :
    (register limits n).ownsPermit = false := by
  unfold register
  split <;> rfl

@[simp] theorem register_hasSlot (limits : Limits) (n : Nat) :
    (register limits n).hasSlot = false := by
  unfold register
  split <;> rfl

@[simp] theorem Outcome.finish_hasSlot (outcome : Outcome) : outcome.finish.hasSlot = false := by
  cases outcome <;> rfl

@[simp] theorem Outcome.finish_ownsPermit (outcome : Outcome) :
    outcome.finish.ownsPermit = (Call.dropSlot outcome).ownsPermit := by
  cases outcome <;> rfl

/-- Everything one atomic step of a call can do. -/
inductive CallStep (limits : Limits) (g : Shared) (i : Nat) :
    Call → CallAction → Shared → Call → Prop
  | start : CallStep limits g i .idle .start g .tryAcquire
  | fast (hp : 0 < g.semaphore.permits) :
      CallStep limits g i .tryAcquire .tryAcquire
        { g with semaphore := { g.semaphore with permits := g.semaphore.permits - 1 } } .holding
  | slow (hp : g.semaphore.permits = 0) :
      CallStep limits g i .tryAcquire .tryAcquire g .load
  | load : CallStep limits g i .load .load g (register limits g.queued)
  | exchanged :
      CallStep limits g i (.compareExchange g.queued) (.compareExchange false)
        { g with queued := incr g.queued } (.select false)
  | retry (current : Nat) (spurious : Bool) :
      CallStep limits g i (.compareExchange current) (.compareExchange spurious) g
        (register limits g.queued)
  | elapse (elapsed : Bool) : CallStep limits g i (.select elapsed) .elapse g (.select true)
  | granted (elapsed : Bool) (hready : (g.semaphore.poll i).2 = true) :
      CallStep limits g i (.select elapsed) .pollPermit
        { g with semaphore := (g.semaphore.poll i).1 } (.unwind .acquired)
  | parked (elapsed : Bool) (hready : (g.semaphore.poll i).2 = false) :
      CallStep limits g i (.select elapsed) .pollPermit
        { g with semaphore := (g.semaphore.poll i).1 } (.select elapsed)
  | timeout : CallStep limits g i (.select true) .pollSleep g (.unwind .queueTimeout)
  | shutdown (elapsed : Bool) (hc : g.cancelled = true) :
      CallStep limits g i (.select elapsed) .pollShutdown g (.unwind .shuttingDown)
  | dropFresh : CallStep limits g i .tryAcquire .drop g .dropped
  | dropSelect (elapsed : Bool) :
      CallStep limits g i (.select elapsed) .drop g (.unwind .dropped)
  | forget : CallStep limits g i (.unwind .acquired) .dropFutures g (.dropSlot .acquired)
  | abandon (outcome : Outcome) (hne : outcome ≠ .acquired) :
      CallStep limits g i (.unwind outcome) .dropFutures
        { g with semaphore := g.semaphore.cancel i } (.dropSlot outcome)
  | slot (outcome : Outcome) :
      CallStep limits g i (.dropSlot outcome) .dropSlot
        { g with queued := decr g.queued } outcome.finish
  | release :
      CallStep limits g i .holding .dropPermit
        { g with semaphore := g.semaphore.release } .released

theorem callStep_inv {limits : Limits} {g g' : Shared} {i : Nat} {c c' : Call} {a : CallAction}
    (h : callStep limits g i c a = some (g', c')) : CallStep limits g i c a g' c' := by
  unfold callStep at h
  split at h
  case h_1 =>
    obtain ⟨rfl, rfl⟩ := Prod.mk.inj (Option.some.inj h)
    exact .start
  case h_2 =>
    split at h
    next semaphore hs =>
      obtain ⟨rfl, rfl⟩ := Prod.mk.inj (Option.some.inj h)
      obtain ⟨hp, rfl⟩ := Semaphore.tryAcquire_eq_some.mp hs
      exact .fast hp
    next hs =>
      obtain ⟨rfl, rfl⟩ := Prod.mk.inj (Option.some.inj h)
      exact .slow (Semaphore.tryAcquire_eq_none.mp hs)
  case h_3 =>
    obtain ⟨rfl, rfl⟩ := Prod.mk.inj (Option.some.inj h)
    exact .load
  case h_4 current spurious =>
    split at h
    next hq =>
      obtain ⟨rfl, rfl⟩ := hq
      obtain ⟨rfl, rfl⟩ := Prod.mk.inj (Option.some.inj h)
      exact .exchanged
    next =>
      obtain ⟨rfl, rfl⟩ := Prod.mk.inj (Option.some.inj h)
      exact .retry current spurious
  case h_5 elapsed =>
    obtain ⟨rfl, rfl⟩ := Prod.mk.inj (Option.some.inj h)
    exact .elapse elapsed
  case h_6 elapsed =>
    obtain ⟨rfl, rfl⟩ := Prod.mk.inj (Option.some.inj h)
    split
    next hready => exact .granted elapsed hready
    next hready => exact .parked elapsed (by simpa using hready)
  case h_7 =>
    obtain ⟨rfl, rfl⟩ := Prod.mk.inj (Option.some.inj h)
    exact .timeout
  case h_8 elapsed =>
    split at h
    next hc =>
      obtain ⟨rfl, rfl⟩ := Prod.mk.inj (Option.some.inj h)
      exact .shutdown elapsed hc
    next => cases h
  case h_9 =>
    obtain ⟨rfl, rfl⟩ := Prod.mk.inj (Option.some.inj h)
    exact .dropFresh
  case h_10 elapsed =>
    obtain ⟨rfl, rfl⟩ := Prod.mk.inj (Option.some.inj h)
    exact .dropSelect elapsed
  case h_11 =>
    obtain ⟨rfl, rfl⟩ := Prod.mk.inj (Option.some.inj h)
    exact .forget
  case h_12 outcome hne =>
    obtain ⟨rfl, rfl⟩ := Prod.mk.inj (Option.some.inj h)
    exact .abandon outcome hne
  case h_13 outcome =>
    obtain ⟨rfl, rfl⟩ := Prod.mk.inj (Option.some.inj h)
    exact .slot outcome
  case h_14 =>
    obtain ⟨rfl, rfl⟩ := Prod.mk.inj (Option.some.inj h)
    exact .release
  case h_15 => cases h

theorem dropPermit_inv {limits : Limits} {g g' : Shared} {i : Nat} {c c' : Call}
    (h : CallStep limits g i c .dropPermit g' c') : c' = .released := by
  cases h
  rfl

/-- The only step of the environment: the shutdown token is cancelled. -/
inductive EnvAction where
  | cancel
  deriving DecidableEq, Repr

def program (limits : Limits) : Program Shared Call CallAction EnvAction where
  act := callStep limits
  env g _ := fun
    | .cancel => some { g with cancelled := true }
  fresh c := c = .idle

abbrev State := Pool.State Shared Call
abbrev Action := Pool.Action Call CallAction EnvAction

/-- The gate with any number of calls and sessions. -/
def machine (limits : Limits) : Machine State Action := Pool.machine (program limits)

def init (limits : Limits) : State := { shared := .new limits, procs := [] }

end Pinokio.Gate
