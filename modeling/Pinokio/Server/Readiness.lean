/-
# Pinokio.Server.Readiness -- `/ready` and `/status` (`server.rs`)

The handler of `/ready` reads the token, the `OnceLock`, the semaphore and the counter, and
the gateway goes on in between: a probe is a process beside it. `ready_matches_admission`
is that its answer is the one that a new request would get, where nothing comes in between;
`readiness_forward` is that over a whole run answers only go one way, from the installation
to the shutdown. `status_counts` relates the counts of `/status` to the Chromiums that run.
-/
import Pinokio.Server.Cap
import Pinokio.Server.NoAdmission

namespace Pinokio.Server

variable {Code : Type} {limits : Gate.Limits} {codes : Proxy.CloseCodes Code}

/-! ## The probe -/

/-- Why the server is not ready. -/
inductive NotReady where
  | shuttingDown
  | browserInstalling
  | atCapacity
  deriving DecidableEq, Repr

/-- The `reason` in the body of the response. -/
def NotReady.reason : NotReady → String
  | shuttingDown => "shutting_down"
  | browserInstalling => "browser_installing"
  | atCapacity => "at_capacity"

abbrev Readiness := Except NotReady Unit

/-- The handler of `/ready`, from one read of the shared state to the next. -/
inductive Probe where
  | checkShutdown
  | checkBrowser
  /-- `has_capacity` reads the permits, and the counter when there is none. -/
  | readPermits
  | readQueued
  | answered (answer : Readiness)

def probeStep (limits : Gate.Limits) (s : AppState) : Probe → Option Probe
  | .checkShutdown =>
    some (if s.shutdown then .answered (.error .shuttingDown) else .checkBrowser)
  | .checkBrowser =>
    some (if s.browser then .readPermits else .answered (.error .browserInstalling))
  | .readPermits => some (if 0 < s.gate.semaphore.permits then .answered (.ok ()) else .readQueued)
  | .readQueued =>
    some (.answered (if Gate.queuedSessions s.gate < limits.maxQueue then .ok ()
      else .error .atCapacity))
  | .answered _ => none

/-- What `ready` returns for a state that does not change meanwhile. -/
def ready (limits : Gate.Limits) (s : AppState) : Readiness :=
  if s.shutdown then .error .shuttingDown
  else if !s.browser then .error .browserInstalling
  else if !Gate.hasCapacity limits s.gate then .error .atCapacity
  else .ok ()

/-- The gateway with any number of probes. -/
def probed (limits : Gate.Limits) (codes : Proxy.CloseCodes Code) :
    Program (State Code) Probe Unit (Action Code) where
  act s _ p _ := (probeStep limits s.shared p).map (s, ·)
  env s _ e := (machine limits codes).step s e
  fresh
    | .checkShutdown => true
    | _ => false

abbrev ProbedState (Code : Type) := Pool.State (State Code) Probe

def probedInit (limits : Gate.Limits) : ProbedState Code := { shared := init limits, procs := [] }

/-- Probe `i` has this answer. -/
def Answered (s : ProbedState Code) (i : Nat) (answer : Readiness) : Prop :=
  s.procs[i]? = some (.answered answer)

theorem probe_step {s : ProbedState Code} {i : Nat} {p p' : Probe} (h : s.procs[i]? = some p)
    (hstep : probeStep limits s.shared.shared p = some p') :
    (Pool.machine (probed limits codes)).step s (.act i ()) =
      some { s with procs := s.procs.set i p' } :=
  Pool.step_act.mpr ⟨p, s.shared, p', h, by simp [probed, hstep], rfl⟩

/-- How many reads are left. -/
def Probe.rank : Probe → Nat
  | checkShutdown => 4
  | checkBrowser => 3
  | readPermits => 2
  | readQueued => 1
  | answered _ => 0

/-- The answer of a probe on a state that does not change. -/
def Probe.outcome (limits : Gate.Limits) (s : AppState) : Probe → Readiness
  | checkShutdown => ready limits s
  | checkBrowser => if s.browser then
      if Gate.hasCapacity limits s.gate then .ok () else .error .atCapacity
    else .error .browserInstalling
  | readPermits => if Gate.hasCapacity limits s.gate then .ok () else .error .atCapacity
  | readQueued => if Gate.queuedSessions s.gate < limits.maxQueue then .ok () else
      .error .atCapacity
  | answered answer => answer

theorem outcome_step {s : AppState} {p p' : Probe} (h : probeStep limits s p = some p') :
    p'.outcome limits s = p.outcome limits s ∧ p'.rank < p.rank := by
  cases p with
  | checkShutdown =>
      obtain rfl := Option.some.inj h
      cases hs : s.shutdown <;> cases hb : s.browser <;>
        cases hc : Gate.hasCapacity limits s.gate <;>
        simp [Probe.outcome, Probe.rank, ready, hs, hb, hc]
  | checkBrowser =>
      obtain rfl := Option.some.inj h
      cases hb : s.browser <;> simp [Probe.outcome, Probe.rank, hb]
  | readPermits =>
      obtain rfl := Option.some.inj h
      by_cases hp : 0 < s.gate.semaphore.permits <;>
        simp [Probe.outcome, Probe.rank, Gate.hasCapacity, hp]
  | readQueued =>
      obtain rfl := Option.some.inj h
      exact ⟨rfl, Nat.one_pos⟩
  | answered answer => cases h

/-- Reading by reading, the handler comes to what `ready` returns. -/
theorem probe_alone (limits : Gate.Limits) (codes : Proxy.CloseCodes Code)
    {s : ProbedState Code} {i : Nat} {p : Probe} (h : s.procs[i]? = some p) :
    ∃ t, (Pool.machine (probed limits codes)).Repeats (.act i ()) s t ∧ t.shared = s.shared ∧
      Answered t i (p.outcome limits s.shared.shared) := by
  induction hn : p.rank using Nat.strong_induction_on generalizing s p with
  | _ n ih =>
      cases hstep : probeStep limits s.shared.shared p with
      | none =>
          cases p with
          | answered answer => exact ⟨s, .refl _ s, rfl, h⟩
          | _ => cases hstep
      | some p' =>
          obtain ⟨houtcome, hlt⟩ := outcome_step hstep
          obtain ⟨t, hrepeats, hshared, hanswer⟩ :=
            ih p'.rank (hn ▸ hlt) (s := { s with procs := s.procs.set i p' })
              (Pool.getElem?_set_of_some h p') rfl
          exact ⟨t, .head (probe_step h hstep) hrepeats, hshared, houtcome ▸ hanswer⟩

/-! ## A request in its place -/

/-- The next step of a request, up to where it has a permit, waits for one or is refused. -/
def Request.onward (r : Request Code) : Option (RequestAction Code) :=
  match r.phase, r.call with
  | .authorize, _ | .checkShutdown, _ | .checkBrowser, _ | .parseLaunch, _ => some .check
  | .acquiring, .idle => some (.gate .start)
  | .acquiring, .tryAcquire => some (.gate .tryAcquire)
  | .acquiring, .load => some (.gate .load)
  | .acquiring, .compareExchange _ => some (.gate (.compareExchange false))
  | .acquiring, .returned _ => some .resume
  | _, _ => none

/-- What a client is told where `/ready` says this. -/
def NotReady.toGatewayError : NotReady → GatewayError
  | shuttingDown => .shuttingDown
  | browserInstalling => .browserInstalling
  | atCapacity => .queueFull

/-- The request is where a server that is ready, or not, leaves it. -/
def Request.Meets (r : Request Code) : Readiness → Prop
  | .ok _ => r.phase = .acquiring ∧ (r.call = .holding ∨ r.call = .select false)
  | .error e => r.phase = .ended (.refused e.toGatewayError)

/-- Request `i` moves onward. -/
def Onward (i : Nat) (s : State Code) (e : Action Code) : Prop :=
  ∃ r a, s.procs[i]? = some r ∧ r.onward = some a ∧ e = .act i a

/-- From `s`, request `i` alone comes to where this readiness leaves it. -/
def Comes (limits : Gate.Limits) (codes : Proxy.CloseCodes Code) (i : Nat) (answer : Readiness)
    (s : State Code) : Prop :=
  ∃ as t r, Machine.Along (Onward i) (machine limits codes) s as ∧
    (machine limits codes).run s as = some t ∧ t.procs[i]? = some r ∧ r.onward = none ∧
    r.Meets answer

theorem comes_head {s : State Code} {i : Nat} {r r' : Request Code} {a : RequestAction Code}
    {shared : AppState} {answer : Readiness} (hmain : s.shared.main.isExited = false)
    (hr : s.procs[i]? = some r) (ha : r.onward = some a)
    (hstep : requestStep limits codes s.shared i r a = some (shared, r'))
    (h : Comes limits codes i answer { shared, procs := s.procs.set i r' }) :
    Comes limits codes i answer s := by
  obtain ⟨as, t, q, hAlong, hrun, hend⟩ := h
  have hmove : (machine limits codes).step s (.act i a) =
      some { shared, procs := s.procs.set i r' } := by
    refine Pool.step_act.mpr ⟨r, shared, r', hr, ?_, rfl⟩
    simp [program, hmain, hstep]
  exact ⟨.act i a :: as, t, q, Machine.along_cons_of_step ⟨r, a, hr, ha, rfl⟩ hmove hAlong,
    (Machine.run_cons_iff _).mpr ⟨_, hmove, hrun⟩, hend⟩

theorem comes_refl {s : State Code} {i : Nat} {r : Request Code} {answer : Readiness}
    (hr : s.procs[i]? = some r) (hstop : r.onward = none) (hmeets : r.Meets answer) :
    Comes limits codes i answer s := ⟨[], s, r, trivial, rfl, hr, hstop, hmeets⟩

/-- A step of the gate that moves the request onward. -/
theorem comes_gate {s : State Code} {i : Nat} {r : Request Code} {a : Gate.CallAction}
    {g : Gate.Shared} {c : Gate.Call} {answer : Readiness}
    (hmain : s.shared.main.isExited = false) (hr : s.procs[i]? = some r)
    (hp : r.phase = .acquiring) (ha : r.onward = some (.gate a)) (hne : a ≠ .dropPermit)
    (hstep : Gate.callStep limits s.shared.gate i r.call a = some (g, c))
    (h : Comes limits codes i answer
      { shared := { s.shared with gate := g }, procs := s.procs.set i { r with call := c } }) :
    Comes limits codes i answer s :=
  comes_head hmain hr ha (by simp [requestStep, hp, hne, hstep]) h

theorem comes_of_returned {s : State Code} {i : Nat} {r : Request Code}
    (hmain : s.shared.main.isExited = false) (hr : s.procs[i]? = some r)
    (hp : r.phase = .acquiring) (hc : r.call = .returned .queueFull) :
    Comes limits codes i (.error .atCapacity) s := by
  have honward : r.onward = some .resume := by simp [Request.onward, hp, hc]
  have hstep : requestStep limits codes s.shared i r .resume =
      some (s.shared, r.refuse .queueFull) := by
    simp [requestStep, resumeStep, hp, hc]
  refine comes_head hmain hr honward hstep ?_
  exact comes_refl (Pool.getElem?_set_of_some hr _) rfl rfl

theorem comes_of_compareExchange {s : State Code} {i : Nat} {r : Request Code}
    (hmain : s.shared.main.isExited = false) (hr : s.procs[i]? = some r)
    (hp : r.phase = .acquiring) (hc : r.call = .compareExchange s.shared.gate.queued) :
    Comes limits codes i (.ok ()) s := by
  have honward : r.onward = some (.gate (.compareExchange false)) := by
    simp [Request.onward, hp, hc]
  have hstep : Gate.callStep limits s.shared.gate i r.call (.compareExchange false) =
      some ({ s.shared.gate with queued := Gate.incr s.shared.gate.queued }, .select false) := by
    rw [hc]
    exact if_pos ⟨rfl, rfl⟩
  refine comes_gate hmain hr hp honward (by decide) hstep ?_
  refine comes_refl (Pool.getElem?_set_of_some hr _) ?_ ⟨hp, Or.inr rfl⟩
  simp [Request.onward, hp]

/-- Past its failed `try_acquire` a request gets a place in the queue, or is refused. -/
theorem comes_of_load {s : State Code} {i : Nat} {r : Request Code}
    (hmain : s.shared.main.isExited = false) (hr : s.procs[i]? = some r)
    (hp : r.phase = .acquiring) (hc : r.call = .load) :
    Comes limits codes i (if Gate.queuedSessions s.shared.gate < limits.maxQueue then .ok ()
      else .error .atCapacity) s := by
  have honward : r.onward = some (.gate .load) := by simp [Request.onward, hp, hc]
  have hstep : Gate.callStep limits s.shared.gate i r.call .load =
      some (s.shared.gate, Gate.register limits s.shared.gate.queued) := by
    rw [hc]
    rfl
  refine comes_gate hmain hr hp honward (by decide) hstep ?_
  have hr' := Pool.getElem?_set_of_some hr
    { r with call := Gate.register limits s.shared.gate.queued }
  split
  · rename_i hroom
    exact comes_of_compareExchange hmain hr' hp (if_neg (Nat.not_le.mpr hroom))
  · rename_i hfull
    exact comes_of_returned hmain hr' hp (if_pos (Nat.not_lt.mp hfull))

/-- In the gate a request gets a permit or a place in the queue, or it is refused there. -/
theorem comes_of_acquiring {s : State Code} {i : Nat} {r : Request Code}
    (hmain : s.shared.main.isExited = false) (hr : s.procs[i]? = some r)
    (hp : r.phase = .acquiring) (hc : r.call = .idle) :
    Comes limits codes i
      (if Gate.hasCapacity limits s.shared.gate then .ok () else .error .atCapacity) s := by
  have honward : r.onward = some (.gate .start) := by simp [Request.onward, hp, hc]
  have hstep : Gate.callStep limits s.shared.gate i r.call .start =
      some (s.shared.gate, .tryAcquire) := by
    rw [hc]
    rfl
  refine comes_gate hmain hr hp honward (by decide) hstep ?_
  have hr' := Pool.getElem?_set_of_some hr { r with call := .tryAcquire }
  have honward' : Request.onward { r with call := .tryAcquire } = some (.gate .tryAcquire) := by
    simp [Request.onward, hp]
  cases ht : s.shared.gate.semaphore.tryAcquire with
  | some semaphore =>
      have hpermits := (Semaphore.tryAcquire_eq_some.mp ht).1
      have hcapacity : Gate.hasCapacity limits s.shared.gate = true := by
        simp [Gate.hasCapacity, hpermits]
      rw [if_pos hcapacity]
      refine comes_gate hmain hr' hp honward' (by decide)
        (g := { s.shared.gate with semaphore }) (c := .holding) (by simp [Gate.callStep, ht]) ?_
      refine comes_refl (Pool.getElem?_set_of_some hr' _) ?_ ⟨hp, Or.inl rfl⟩
      simp [Request.onward, hp]
  | none =>
      have hcapacity : Gate.hasCapacity limits s.shared.gate =
          decide (Gate.queuedSessions s.shared.gate < limits.maxQueue) := by
        simp [Gate.hasCapacity, Semaphore.tryAcquire_eq_none.mp ht]
      simp only [hcapacity, decide_eq_true_eq]
      refine comes_gate hmain hr' hp honward' (by decide)
        (g := s.shared.gate) (c := .load) (by simp [Gate.callStep, ht]) ?_
      exact comes_of_load hmain (Pool.getElem?_set_of_some hr' _) hp rfl

/-- A check that is made on the way. -/
theorem comes_check {s : State Code} {i : Nat} {r : Request Code} (r' : Request Code)
    {answer : Readiness} (hmain : s.shared.main.isExited = false) (hr : s.procs[i]? = some r)
    (ha : r.onward = some .check) (hcheck : checkStep s.shared r = some r')
    (h : ∀ t : State Code, t.shared = s.shared → t.procs[i]? = some r' →
      Comes limits codes i answer t) : Comes limits codes i answer s :=
  comes_head hmain hr ha (by simp [requestStep, hcheck])
    (h _ rfl (Pool.getElem?_set_of_some hr r'))

/-- From the check of the token on. -/
theorem comes_of_checkShutdown {s : State Code} {i : Nat} {r : Request Code}
    (hmain : s.shared.main.isExited = false) (hr : s.procs[i]? = some r)
    (hp : r.phase = .checkShutdown) (hl : r.launchOptions = .ok ()) (hc : r.call = .idle) :
    Comes limits codes i (ready limits s.shared) s := by
  have honward : r.onward = some .check := by simp [Request.onward, hp]
  cases hs : s.shared.shutdown with
  | true =>
      refine comes_check (r.refuse .shuttingDown) hmain hr honward
        (by simp [checkStep, hp, hs]) fun t _ hr' => comes_refl hr' rfl ?_
      simp [ready, hs, Request.Meets, Request.refuse, NotReady.toGatewayError]
  | false =>
      refine comes_check ({ r with phase := .checkBrowser }) hmain hr honward
        (by simp [checkStep, hp, hs]) fun t ht hr' => ?_
      have hmain' : t.shared.main.isExited = false := ht ▸ hmain
      cases hb : s.shared.browser with
      | false =>
          refine comes_check (Request.refuse { r with phase := .checkBrowser }
            .browserInstalling) hmain' hr' rfl (by simp [checkStep, ht, hb])
            fun u _ hr' => comes_refl hr' rfl ?_
          simp [ready, hs, hb, Request.Meets, Request.refuse, NotReady.toGatewayError]
      | true =>
          refine comes_check ({ r with phase := .parseLaunch }) hmain' hr' rfl
            (by simp [checkStep, ht, hb]) fun u hu hr' => ?_
          have hmain' : u.shared.main.isExited = false := hu ▸ hmain'
          refine comes_check ({ r with phase := .acquiring }) hmain' hr' rfl
            (by simp [checkStep, hl]) fun v hv hr' => ?_
          have hready : ready limits s.shared =
              if Gate.hasCapacity limits v.shared.gate then .ok () else .error .atCapacity := by
            rw [hv, hu, ht]
            cases hcap : Gate.hasCapacity limits s.shared.gate <;> simp [ready, hs, hb, hcap]
          rw [hready]
          exact comes_of_acquiring (hv ▸ hmain') hr' rfl hc

theorem comes_of_new {s : State Code} {i : Nat} {r : Request Code}
    (hmain : s.shared.main.accepts = true) (hr : s.procs[i]? = some r)
    (hp : r.phase = .authorize) (ha : r.authorized = true) (hl : r.launchOptions = .ok ())
    (hc : r.call = .idle) : Comes limits codes i (ready limits s.shared) s := by
  have honward : r.onward = some .check := by simp [Request.onward, hp]
  have hexited : s.shared.main.isExited = false := by
    cases hm : s.shared.main <;> rw [hm] at hmain <;> first | rfl | cases hmain
  refine comes_check { r with phase := .checkShutdown } hexited hr honward
    (by simp [checkStep, hp, hmain, ha]) fun t ht hr' => ?_
  rw [← ht]
  exact comes_of_checkShutdown (ht ▸ hexited) hr' rfl hl hc

/-- A probe, and a new request that may come in, on the same state: the request gets a permit
or a place in the queue where the probe is told that the server is ready, and is refused for
the reason that the probe is given where it is not. -/
theorem ready_matches_admission {s : ProbedState Code} {i : Nat}
    (hmain : s.shared.shared.main.accepts = true) (hi : s.procs[i]? = some .checkShutdown) :
    ∃ answer t, (Pool.machine (probed limits codes)).Repeats (.act i ()) s t ∧
      t.shared = s.shared ∧ Answered t i answer ∧
      Comes limits codes s.shared.procs.length answer
        { s.shared with procs := s.shared.procs ++ [.new true (.ok ())] } ∧
      answer = ready limits s.shared.shared := by
  obtain ⟨t, hrepeats, hshared, hanswer⟩ := probe_alone limits codes hi
  exact ⟨_, t, hrepeats, hshared, hanswer,
    comes_of_new hmain List.getElem?_concat_length rfl rfl rfl rfl, rfl⟩

/-- The probe of a server with one session and room to wait, and of one with that room taken. -/
theorem ready_matches_admission_queuedRun :
    (∃ (s : State UInt16) (t : ProbedState UInt16),
      (machine Gate.oneAndOne Proxy.plainCodes).run (init Gate.oneAndOne) launchRun = some s ∧
      Answered t 0 (.ok ()) ∧
      Comes Gate.oneAndOne Proxy.plainCodes 1 (.ok ())
        { s with procs := s.procs ++ [.new true (.ok ())] }) ∧
    ∃ (s : State UInt16) (t : ProbedState UInt16),
      (machine Gate.oneAndOne Proxy.plainCodes).run (init Gate.oneAndOne) queuedRun = some s ∧
      Answered t 0 (.error .atCapacity) ∧
      Comes Gate.oneAndOne Proxy.plainCodes 2 (.error .atCapacity)
        { s with procs := s.procs ++ [.new true (.ok ())] } := by
  have hmeet : ∀ s : State UInt16, s.shared.main.accepts = true →
      ∃ t : ProbedState UInt16, Answered t 0 (ready Gate.oneAndOne s.shared) ∧
        Comes Gate.oneAndOne Proxy.plainCodes s.procs.length (ready Gate.oneAndOne s.shared)
          { s with procs := s.procs ++ [.new true (.ok ())] } := by
    intro s hmain
    obtain ⟨answer, t, -, -, hanswered, hcomes, rfl⟩ :=
      @ready_matches_admission UInt16 Gate.oneAndOne Proxy.plainCodes
        { shared := s, procs := [.checkShutdown] } 0 hmain rfl
    exact ⟨t, hanswered, hcomes⟩
  constructor
  · have hrun : ∃ s : State UInt16,
        (machine Gate.oneAndOne Proxy.plainCodes).run (init Gate.oneAndOne) launchRun = some s ∧
        s.shared.main.accepts = true ∧ s.procs.length = 1 ∧
        ready Gate.oneAndOne s.shared = .ok () := ⟨_, rfl, rfl, rfl, rfl⟩
    obtain ⟨s, hs, hmain, hlen, hready⟩ := hrun
    obtain ⟨t, hanswered, hcomes⟩ := hmeet s hmain
    rw [hready] at hanswered hcomes
    exact ⟨s, t, hs, hanswered, hlen ▸ hcomes⟩
  · have hrun : ∃ s : State UInt16,
        (machine Gate.oneAndOne Proxy.plainCodes).run (init Gate.oneAndOne) queuedRun = some s ∧
        s.shared.main.accepts = true ∧ s.procs.length = 2 ∧
        ready Gate.oneAndOne s.shared = .error .atCapacity := ⟨_, rfl, rfl, rfl, rfl⟩
    obtain ⟨s, hs, hmain, hlen, hready⟩ := hrun
    obtain ⟨t, hanswered, hcomes⟩ := hmeet s hmain
    rw [hready] at hanswered hcomes
    exact ⟨s, t, hs, hanswered, hlen ▸ hcomes⟩

/-! ## From the installation to the shutdown -/

/-- A browser that is recorded stays so. -/
theorem browser_step {s s' : State Code} {e : Action Code}
    (h : (machine limits codes).step s e = some s') (hb : s.shared.browser = true) :
    s'.shared.browser = true := by
  cases e with
  | spawn r =>
      obtain ⟨-, rfl⟩ := Pool.step_spawn.mp h
      exact hb
  | act i a =>
      obtain ⟨r, shared, r', hr, hact, rfl⟩ := Pool.step_act.mp h
      rcases (act_inv hact).2.call_cases with ⟨rfl, -⟩ | ⟨b, -, heq⟩
      · exact hb
      · show shared.browser = true
        rw [heq]
        exact hb
  | env e =>
      obtain ⟨shared, henv, rfl⟩ := Pool.step_env.mp h
      obtain ⟨-, henv⟩ := Option.ite_none_left_eq_some.mp henv
      cases e with
      | browserReady | browserFails =>
          obtain ⟨-, henv⟩ := Option.ite_none_left_eq_some.mp henv
          cases henv
          first
            | rfl
            | exact hb
      | graceElapses =>
          simp only [envStep] at henv
          split at henv
          all_goals cases henv
          all_goals exact hb
      | signal | served | serveFails | drained | drainElapses =>
          obtain ⟨-, henv⟩ := Option.ite_none_right_eq_some.mp henv
          cases henv
          exact hb

/-- How far the server is: the browser is being installed, it is there, the shutdown has
begun. -/
def stage : Readiness → Nat
  | .error .browserInstalling => 0
  | .ok _ | .error .atCapacity => 1
  | .error .shuttingDown => 2

theorem stage_le : ∀ answer : Readiness, stage answer ≤ 2
  | .ok () | .error .browserInstalling | .error .atCapacity | .error .shuttingDown => by decide

theorem one_le_stage : ∀ {answer : Readiness}, answer ≠ .error .browserInstalling → 1 ≤ stage answer
  | .ok (), _ | .error .atCapacity, _ | .error .shuttingDown, _ => by decide
  | .error .browserInstalling, h => absurd rfl h

/-- What a probe has read still is so. -/
def Probe.Seen (s : AppState) : Probe → Prop
  | checkShutdown | checkBrowser => True
  | readPermits | readQueued => s.browser = true
  | answered answer =>
    (stage answer = 1 → s.browser = true) ∧ (stage answer = 2 → s.shutdown = true)

/-- What a probe that begins in `s` or later can have read. -/
def Probe.Since (s : AppState) (p : Probe) : Prop :=
  (s.shutdown = true → p = .checkShutdown ∨ p = .answered (.error .shuttingDown)) ∧
    (s.browser = true → p ≠ .answered (.error .browserInstalling))

/-- The two that only go one way. -/
def Onto (s s' : AppState) : Prop :=
  (s.shutdown = true → s'.shutdown = true) ∧ (s.browser = true → s'.browser = true)

theorem onto_step {s s' : ProbedState Code} {e : Pool.Action Probe Unit (Action Code)}
    (h : (Pool.machine (probed limits codes)).step s e = some s') :
    Onto s.shared.shared s'.shared.shared := by
  cases e with
  | spawn p =>
      obtain ⟨-, rfl⟩ := Pool.step_spawn.mp h
      exact ⟨id, id⟩
  | act i a =>
      obtain ⟨p, shared, p', -, hact, rfl⟩ := Pool.step_act.mp h
      obtain ⟨q, -, heq⟩ := Option.map_eq_some_iff.mp hact
      obtain ⟨rfl, rfl⟩ := Prod.mk.inj heq
      exact ⟨id, id⟩
  | env e =>
      obtain ⟨shared, henv, rfl⟩ := Pool.step_env.mp h
      exact ⟨shutdown_step henv, browser_step henv⟩

theorem seen_onto {s s' : AppState} (h : Onto s s') {p : Probe} (hp : p.Seen s) : p.Seen s' := by
  cases p with
  | checkShutdown | checkBrowser => trivial
  | readPermits | readQueued => exact h.2 hp
  | answered answer => exact ⟨fun ha => h.2 (hp.1 ha), fun ha => h.1 (hp.2 ha)⟩

theorem seen_probeStep {s : AppState} {p p' : Probe} (h : probeStep limits s p = some p')
    (hp : p.Seen s) : p'.Seen s := by
  cases p with
  | checkShutdown =>
      obtain rfl := Option.some.inj h
      cases hs : s.shutdown with
      | true => exact ⟨(fun ha => by cases ha), fun _ => hs⟩
      | false => trivial
  | checkBrowser =>
      obtain rfl := Option.some.inj h
      cases hb : s.browser with
      | true => exact hb
      | false => exact ⟨(fun ha => by cases ha), (fun ha => by cases ha)⟩
  | readPermits =>
      obtain rfl := Option.some.inj h
      split
      · exact ⟨fun _ => hp, fun ha => by cases ha⟩
      · exact hp
  | readQueued =>
      obtain rfl := Option.some.inj h
      split <;> exact ⟨fun _ => hp, fun ha => by cases ha⟩
  | answered answer => cases h

theorem since_probeStep {s u : AppState} {p p' : Probe} (hu : Onto u s)
    (h : probeStep limits s p = some p') (hp : p.Since u) : p'.Since u := by
  cases p with
  | checkShutdown =>
      obtain rfl := Option.some.inj h
      refine ⟨fun hs => Or.inr (by rw [hu.1 hs]; rfl), fun _ => ?_⟩
      split <;> exact fun ha => by cases ha
  | checkBrowser =>
      obtain rfl := Option.some.inj h
      refine ⟨fun hs => ?_, fun hb => ?_⟩
      · rcases hp.1 hs with hp | hp <;> cases hp
      · rw [hu.2 hb]
        exact fun ha => by cases ha
  | readPermits | readQueued =>
      obtain rfl := Option.some.inj h
      refine ⟨fun hs => ?_, fun _ => ?_⟩
      · rcases hp.1 hs with hp | hp <;> cases hp
      · split <;> exact fun ha => by cases ha
  | answered answer => cases h

/-- Of two probes, one after the other, the later one finds the server no less far. -/
theorem readiness_forward {s t : ProbedState Code} {i j : Nat} {answer answer' : Readiness}
    (h : (Pool.machine (probed limits codes)).Reachable (probedInit limits) s)
    (hi : Answered s i answer) (ht : (Pool.machine (probed limits codes)).Reachable s t)
    (hj : s.procs.length ≤ j) (hanswer : Answered t j answer') : stage answer ≤ stage answer' := by
  have hseen : ∀ (i : Nat) (p : Probe), s.procs[i]? = some p → p.Seen s.shared.shared := by
    refine h.invariant (I := fun s : ProbedState Code =>
      ∀ (i : Nat) (p : Probe), s.procs[i]? = some p → p.Seen s.shared.shared)
      (fun _ _ hp => by cases hp) ?_
    intro s e s' hst hI k p hp
    rcases Pool.step_proc hst hp with ⟨rfl, hfresh⟩ | ⟨a, q, rfl, hq, hact⟩ | ⟨hp, -⟩
    · cases p with
      | checkShutdown => trivial
      | _ => cases hfresh
    · obtain ⟨q', hq', heq⟩ := Option.map_eq_some_iff.mp hact
      obtain ⟨hshared, rfl⟩ := Prod.mk.inj heq
      rw [← hshared]
      exact seen_probeStep hq' (hI k q hq)
    · exact seen_onto (onto_step hst) (hI k p hp)
  have hsince : Onto s.shared.shared t.shared.shared ∧
      ∀ (k : Nat) (p : Probe), s.procs.length ≤ k → t.procs[k]? = some p →
        p.Since s.shared.shared := by
    refine ht.invariant (I := fun t : ProbedState Code => Onto s.shared.shared t.shared.shared ∧
      ∀ (k : Nat) (p : Probe), s.procs.length ≤ k → t.procs[k]? = some p →
        p.Since s.shared.shared) ⟨⟨id, id⟩, ?_⟩ ?_
    · intro k p hk hp
      rw [List.getElem?_eq_none hk] at hp
      cases hp
    · intro u e u' hst hI
      have honto := onto_step hst
      refine ⟨⟨honto.1 ∘ hI.1.1, honto.2 ∘ hI.1.2⟩, fun k p hk hp => ?_⟩
      rcases Pool.step_proc hst hp with ⟨rfl, hfresh⟩ | ⟨a, q, rfl, hq, hact⟩ | ⟨hp, -⟩
      · cases p with
        | checkShutdown => exact ⟨fun _ => Or.inl rfl, fun _ => fun hp => by cases hp⟩
        | _ => cases hfresh
      · obtain ⟨q', hq', heq⟩ := Option.map_eq_some_iff.mp hact
        obtain ⟨-, rfl⟩ := Prod.mk.inj heq
        exact since_probeStep hI.1 hq' (hI.2 k q hk hq)
      · exact hI.2 k p hk hp
  have hfirst := hseen i _ hi
  obtain ⟨hshutdown, hbrowser⟩ := hsince.2 j _ hj hanswer
  by_cases htwo : stage answer = 2
  · rcases hshutdown (hfirst.2 htwo) with hp | hp
    · cases hp
    · cases hp
      exact stage_le answer
  · by_cases hone : stage answer = 1
    · rw [hone]
      exact one_le_stage fun hp => hbrowser (hfirst.1 hone) (congrArg Probe.answered hp)
    · have hle := stage_le answer
      omega

/-- A probe before the browser is there, and one after that. -/
def firstProbe : List (Pool.Action Probe Unit (Action UInt16)) :=
  [.spawn .checkShutdown, .act 0 (), .act 0 ()]

def secondProbe : List (Pool.Action Probe Unit (Action UInt16)) :=
  [.env (.env .browserReady), .spawn .checkShutdown, .act 1 (), .act 1 (), .act 1 ()]

theorem readiness_forward_secondProbe :
    ∃ s t : ProbedState UInt16,
      (Pool.machine (probed oneSession Proxy.plainCodes)).run (probedInit oneSession) firstProbe =
        some s ∧
      (Pool.machine (probed oneSession Proxy.plainCodes)).run s secondProbe = some t ∧
      stage (.error .browserInstalling) ≤ stage (.ok ()) := by
  have hrun : ∃ s t : ProbedState UInt16,
      (Pool.machine (probed oneSession Proxy.plainCodes)).run (probedInit oneSession) firstProbe =
        some s ∧ Answered s 0 (.error .browserInstalling) ∧
      (Pool.machine (probed oneSession Proxy.plainCodes)).run s secondProbe = some t ∧
      s.procs.length ≤ 1 ∧ Answered t 1 (.ok ()) :=
    ⟨_, _, rfl, rfl, rfl, Nat.le_refl 1, rfl⟩
  obtain ⟨s, t, hs, hi, ht, hlen, hj⟩ := hrun
  exact ⟨s, t, hs, ht, readiness_forward ⟨_, hs⟩ hi ⟨_, ht⟩ hlen hj⟩

/-! ## The counts -/

/-- What `/status` tells of the gate. -/
structure Status where
  activeSessions : Nat
  maxConcurrentSessions : Nat
  queuedSessions : Nat
  maxQueueLength : Nat
  deriving DecidableEq, Repr

/-- `status`, to a client that is authorized. -/
def status (limits : Gate.Limits) (s : AppState) : Status where
  activeSessions := Gate.activeSessions limits s.gate
  maxConcurrentSessions := limits.maxSessions
  queuedSessions := Gate.queuedSessions s.gate
  maxQueueLength := limits.maxQueue

/-- The counts of `/status` keep their limits, those in the queue are the requests that wait
there, and while no Chromium was severed from its request, none runs that is not counted. -/
theorem status_counts {s : State Code} {as : List (Action Code)}
    (hrun : (machine limits codes).run (init limits) as = some s) :
    (status limits s.shared).activeSessions ≤ (status limits s.shared).maxConcurrentSessions ∧
    (status limits s.shared).queuedSessions ≤ (status limits s.shared).maxQueueLength ∧
    (status limits s.shared).queuedSessions = s.procs.countP (fun r => r.call.hasSlot) ∧
    (Machine.Along (fun s e => ¬ Severs s e) (machine limits codes) (init limits) as →
      processes s ≤ (status limits s.shared).activeSessions) := by
  have hi := Gate.inv_reachable (gateway_simulates_gate.reachable trivial ⟨as, hrun⟩)
  have hactive : Gate.activeSessions limits s.shared.gate =
      s.shared.gate.semaphore.assigned.length + Gate.owned (gateOf s) := Gate.activeSessions_eq hi
  refine ⟨Nat.sub_le _ _, hi.bound, ?_, fun h => ?_⟩
  · have hslots : s.shared.gate.queued = Gate.liveSlots (gateOf s) := hi.slots
    show s.shared.gate.queued = _
    rw [hslots, Gate.liveSlots, gateOf, Pool.State.map, List.countP_map]
    rfl
  · show processes s ≤ Gate.activeSessions limits s.shared.gate
    rw [hactive]
    calc processes s
        ≤ s.procs.countP (Gate.Call.ownsPermit ∘ Request.call) := by
          apply List.countP_mono_left
          intro r hr hrunning
          obtain ⟨i, hi⟩ := List.getElem?_of_mem hr
          show r.call.ownsPermit = true
          rw [holding_of_running hrun h hi hrunning]
          rfl
      _ = Gate.owned (gateOf s) := by
          rw [← List.countP_map]
          rfl
      _ ≤ s.shared.gate.semaphore.assigned.length + Gate.owned (gateOf s) := Nat.le_add_left _ _

theorem status_counts_launchRun :
    ∃ s : State UInt16,
      (machine oneSession Proxy.plainCodes).run (init oneSession) launchRun = some s ∧
      processes s ≤ (status oneSession s.shared).activeSessions := by
  have hAlong : Machine.Along (fun s e => ¬ Severs s e) (machine oneSession Proxy.plainCodes)
      (init oneSession) launchRun :=
    Machine.along_of_forall
      (fun e he s hs => launchRun_isInterruption e he (isInterruption_of_severs hs)) _
  exact ⟨_, rfl, (status_counts rfl).2.2.2 hAlong⟩

end Pinokio.Server
