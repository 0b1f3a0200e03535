/-
# Pinokio.Config.Ranges -- what the numbers of a configuration are used for

The numbers of an accepted configuration go into the semaphore and the counter of the
gate, into a deadline and a budget of time, and the viewport of a client into the size
of a window. `never_panics_iff` has all of these in range but the semaphore, which
takes fewer permits than the configuration accepts.
-/
import Pinokio.Chromium.Launch
import Pinokio.Config.FailClosed
import Pinokio.Lib.Time
import Pinokio.Queue.Conservation

namespace Pinokio

open Text

/-! ## What the numbers are given to -/

/-- `tokio::sync::Semaphore::MAX_PERMITS`, which is `usize::MAX >> 3`. -/
def maxPermits : Nat := (2 ^ 64 - 1) / 2 ^ 3

/-- `Gate::new`, or `none` where `Semaphore::new` panics. -/
def Gate.Shared.tryNew (limits : Gate.Limits) : Option Gate.Shared :=
  if limits.maxSessions ≤ maxPermits then some (.new limits) else none

namespace Config

/-- The numbers fit the types they are read into. -/
structure Bounded (cfg : Config) : Prop where
  maxQueueLength : cfg.maxQueueLength < 2 ^ 64
  chromeStartupTimeout : cfg.chromeStartupTimeout < 2 ^ 64
  shutdownGracePeriod : cfg.shutdownGracePeriod < 2 ^ 64

section

variable {cfg : Config} (h : Bounded cfg)

/-- What `AppState::new` gives to `Gate::new`. -/
def gateLimits : Gate.Limits :=
  { maxSessions := cfg.maxConcurrentSessions, maxQueue := cfg.maxQueueLength,
    maxQueue_lt := h.maxQueueLength }

/-- The deadline of `wait_for_devtools_endpoint`. -/
def startupDeadline (now : Instant) : Option Instant :=
  now.checkedAdd (Duration.ofMillis cfg.chromeStartupTimeout h.chromeStartupTimeout)

/-- The budget of `main` for the sessions that are left. -/
def drainBudget : Option Duration :=
  (Duration.ofMillis cfg.shutdownGracePeriod h.shutdownGracePeriod).checkedAdd
    (Duration.ofSecs 10 (by norm_num))

end

/-- Nothing that is done with the numbers panics or wraps: in any state of the gate, at any
time, and for any client. -/
structure NeverPanics (cfg : Config) (h : Bounded cfg) : Prop where
  semaphore : (Gate.Shared.tryNew (gateLimits h)).isSome = true
  queued : ∀ (s : Gate.State) (i current : Nat),
    (Gate.machine (gateLimits h)).Reachable (Gate.init (gateLimits h)) s →
    s.procs[i]? = some (.compareExchange current) → current + 1 < 2 ^ 64
  startup : ∀ now : Instant, now.IsReading → (startupDeadline h now).isSome = true
  drain : (drainBudget h).isSome = true
  window : ∀ o o' : LaunchOptions, o.validate = .ok o' →
    (Launch.viewport o').height.toNat + Viewport.windowChromeHeight.toNat < 2 ^ 32

/-! ## The numbers of an accepted configuration -/

/-- Where the numbers come from. -/
structure Numbers (env : Env) (cfg : Config) : Prop where
  maxConcurrentSessions : readMaxConcurrentSessions env = .ok cfg.maxConcurrentSessions
  maxQueueLength : envParse env (parseUnsigned 64) "MAX_QUEUE_LENGTH" 20 = .ok cfg.maxQueueLength
  chromeStartupTimeout :
    envDurationMs env "CHROME_STARTUP_TIMEOUT_MS" 15000 = .ok cfg.chromeStartupTimeout
  shutdownGracePeriod :
    envDurationMs env "SHUTDOWN_GRACE_PERIOD_MS" 10000 = .ok cfg.shutdownGracePeriod

theorem numbers_of_fromEnv {S : System} {cfg : Config} (h : fromEnv S = .ok cfg) :
    Numbers S.env cfg := by
  simp only [fromEnv, bind_eq_ok] at h
  obtain ⟨_, -, _, -, sessions, hsessions, queue, hqueue, _, -, _, -, _, -, _, -, startup, hstartup,
    grace, hgrace, _, -, _, -, _, -, h⟩ := h
  cases h
  exact ⟨hsessions, hqueue, hstartup, hgrace⟩

theorem envParse_lt {env : Env} {name : String} {bits default value : Nat}
    (hdefault : default < 2 ^ bits)
    (h : envParse env (parseUnsigned bits) name default = .ok value) : value < 2 ^ bits := by
  unfold envParse at h
  split at h
  · rename_i raw _
    split at h
    · cases h
      exact hdefault
    · cases hparse : parseUnsigned bits (trim raw) with
      | error e =>
          rw [hparse] at h
          cases h
      | ok n =>
          rw [hparse] at h
          cases h
          exact lt_of_parseUnsigned hparse
  · cases h
    exact hdefault

theorem envDurationMs_lt {env : Env} {name : String} {default value : Nat}
    (hdefault : default < 2 ^ 64) (h : envDurationMs env name default = .ok value) :
    value < 2 ^ 64 := by
  obtain ⟨ms, hms, h⟩ := bind_eq_ok.mp h
  split at h
  · cases h
  · cases h
    exact envParse_lt hdefault hms

theorem bounded_of_fromEnv {S : System} {cfg : Config} (h : fromEnv S = .ok cfg) :
    Bounded cfg where
  maxQueueLength := envParse_lt (by norm_num) (numbers_of_fromEnv h).maxQueueLength
  chromeStartupTimeout := envDurationMs_lt (by norm_num) (numbers_of_fromEnv h).chromeStartupTimeout
  shutdownGracePeriod := envDurationMs_lt (by norm_num) (numbers_of_fromEnv h).shutdownGracePeriod

/-! ## In range -/

section

variable {cfg : Config} (h : Bounded cfg)

/-- The counter is below the queue limit wherever it is incremented. -/
theorem queued_in_range (s : Gate.State) (i current : Nat)
    (hs : (Gate.machine (gateLimits h)).Reachable (Gate.init (gateLimits h)) s)
    (hc : s.procs[i]? = some (.compareExchange current)) : current + 1 < 2 ^ 64 := by
  have hlt := (Gate.inv_reachable hs).exchange i current hc
  have hmax := (gateLimits h).maxQueue_lt
  omega

theorem startupDeadline_in_range {now : Instant} (hnow : now.IsReading) :
    (startupDeadline h now).isSome = true := by
  rw [startupDeadline, Timespec.isSome_checkedAdd_iff, Duration.inNanos_ofMillis]
  have hms := h.chromeStartupTimeout
  unfold Instant.IsReading at hnow
  omega

theorem drainBudget_in_range : (drainBudget h).isSome = true := by
  rw [drainBudget, Timespec.isSome_checkedAdd_iff, Duration.inNanos_ofMillis,
    Duration.inNanos_ofSecs]
  have hms := h.shutdownGracePeriod
  omega

end

theorem window_in_range {o o' : LaunchOptions} (h : o.validate = .ok o') :
    (Launch.viewport o').height.toNat + Viewport.windowChromeHeight.toNat < 2 ^ 32 := by
  obtain ⟨haccepted, rfl⟩ := LaunchOptions.accepted_of_validate h
  have hchrome : Viewport.windowChromeHeight.toNat = 87 := rfl
  have hheight : (Launch.viewport o').height.toNat ≤ 4320 := by
    unfold Launch.viewport
    cases hv : o'.viewport with
    | none =>
        show 720 ≤ 4320
        omega
    | some v =>
        have hgood := haccepted.viewport v hv
        simp only [LaunchOptions.badViewport, Bool.not_eq_false', Bool.and_eq_true,
          decide_eq_true_eq, UInt32.le_iff_toNat_le] at hgood
        exact hgood.2.2
  omega

/-! ## When nothing panics -/

theorem number_of_isBlank {bits : Nat} {s : String} (h : isBlank s = true) :
    number bits s = none := by
  rw [number, of_decide_eq_true h]
  rfl

/-- What a variable is read as, if it holds a number. -/
theorem envParse_of_number {env : Env} {name s : String} {bits default n : Nat}
    (hs : env.var name = .ok s) (hn : number bits s = some n) :
    envParse env (parseUnsigned bits) name default = .ok n := by
  have hblank : isBlank s = false := by
    by_contra hblank
    rw [number_of_isBlank (Bool.of_not_eq_false hblank)] at hn
    cases hn
  simp only [envParse, hs, hblank, Bool.false_eq_true, if_false]
  unfold number at hn
  cases hparse : parseUnsigned bits (trim s) with
  | error e =>
      rw [hparse] at hn
      cases hn
  | ok m =>
      rw [hparse] at hn
      rw [show m = n from Option.some.inj hn]
      rfl

theorem envParse_cases {env : Env} {name : String} {bits default value : Nat}
    (h : envParse env (parseUnsigned bits) name default = .ok value) :
    value = default ∨ ∃ s, env.var name = .ok s ∧ number bits s = some value := by
  unfold envParse at h
  split at h
  · rename_i raw hraw
    split at h
    · cases h
      exact Or.inl rfl
    · right
      refine ⟨raw, hraw, ?_⟩
      unfold number
      cases hparse : parseUnsigned bits (trim raw) with
      | error e =>
          rw [hparse] at h
          cases h
      | ok n =>
          rw [hparse] at h
          cases h
          rfl
  · cases h
    exact Or.inl rfl

/-- The permits are within the limit exactly when the variable asks for no more. -/
theorem maxConcurrentSessions_le_iff {env : Env} {cfg : Config} (h : Numbers env cfg) :
    cfg.maxConcurrentSessions ≤ maxPermits ↔
      ∀ s n, env.var "MAX_CONCURRENT_SESSIONS" = .ok s → number 64 s = some n → n ≤ maxPermits := by
  obtain ⟨sessions, hsessions, hpos⟩ := bind_eq_ok.mp h.maxConcurrentSessions
  have hvalue : sessions = cfg.maxConcurrentSessions := by
    split at hpos
    · cases hpos
    · exact Except.ok.inj hpos
  rw [hvalue] at hsessions
  constructor
  · intro hle s n hs hn
    rw [envParse_of_number hs hn] at hsessions
    rw [Except.ok.inj hsessions]
    exact hle
  · intro hall
    rcases envParse_cases hsessions with hdefault | ⟨s, hs, hn⟩
    · rw [hdefault, maxPermits]
      norm_num
    · exact hall s _ hs hn

/-- An accepted configuration never panics exactly when it asks for no more sessions than
the semaphore has permits. -/
theorem never_panics_iff {S : System} {cfg : Config} (h : fromEnv S = .ok cfg) :
    NeverPanics cfg (bounded_of_fromEnv h) ↔
      ∀ s n, S.env.var "MAX_CONCURRENT_SESSIONS" = .ok s → number 64 s = some n →
        n ≤ maxPermits := by
  rw [← maxConcurrentSessions_le_iff (numbers_of_fromEnv h)]
  constructor
  · intro hpanics
    have hsome := hpanics.semaphore
    unfold Gate.Shared.tryNew at hsome
    split at hsome
    · rename_i hle
      exact hle
    · cases hsome
  · intro hle
    have hb := bounded_of_fromEnv h
    refine ⟨?_, queued_in_range hb, fun now => startupDeadline_in_range hb, drainBudget_in_range hb,
      fun o o' => window_in_range⟩
    rw [Gate.Shared.tryNew, if_pos (show (gateLimits hb).maxSessions ≤ maxPermits from hle)]
    rfl

/-- A server that is to run as many sessions as the permits of the semaphore. -/
def fullEnv : Env
  | "MAX_CONCURRENT_SESSIONS" => some "2305843009213693951".toUTF8
  | _ => none

theorem never_panics_fullEnv :
    ∃ (cfg : Config) (h : fromEnv (plainSystem fullEnv) = .ok cfg),
      NeverPanics cfg (bounded_of_fromEnv h) := by
  obtain ⟨cfg, h⟩ : ∃ cfg, fromEnv (plainSystem fullEnv) = .ok cfg :=
    exists_of_isSome_toOption (by decide)
  refine ⟨cfg, h, (never_panics_iff h).mpr ?_⟩
  intro s n hs hn
  have hvar : (plainSystem fullEnv).env.var "MAX_CONCURRENT_SESSIONS" =
      .ok "2305843009213693951" := by decide
  rw [hvar] at hs
  rw [← Except.ok.inj hs] at hn
  have hnumber : number 64 "2305843009213693951" = some 2305843009213693951 := by decide
  rw [hnumber] at hn
  rw [← Option.some.inj hn, maxPermits]
  norm_num

/-- One session more. -/
def crowdedEnv : Env
  | "MAX_CONCURRENT_SESSIONS" => some "2305843009213693952".toUTF8
  | _ => none

/-- The configuration is accepted, and then there is no semaphore for it. -/
theorem panics_crowdedEnv :
    ∃ (cfg : Config) (h : fromEnv (plainSystem crowdedEnv) = .ok cfg),
      cfg.maxConcurrentSessions = 2305843009213693952 ∧
        Gate.Shared.tryNew (gateLimits (bounded_of_fromEnv h)) = none ∧
        ¬ NeverPanics cfg (bounded_of_fromEnv h) := by
  obtain ⟨cfg, h⟩ : ∃ cfg, fromEnv (plainSystem crowdedEnv) = .ok cfg :=
    exists_of_isSome_toOption (by decide)
  have hsessions : (fromEnv (plainSystem crowdedEnv)).toOption.map
      (fun cfg => cfg.maxConcurrentSessions) = some 2305843009213693952 := by decide
  rw [h] at hsessions
  have hcfg : cfg.maxConcurrentSessions = 2305843009213693952 := Option.some.inj hsessions
  have hnone : Gate.Shared.tryNew (gateLimits (bounded_of_fromEnv h)) = none := by
    have hmany : ¬ (gateLimits (bounded_of_fromEnv h)).maxSessions ≤ maxPermits := by
      show ¬ cfg.maxConcurrentSessions ≤ maxPermits
      rw [hcfg, maxPermits]
      norm_num
    rw [Gate.Shared.tryNew, if_neg hmany]
  refine ⟨cfg, h, hcfg, hnone, ?_⟩
  intro hpanics
  have hsome := hpanics.semaphore
  rw [hnone] at hsome
  cases hsome

end Config

end Pinokio
