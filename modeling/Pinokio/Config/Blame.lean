/-
# Pinokio.Config.Blame -- what the error of a refused configuration says

`from_env` stops at the first reader that fails, and the error names a variable.
`refused_for_cause` is that the name is the cause: as long as this variable keeps its value,
and those that its check looks at beside it, no change to the others gets the configuration
accepted.
-/
import Pinokio.Config.FailClosed

namespace Pinokio.Config

open Text

variable {env env' : Env} {name : String}

theorem bind_eq_error {ε α β : Type} {x : Except ε α} {f : α → Except ε β} {e : ε} :
    (x >>= f) = .error e ↔ x = .error e ∨ ∃ a, x = .ok a ∧ f a = .error e := by
  cases x with
  | error e' => simp [bind, Except.bind]
  | ok a => simp [bind, Except.bind]

/-! ## Which reader failed -/

/-- The variables that are read as positive durations, with their defaults. -/
def durations : List (String × Nat) :=
  [("CONNECTION_TIMEOUT_MS", 600000), ("QUEUE_TIMEOUT_MS", 600000),
    ("CHROME_STARTUP_TIMEOUT_MS", 15000), ("SHUTDOWN_GRACE_PERIOD_MS", 10000)]

/-- Those that are read as booleans. -/
def booleans : List (String × Bool) :=
  [("CHROME_HEADLESS", true), ("CHROME_NO_SANDBOX", true), ("CHROME_DISABLE_DEV_SHM_USAGE", true)]

/-- A reader of `from_env` fails with this error. -/
inductive Refused (S : System) (e : ConfigError) : Prop
  | host (h : readHost S.env = .error e)
  | port (h : readPort S.env = .error e)
  | maxConcurrentSessions (h : readMaxConcurrentSessions S.env = .error e)
  | maxQueueLength (h : envParse S.env (parseUnsigned 64) "MAX_QUEUE_LENGTH" 20 = .error e)
  | browserArchive (h : readBrowserArchive S.env = .error e)
  | browser (archive) (harchive : readBrowserArchive S.env = .ok archive)
      (h : readBrowser S archive = .error e)
  | duration (d) (hd : d ∈ durations) (h : envDurationMs S.env d.1 d.2 = .error e)
  | boolean (b) (hb : b ∈ booleans) (h : envBool S.env S.debug b.1 b.2 = .error e)

theorem refused_of_fromEnv {S : System} {e : ConfigError} (h : fromEnv S = .error e) :
    Refused S e := by
  unfold fromEnv at h
  rcases bind_eq_error.mp h with h | ⟨_, -, h⟩
  · exact .host h
  rcases bind_eq_error.mp h with h | ⟨_, -, h⟩
  · exact .port h
  rcases bind_eq_error.mp h with h | ⟨_, -, h⟩
  · exact .maxConcurrentSessions h
  rcases bind_eq_error.mp h with h | ⟨_, -, h⟩
  · exact .maxQueueLength h
  rcases bind_eq_error.mp h with h | ⟨_, harchive, h⟩
  · exact .browserArchive h
  rcases bind_eq_error.mp h with h | ⟨_, -, h⟩
  · exact .browser _ harchive h
  rcases bind_eq_error.mp h with h | ⟨_, -, h⟩
  · exact .duration ("CONNECTION_TIMEOUT_MS", 600000) (by decide) h
  rcases bind_eq_error.mp h with h | ⟨_, -, h⟩
  · exact .duration ("QUEUE_TIMEOUT_MS", 600000) (by decide) h
  rcases bind_eq_error.mp h with h | ⟨_, -, h⟩
  · exact .duration ("CHROME_STARTUP_TIMEOUT_MS", 15000) (by decide) h
  rcases bind_eq_error.mp h with h | ⟨_, -, h⟩
  · exact .duration ("SHUTDOWN_GRACE_PERIOD_MS", 10000) (by decide) h
  rcases bind_eq_error.mp h with h | ⟨_, -, h⟩
  · exact .boolean ("CHROME_HEADLESS", true) (by decide) h
  rcases bind_eq_error.mp h with h | ⟨_, -, h⟩
  · exact .boolean ("CHROME_NO_SANDBOX", true) (by decide) h
  rcases bind_eq_error.mp h with h | ⟨_, -, h⟩
  · exact .boolean ("CHROME_DISABLE_DEV_SHM_USAGE", true) (by decide) h
  cases h

/-- One reader that fails is enough. -/
theorem not_accepted {S : System} {e : ConfigError} (h : Refused S e) (cfg : Config) :
    fromEnv S ≠ .ok cfg := by
  intro hok
  simp only [fromEnv, bind_eq_ok] at hok
  obtain ⟨_, hhost, _, hport, _, hsessions, _, hqueue, _, harchive, _, hbrowser, _, hconnection, _,
    hqueueTimeout, _, hstartup, _, hgrace, _, hheadless, _, hsandbox, _, hshm, -⟩ := hok
  have hne : ∀ {α : Type} {x : Except ConfigError α} {a : α}, x = .ok a → x ≠ .error e := by
    intro α x a hx hx'
    rw [hx] at hx'
    cases hx'
  cases h with
  | host h => exact hne hhost h
  | port h => exact hne hport h
  | maxConcurrentSessions h => exact hne hsessions h
  | maxQueueLength h => exact hne hqueue h
  | browserArchive h => exact hne harchive h
  | browser archive harchive' h =>
      obtain rfl := Except.ok.inj (harchive.symm.trans harchive')
      exact hne hbrowser h
  | duration d hd h =>
      simp only [durations, List.mem_cons, List.not_mem_nil, or_false] at hd
      rcases hd with rfl | rfl | rfl | rfl
      · exact hne hconnection h
      · exact hne hqueueTimeout h
      · exact hne hstartup h
      · exact hne hgrace h
  | boolean b hb h =>
      simp only [booleans, List.mem_cons, List.not_mem_nil, or_false] at hb
      rcases hb with rfl | rfl | rfl
      · exact hne hheadless h
      · exact hne hsandbox h
      · exact hne hshm h

/-! ## The variable it names -/

/-- The error is about this variable, and the variable is set to a text. -/
def Names (env : Env) (name : String) (e : ConfigError) : Prop :=
  (∃ reason, e = .invalid name reason) ∧ ∃ s, env.var name = .ok s

theorem Names.eq {name' reason : String} (h : Names env name (.invalid name' reason)) :
    name' = name := by
  obtain ⟨⟨_, heq⟩, -⟩ := h
  exact (ConfigError.invalid.inj heq).1

theorem names_envParse {bits default : Nat} {e : ConfigError}
    (h : envParse env (parseUnsigned bits) name default = .error e) : Names env name e := by
  unfold envParse at h
  split at h
  · rename_i raw hraw
    split at h
    · cases h
    · cases hparse : parseUnsigned bits (trim raw) with
      | ok n =>
          rw [hparse] at h
          cases h
      | error e' =>
          rw [hparse] at h
          cases h
          exact ⟨⟨_, rfl⟩, raw, hraw⟩
  · cases h

/-- A number whose default is positive, and that is refused when it is 0. -/
theorem names_positive {bits default : Nat} {reason : String} {e : ConfigError}
    (hdefault : default ≠ 0)
    (h : (envParse env (parseUnsigned bits) name default >>= fun n =>
      if n = 0 then .error (.invalid name reason) else .ok n) = .error e) : Names env name e := by
  rcases bind_eq_error.mp h with h | ⟨n, hn, h⟩
  · exact names_envParse h
  · split at h
    · rename_i hzero
      cases h
      refine ⟨⟨reason, rfl⟩, ?_⟩
      unfold envParse at hn
      split at hn
      · rename_i raw hraw
        exact ⟨raw, hraw⟩
      · cases hn
        exact absurd hzero hdefault
    · cases h

theorem names_envBool {debug : String → String} {default : Bool} {e : ConfigError}
    (h : envBool env debug name default = .error e) : Names env name e := by
  unfold envBool at h
  split at h
  · rename_i raw hraw
    split at h
    · cases h
    · dsimp only at h
      split at h
      · cases h
      · cases h
        exact ⟨⟨_, rfl⟩, raw, hraw⟩
  · cases h

theorem names_readHost {e : ConfigError} (h : readHost env = .error e) : Names env "HOST" e := by
  unfold readHost at h
  split at h
  · cases h
  · rename_i hparse
    cases h
    refine ⟨⟨_, rfl⟩, ?_⟩
    cases hvar : env.var "HOST" with
    | ok s => exact ⟨s, rfl⟩
    | error e =>
        -- the default is an address
        have hdefault : IpAddr.parse "0.0.0.0" ≠ none := by decide
        rw [envStr, hvar] at hparse
        exact absurd hparse hdefault

theorem ne_zero_of_mem_durations {d : String × Nat} (hd : d ∈ durations) : d.2 ≠ 0 := by
  revert d
  decide

/-! ## What its check looks at -/

/-- The variables that decide whether the one of this name is accepted: those of the archive
are checked together, and the path of the browser has a default that depends on them. -/
def causes (name : String) : List String :=
  if name = "BROWSER_ARCHIVE_URL" then ["BROWSER_ARCHIVE_URL", "BROWSER_ARCHIVE_SHA256"]
  else if name = "CHROME_PATH" then
    ["CHROME_PATH", "BROWSER_ARCHIVE_URL", "BROWSER_ARCHIVE_SHA256"]
  else [name]

theorem mem_causes (name : String) : name ∈ causes name := by
  unfold causes
  split
  · simp_all
  · split
    · simp_all
    · simp

theorem envParse_congr {α : Type} (parse : String → Except ParseIntError α) (default : α)
    (h : env'.var name = env.var name) :
    envParse env' parse name default = envParse env parse name default := by
  unfold envParse
  rw [h]

theorem envBool_congr (debug : String → String) (default : Bool)
    (h : env'.var name = env.var name) :
    envBool env' debug name default = envBool env debug name default := by
  unfold envBool
  rw [h]

theorem archiveUrl_congr (h : env'.var "BROWSER_ARCHIVE_URL" = env.var "BROWSER_ARCHIVE_URL") :
    archiveUrl env' = archiveUrl env := by
  unfold archiveUrl
  rw [h]

theorem archiveSha256_congr
    (h : env'.var "BROWSER_ARCHIVE_SHA256" = env.var "BROWSER_ARCHIVE_SHA256") :
    archiveSha256 env' = archiveSha256 env := by
  unfold archiveSha256
  rw [h]

/-- The archive is refused for its URL, for the lack of one, or for its hash. -/
theorem readBrowserArchive_error {e : ConfigError} (h : readBrowserArchive env = .error e) :
    (∃ reason, e = .invalid "BROWSER_ARCHIVE_URL" reason) ∨
      ((∃ reason, e = .invalid "BROWSER_ARCHIVE_SHA256" reason) ∧
        ∃ hash, archiveSha256 env = some hash ∧ isSha256 hash = false) := by
  unfold readBrowserArchive at h
  split at h
  · cases h
  · rename_i url sha hurl
    split at h
    · cases h
      exact Or.inl ⟨_, rfl⟩
    · split at h
      · rename_i hany
        cases h
        refine Or.inr ⟨⟨_, rfl⟩, ?_⟩
        cases hsha : archiveSha256 env with
        | none =>
            rw [hsha] at hany
            cases hany
        | some hash =>
            rw [hsha] at hany
            exact ⟨hash, rfl, by simpa using hany⟩
      · cases h
  · cases h
    exact Or.inl ⟨_, rfl⟩

/-- A hash that is none is refused with any URL, and without one. -/
theorem readBrowserArchive_of_bad_hash {hash : String} (h : archiveSha256 env = some hash)
    (hbad : isSha256 hash = false) : ∃ e, readBrowserArchive env = .error e := by
  unfold readBrowserArchive
  rw [h]
  cases archiveUrl env with
  | none => exact ⟨_, rfl⟩
  | some url =>
      simp only [Option.any_some, hbad, Bool.not_false, if_true]
      split <;> exact ⟨_, rfl⟩

theorem chooseBrowser_congr {S : System} (archive : Option Config.BrowserArchive)
    (h : env'.var "CHROME_PATH" = S.env.var "CHROME_PATH") :
    chooseBrowser { S with env := env' } archive = chooseBrowser S archive := by
  unfold chooseBrowser
  rw [show ({ S with env := env' } : System).env = env' from rfl, h]
  rfl

theorem name_of_readBrowser {S : System} {archive : Option Config.BrowserArchive}
    {name reason : String} (h : readBrowser S archive = .error (.invalid name reason)) :
    name = "CHROME_PATH" := by
  unfold readBrowser at h
  dsimp only at h
  split at h
  · cases h
    rfl
  · cases h

/-- The reader that failed fails again. -/
theorem refused_congr {S : System} {name reason : String} (h : Refused S (.invalid name reason))
    (hsame : ∀ v ∈ causes name, env'.var v = S.env.var v) :
    ∃ e, Refused { S with env := env' } e := by
  have hself : env'.var name = S.env.var name := hsame name (mem_causes name)
  cases h with
  | host h =>
      obtain rfl := (names_readHost h).eq
      have hagain : readHost env' = readHost S.env := by
        rw [readHost, readHost, envStr, envStr, hself]
      exact ⟨_, .host (hagain.trans h)⟩
  | port h =>
      obtain rfl := (names_positive (by decide) h).eq
      have hagain : readPort env' = readPort S.env := by
        rw [readPort, readPort, envParse_congr _ _ hself]
      exact ⟨_, .port (hagain.trans h)⟩
  | maxConcurrentSessions h =>
      obtain rfl := (names_positive (by decide) h).eq
      have hagain : readMaxConcurrentSessions env' = readMaxConcurrentSessions S.env := by
        rw [readMaxConcurrentSessions, readMaxConcurrentSessions, envParse_congr _ _ hself]
      exact ⟨_, .maxConcurrentSessions (hagain.trans h)⟩
  | maxQueueLength h =>
      obtain rfl := (names_envParse h).eq
      exact ⟨_, .maxQueueLength ((envParse_congr _ _ hself).trans h)⟩
  | browserArchive h =>
      rcases readBrowserArchive_error h with ⟨_, heq⟩ | ⟨⟨_, heq⟩, hash, hhash, hbad⟩
      · obtain rfl := (ConfigError.invalid.inj heq).1
        have hagain : readBrowserArchive env' = readBrowserArchive S.env := by
          rw [readBrowserArchive, readBrowserArchive, archiveUrl_congr hself,
            archiveSha256_congr (hsame _ (by decide))]
        exact ⟨_, .browserArchive (hagain.trans h)⟩
      · obtain rfl := (ConfigError.invalid.inj heq).1
        obtain ⟨e, he⟩ := readBrowserArchive_of_bad_hash
          ((archiveSha256_congr hself).trans hhash) hbad
        exact ⟨e, .browserArchive he⟩
  | browser archive harchive h =>
      obtain rfl := name_of_readBrowser h
      have hagain : readBrowserArchive env' = readBrowserArchive S.env := by
        rw [readBrowserArchive, readBrowserArchive, archiveUrl_congr (hsame _ (by decide)),
          archiveSha256_congr (hsame _ (by decide))]
      refine ⟨_, .browser archive (hagain.trans harchive) (Eq.trans ?_ h)⟩
      rw [readBrowser, readBrowser, chooseBrowser_congr archive hself]
  | duration d hd h =>
      obtain rfl := (names_positive (ne_zero_of_mem_durations hd) h).eq
      have hagain : envDurationMs env' d.1 d.2 = envDurationMs S.env d.1 d.2 := by
        rw [envDurationMs, envDurationMs, envParse_congr _ _ hself]
      exact ⟨_, .duration d hd (hagain.trans h)⟩
  | boolean b hb h =>
      obtain rfl := (names_envBool h).eq
      exact ⟨_, .boolean b hb ((envBool_congr S.debug _ hself).trans h)⟩

theorem isSet_of_archiveSha256 {hash : String} (h : archiveSha256 env = some hash) :
    ∃ s, env.var "BROWSER_ARCHIVE_SHA256" = .ok s := by
  cases hvar : env.var "BROWSER_ARCHIVE_SHA256" with
  | ok s => exact ⟨s, rfl⟩
  | error e =>
      rw [archiveSha256, hvar] at h
      cases h

/-- Where the check looks at nothing else, the variable is set to a text. -/
theorem isSet_of_refused {S : System} {name reason : String}
    (h : Refused S (.invalid name reason)) (hname : causes name = [name]) :
    ∃ s, S.env.var name = .ok s := by
  have hnames : ∀ {name' : String}, Names S.env name' (.invalid name reason) →
      ∃ s, S.env.var name = .ok s := by
    intro name' h
    rw [h.eq]
    exact h.2
  cases h with
  | host h => exact hnames (names_readHost h)
  | port h => exact hnames (names_positive (by decide) h)
  | maxConcurrentSessions h => exact hnames (names_positive (by decide) h)
  | maxQueueLength h => exact hnames (names_envParse h)
  | browserArchive h =>
      rcases readBrowserArchive_error h with ⟨_, heq⟩ | ⟨⟨_, heq⟩, hash, hhash, -⟩
      · obtain rfl := (ConfigError.invalid.inj heq).1
        exact absurd hname (by decide)
      · obtain rfl := (ConfigError.invalid.inj heq).1
        exact isSet_of_archiveSha256 hhash
  | browser archive harchive h =>
      obtain rfl := name_of_readBrowser h
      exact absurd hname (by decide)
  | duration d hd h => exact hnames (names_positive (ne_zero_of_mem_durations hd) h)
  | boolean b hb h => exact hnames (names_envBool h)

/-- An error names its cause: whatever else is changed, the configuration is refused for as
long as this variable keeps its value, and those that its check looks at beside it; where
there is none beside it, the variable is set. -/
theorem refused_for_cause {S : System} {name reason : String}
    (h : fromEnv S = .error (.invalid name reason)) :
    (∀ env', (∀ v ∈ causes name, env'.var v = S.env.var v) →
      ∃ e, fromEnv { S with env := env' } = .error e) ∧
    (causes name = [name] → ∃ s, S.env.var name = .ok s) := by
  have hrefused := refused_of_fromEnv h
  refine ⟨fun env' hsame => ?_, isSet_of_refused hrefused⟩
  obtain ⟨e, he⟩ := refused_congr hrefused hsame
  cases hresult : fromEnv { S with env := env' } with
  | error e' => exact ⟨e', rfl⟩
  | ok cfg => exact absurd hresult (not_accepted he cfg)

/-- A port that no variable beside it makes a valid one. -/
def zeroPort : Env
  | "PORT" => some " 0 ".toUTF8
  | "TOKEN" => some "secret".toUTF8
  | _ => none

theorem refused_for_cause_zeroPort :
    fromEnv (plainSystem zeroPort) = .error (.invalid "PORT" "must be between 1 and 65535") ∧
    ∀ env' : Env, env'.var "PORT" = zeroPort.var "PORT" →
      ∃ e, fromEnv { plainSystem zeroPort with env := env' } = .error e := by
  have herror : fromEnv (plainSystem zeroPort) =
      .error (.invalid "PORT" "must be between 1 and 65535") := by
    rfl
  refine ⟨herror, fun env' hsame => (refused_for_cause herror).1 env' fun v hv => ?_⟩
  obtain rfl : v = "PORT" := by simpa [causes] using hv
  exact hsame

end Pinokio.Config
