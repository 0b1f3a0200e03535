/-
# Pinokio.Config.FailClosed -- when a configuration is the one that was set

Every variable is read in one of a few ways, and each way has its default. `Follows`
says of a field that it is the parse of what its variable is set to, and the default
only without a value. All fields do, of every accepted configuration, but for one
case: `std::env::var` does not tell a variable that is not set from one that is not
UTF-8 to a caller that only looks for `Ok`, and every reader is such a caller.
-/
import Pinokio.Config

namespace Pinokio.Config

open Text

/-! ## What a field owes to its variable -/

/-- What the field is when the variable is set to `s`. -/
def Parsed {α : Type} (parse : String → Option α) (default value : α) (s : String) : Prop :=
  if isBlank s then value = default else parse s = some value

/-- The field is the parse of the value that is set; the default is for a variable that is
not set, or blank. -/
def Follows {α : Type} (env : Env) (name : String) (parse : String → Option α)
    (default value : α) : Prop :=
  match env name with
  | none => value = default
  | some raw => ∃ s, String.fromUTF8? raw = some s ∧ Parsed parse default value s

def number (bits : Nat) (s : String) : Option Nat := (parseUnsigned bits (trim s)).toOption

def positive (bits : Nat) (s : String) : Option Nat := (number bits s).filter fun n => n ≠ 0

def text (s : String) : Option (Option String) := some (some (trim s))

def bool (s : String) : Option Bool := parseBool (asciiLower (trim s))

def httpUrl (s : String) : Option (Option String) :=
  if isHttpUrl (trim s) then some (some (trim s)) else none

def sha256 (s : String) : Option (Option String) :=
  if isSha256 (asciiLower (trim s)) then some (some (asciiLower (trim s))) else none

def words (s : String) : Option (List String) := some (splitWhitespace s)

def path (s : String) : Option (BrowserEngine × String) := some (.custom, trim s)

/-- Every variable that is read. -/
def variableNames : List String :=
  ["HOST", "PORT", "TOKEN", "MAX_CONCURRENT_SESSIONS", "MAX_QUEUE_LENGTH",
    "BROWSER_ARCHIVE_URL", "BROWSER_ARCHIVE_SHA256", "CHROME_PATH", "CHROME_EXTRA_ARGS",
    "LANGUAGE", "CONNECTION_TIMEOUT_MS", "QUEUE_TIMEOUT_MS", "CHROME_STARTUP_TIMEOUT_MS",
    "SHUTDOWN_GRACE_PERIOD_MS", "CHROME_HEADLESS", "CHROME_NO_SANDBOX",
    "CHROME_DISABLE_DEV_SHM_USAGE"]

/-- Every field follows its variable. -/
structure Faithful (S : System) (cfg : Config) : Prop where
  host : Follows S.env "HOST" IpAddr.parse (.v4 0 0 0 0) cfg.host
  port : Follows S.env "PORT" (positive 16) 3000 cfg.port
  token : Follows S.env "TOKEN" text none cfg.token
  maxConcurrentSessions :
    Follows S.env "MAX_CONCURRENT_SESSIONS" (positive 64) 10 cfg.maxConcurrentSessions
  maxQueueLength : Follows S.env "MAX_QUEUE_LENGTH" (number 64) 20 cfg.maxQueueLength
  archiveUrl :
    Follows S.env "BROWSER_ARCHIVE_URL" httpUrl none (cfg.browserArchive.map fun a => a.url)
  archiveSha256 :
    Follows S.env "BROWSER_ARCHIVE_SHA256" sha256 none (cfg.browserArchive.bind fun a => a.sha256)
  chromePath : Follows S.env "CHROME_PATH" path (defaultBrowser S cfg.browserArchive)
    (cfg.browserEngine, cfg.chromePath)
  chromeExtraArgs : Follows S.env "CHROME_EXTRA_ARGS" words [] cfg.chromeExtraArgs
  language : Follows S.env "LANGUAGE" text none cfg.language
  connectionTimeout :
    Follows S.env "CONNECTION_TIMEOUT_MS" (positive 64) 600000 cfg.connectionTimeout
  queueTimeout : Follows S.env "QUEUE_TIMEOUT_MS" (positive 64) 600000 cfg.queueTimeout
  chromeStartupTimeout :
    Follows S.env "CHROME_STARTUP_TIMEOUT_MS" (positive 64) 15000 cfg.chromeStartupTimeout
  shutdownGracePeriod :
    Follows S.env "SHUTDOWN_GRACE_PERIOD_MS" (positive 64) 10000 cfg.shutdownGracePeriod
  chromeHeadless : Follows S.env "CHROME_HEADLESS" bool true cfg.chromeHeadless
  chromeNoSandbox : Follows S.env "CHROME_NO_SANDBOX" bool true cfg.chromeNoSandbox
  chromeDisableDevShmUsage :
    Follows S.env "CHROME_DISABLE_DEV_SHM_USAGE" bool true cfg.chromeDisableDevShmUsage

/-! ## The ways of reading -/

section

variable {α : Type} {env : Env} {name : String} {parse : String → Option α} {default value : α}

theorem Follows.readable (h : Follows env name parse default value) : env.Readable name := by
  intro raw hraw
  rw [Follows, hraw] at h
  obtain ⟨s, hs, -⟩ := h
  exact ⟨s, hs⟩

/-- A variable that can be read is not set, or blank, or `var` returns a value for it. -/
theorem follows_of_var (hr : env.Readable name)
    (hunset : env.var name = .error .notPresent → value = default)
    (hblank : ∀ s, env.var name = .ok s → isBlank s = true → value = default)
    (hset : ∀ s, env.var name = .ok s → isBlank s = false → parse s = some value) :
    Follows env name parse default value := by
  cases hraw : env name with
  | none =>
      rw [Follows, hraw]
      apply hunset
      rw [Env.var, hraw]
  | some raw =>
      obtain ⟨s, hs⟩ := hr raw hraw
      have hvar : env.var name = .ok s := by
        rw [Env.var, hraw]
        simp only [hs]
      rw [Follows, hraw]
      refine ⟨s, hs, ?_⟩
      unfold Parsed
      split
      · rename_i h
        exact hblank s hvar h
      · rename_i h
        exact hset s hvar (by simpa using h)

theorem Parsed.filter {p : α → Bool} {s : String} (h : Parsed parse default value s)
    (hp : p value = true) : Parsed (fun s => (parse s).filter p) default value s := by
  unfold Parsed at h ⊢
  by_cases hblank : isBlank s = true
  · rw [if_pos hblank] at h ⊢
    exact h
  · rw [if_neg hblank] at h ⊢
    show (parse s).filter p = some value
    rw [h, Option.filter_some, if_pos hp]

theorem Follows.filter {p : α → Bool} (h : Follows env name parse default value)
    (hp : p value = true) : Follows env name (fun s => (parse s).filter p) default value := by
  unfold Follows at h ⊢
  split
  · rename_i hraw
    rwa [hraw] at h
  · rename_i raw hraw
    rw [hraw] at h
    obtain ⟨s, hs, hparsed⟩ := h
    exact ⟨s, hs, Parsed.filter hparsed hp⟩

end

section

variable {env : Env} {name : String}

theorem follows_envParse {bits default value : Nat} (hr : env.Readable name)
    (h : envParse env (parseUnsigned bits) name default = .ok value) :
    Follows env name (number bits) default value := by
  apply follows_of_var hr
  · intro hunset
    simp only [envParse, hunset] at h
    cases h
    rfl
  · intro s hs hblank
    simp only [envParse, hs, hblank, if_true] at h
    cases h
    rfl
  · intro s hs hblank
    simp only [envParse, hs, hblank, Bool.false_eq_true, if_false] at h
    unfold number
    cases hparse : parseUnsigned bits (trim s) with
    | error e =>
        rw [hparse] at h
        cases h
    | ok n =>
        rw [hparse] at h
        cases h
        rfl

theorem bind_eq_ok {ε α β : Type} {x : Except ε α} {f : α → Except ε β} {b : β} :
    (x >>= f) = .ok b ↔ ∃ a, x = .ok a ∧ f a = .ok b := by
  cases x with
  | error e =>
      constructor
      · intro h
        cases h
      · rintro ⟨a, h, -⟩
        cases h
  | ok a =>
      constructor
      · intro h
        exact ⟨a, rfl, h⟩
      · rintro ⟨a', h, hf⟩
        cases h
        exact hf

/-- A number that is refused when it is 0. -/
theorem follows_positive {bits default value : Nat} {e : ConfigError} (hr : env.Readable name)
    (h : (envParse env (parseUnsigned bits) name default >>= fun n =>
      if n = 0 then .error e else .ok n) = .ok value) :
    Follows env name (positive bits) default value := by
  obtain ⟨n, hn, h⟩ := bind_eq_ok.mp h
  split at h
  · cases h
  · rename_i hne
    cases h
    exact (follows_envParse hr hn).filter (by simpa using hne)

theorem follows_envBool {debug : String → String} {default value : Bool} (hr : env.Readable name)
    (h : envBool env debug name default = .ok value) :
    Follows env name bool default value := by
  apply follows_of_var hr
  · intro hunset
    simp only [envBool, hunset] at h
    cases h
    rfl
  · intro s hs hblank
    simp only [envBool, hs, hblank, if_true] at h
    cases h
    rfl
  · intro s hs hblank
    simp only [envBool, hs, hblank, Bool.false_eq_true, if_false] at h
    split at h
    · rename_i b hb
      cases h
      exact hb
    · cases h

theorem envTrimmed_blank {s : String} (hs : env.var name = .ok s) (hblank : isBlank s = true) :
    envTrimmed env name = none := by
  simp only [envTrimmed, hs, hblank, if_true]

theorem envTrimmed_set {s : String} (hs : env.var name = .ok s) (hblank : isBlank s = false) :
    envTrimmed env name = some (trim s) := by
  simp only [envTrimmed, hs, hblank, Bool.false_eq_true, if_false]

theorem envTrimmed_unset (h : env.var name = .error .notPresent) : envTrimmed env name = none := by
  simp only [envTrimmed, h]

theorem follows_envTrimmed (hr : env.Readable name) :
    Follows env name text none (envTrimmed env name) := by
  apply follows_of_var hr
  · exact envTrimmed_unset
  · intro s hs hblank
    exact envTrimmed_blank hs hblank
  · intro s hs hblank
    rw [envTrimmed_set hs hblank, text]

theorem follows_readChromeExtraArgs (hr : env.Readable "CHROME_EXTRA_ARGS") :
    Follows env "CHROME_EXTRA_ARGS" words [] (readChromeExtraArgs env) := by
  apply follows_of_var hr
  · intro hunset
    simp only [readChromeExtraArgs, hunset]
  · intro s hs hblank
    simp only [readChromeExtraArgs, hs]
    exact splitWhitespace_of_isBlank hblank
  · intro s hs hblank
    simp only [readChromeExtraArgs, hs, words]

/-- White space is no part of an address. -/
theorem digitValue_of_isWhitespace {c : Char} (h : isWhitespace c = true) :
    16 ≤ IpAddr.digitValue c ∧ c ≠ ':' := by
  simp only [isWhitespace, Bool.or_eq_true, Bool.and_eq_true, decide_eq_true_eq] at h
  refine ⟨?_, ?_⟩
  · have hdigit : ¬ c.isDigit = true := by
      rw [isDigit_iff]
      omega
    have hlower : ¬ ('a' ≤ c ∧ c ≤ 'f') := by
      rw [char_le_iff, char_le_iff]
      show ¬ (97 ≤ c.toNat ∧ c.toNat ≤ 102)
      omega
    have hupper : ¬ ('A' ≤ c ∧ c ≤ 'F') := by
      rw [char_le_iff, char_le_iff]
      show ¬ (65 ≤ c.toNat ∧ c.toNat ≤ 70)
      omega
    rw [IpAddr.digitValue, if_neg hdigit, if_neg hlower, if_neg hupper]
    decide
  · rintro rfl
    revert h
    decide

/-- A blank address is refused, so that there is no default to speak of. -/
theorem parse_of_isBlank {s : String} (h : isBlank s = true) : IpAddr.parse s = none :=
  IpAddr.parse_eq_none fun c hc => digitValue_of_isWhitespace (isBlank_iff.mp h c hc)

theorem follows_readHost {value : IpAddr} (hr : env.Readable "HOST")
    (h : readHost env = .ok value) :
    Follows env "HOST" IpAddr.parse (.v4 0 0 0 0) value := by
  have hset : ∀ s, env.var "HOST" = .ok s → envStr env "HOST" "0.0.0.0" = s := by
    intro s hs
    simp only [envStr, hs]
  apply follows_of_var hr
  · intro hunset
    have hdefault : envStr env "HOST" "0.0.0.0" = "0.0.0.0" := by
      simp only [envStr, hunset]
    have hparse : IpAddr.parse "0.0.0.0" = some (.v4 0 0 0 0) := by decide
    rw [readHost, hdefault, hparse] at h
    cases h
    rfl
  · intro s hs hblank
    rw [readHost, hset s hs, parse_of_isBlank hblank] at h
    cases h
  · intro s hs _
    rw [readHost, hset s hs] at h
    split at h
    · rename_i ip hip
      cases h
      exact hip
    · cases h

theorem archiveUrl_eq : archiveUrl env = envTrimmed env "BROWSER_ARCHIVE_URL" := by
  unfold archiveUrl envTrimmed
  cases env.var "BROWSER_ARCHIVE_URL" with
  | error e => rfl
  | ok raw =>
      by_cases hempty : trim raw = ""
      · simp [Except.toOption, isBlank, hempty]
      · simp [Except.toOption, isBlank, hempty]

theorem archiveSha256_eq :
    archiveSha256 env = (envTrimmed env "BROWSER_ARCHIVE_SHA256").map asciiLower := by
  unfold archiveSha256 envTrimmed
  cases env.var "BROWSER_ARCHIVE_SHA256" with
  | error e => rfl
  | ok raw =>
      by_cases hempty : trim raw = ""
      · simp [Except.toOption, isBlank, hempty, asciiLower]
      · have hlower : asciiLower (trim raw) ≠ "" := by
          intro h
          exact hempty (asciiLower_eq_empty.mp h)
        simp [Except.toOption, isBlank, hempty, hlower]

/-- What an accepted archive is made of. -/
theorem readBrowserArchive_inv {archive : Option Config.BrowserArchive}
    (h : readBrowserArchive env = .ok archive) :
    archive.map (fun a => a.url) = archiveUrl env ∧
      archive.bind (fun a => a.sha256) = archiveSha256 env ∧
      (∀ url, archiveUrl env = some url → isHttpUrl url = true) ∧
      ∀ hash, archiveSha256 env = some hash → isSha256 hash = true := by
  unfold readBrowserArchive at h
  split at h
  · rename_i hurl hsha
    cases h
    rw [hurl, hsha]
    exact ⟨rfl, rfl, (fun _ h => by cases h), (fun _ h => by cases h)⟩
  · rename_i url sha hurl
    split at h
    · cases h
    · rename_i hhttp
      split at h
      · cases h
      · rename_i hhash
        cases h
        rw [hurl]
        refine ⟨rfl, rfl, ?_, ?_⟩
        · intro url' h
          cases h
          simpa using hhttp
        · intro hash hsome
          simpa [hsome] using hhash
  · cases h

theorem follows_archiveUrl {archive : Option Config.BrowserArchive}
    (hr : env.Readable "BROWSER_ARCHIVE_URL") (h : readBrowserArchive env = .ok archive) :
    Follows env "BROWSER_ARCHIVE_URL" httpUrl none (archive.map fun a => a.url) := by
  obtain ⟨hvalue, -, hhttp, -⟩ := readBrowserArchive_inv h
  rw [hvalue, archiveUrl_eq] at *
  apply follows_of_var hr
  · exact envTrimmed_unset
  · intro s hs hblank
    exact envTrimmed_blank hs hblank
  · intro s hs hblank
    rw [envTrimmed_set hs hblank] at hhttp ⊢
    rw [httpUrl, if_pos (hhttp _ rfl)]

theorem follows_archiveSha256 {archive : Option Config.BrowserArchive}
    (hr : env.Readable "BROWSER_ARCHIVE_SHA256") (h : readBrowserArchive env = .ok archive) :
    Follows env "BROWSER_ARCHIVE_SHA256" sha256 none (archive.bind fun a => a.sha256) := by
  obtain ⟨-, hvalue, -, hhash⟩ := readBrowserArchive_inv h
  rw [hvalue, archiveSha256_eq] at *
  apply follows_of_var hr
  · intro hunset
    rw [envTrimmed_unset hunset, Option.map_none]
  · intro s hs hblank
    rw [envTrimmed_blank hs hblank, Option.map_none]
  · intro s hs hblank
    rw [envTrimmed_set hs hblank, Option.map_some] at hhash ⊢
    rw [sha256, if_pos (hhash _ rfl)]

end

theorem follows_readBrowser {S : System} {archive : Option Config.BrowserArchive}
    {browser : BrowserEngine × String} (hr : S.env.Readable "CHROME_PATH")
    (h : readBrowser S archive = .ok browser) :
    Follows S.env "CHROME_PATH" path (defaultBrowser S archive) browser := by
  have hchosen : chooseBrowser S archive = browser := by
    simp only [readBrowser] at h
    split at h
    · cases h
    · cases h
      rfl
  rw [← hchosen]
  apply follows_of_var hr
  · intro hunset
    simp only [chooseBrowser, hunset]
  · intro s hs hblank
    simp only [chooseBrowser, hs, hblank, if_true]
  · intro s hs hblank
    simp only [chooseBrowser, hs, hblank, Bool.false_eq_true, if_false, path]

/-! ## Accepted configurations -/

/-- When a configuration is the one that was set: exactly when every variable that is
read and set is UTF-8. -/
theorem fail_closed_iff {S : System} {cfg : Config} (h : fromEnv S = .ok cfg) :
    Faithful S cfg ↔ ∀ name ∈ variableNames, S.env.Readable name := by
  constructor
  · intro hf
    simp only [variableNames, List.forall_mem_cons, List.not_mem_nil, false_implies, implies_true,
      and_true]
    exact ⟨hf.host.readable, hf.port.readable, hf.token.readable,
      hf.maxConcurrentSessions.readable, hf.maxQueueLength.readable, hf.archiveUrl.readable,
      hf.archiveSha256.readable, hf.chromePath.readable, hf.chromeExtraArgs.readable,
      hf.language.readable, hf.connectionTimeout.readable, hf.queueTimeout.readable,
      hf.chromeStartupTimeout.readable, hf.shutdownGracePeriod.readable,
      hf.chromeHeadless.readable, hf.chromeNoSandbox.readable,
      hf.chromeDisableDevShmUsage.readable⟩
  · intro hr
    simp only [fromEnv, bind_eq_ok] at h
    obtain ⟨host, hhost, port, hport, sessions, hsessions, queue, hqueue, archive, harchive,
      browser, hbrowser, connection, hconnection, queueTimeout, hqueueTimeout, startup, hstartup,
      grace, hgrace, headless, hheadless, sandbox, hsandbox, shm, hshm, h⟩ := h
    cases h
    exact
      { host := follows_readHost (hr _ (by decide)) hhost
        port := follows_positive (hr _ (by decide)) hport
        token := follows_envTrimmed (hr _ (by decide))
        maxConcurrentSessions := follows_positive (hr _ (by decide)) hsessions
        maxQueueLength := follows_envParse (hr _ (by decide)) hqueue
        archiveUrl := follows_archiveUrl (hr _ (by decide)) harchive
        archiveSha256 := follows_archiveSha256 (hr _ (by decide)) harchive
        chromePath := follows_readBrowser (hr _ (by decide)) hbrowser
        chromeExtraArgs := follows_readChromeExtraArgs (hr _ (by decide))
        language := follows_envTrimmed (hr _ (by decide))
        connectionTimeout := follows_positive (hr _ (by decide)) hconnection
        queueTimeout := follows_positive (hr _ (by decide)) hqueueTimeout
        chromeStartupTimeout := follows_positive (hr _ (by decide)) hstartup
        shutdownGracePeriod := follows_positive (hr _ (by decide)) hgrace
        chromeHeadless := follows_envBool (hr _ (by decide)) hheadless
        chromeNoSandbox := follows_envBool (hr _ (by decide)) hsandbox
        chromeDisableDevShmUsage := follows_envBool (hr _ (by decide)) hshm }

/-! ## A token that is read and one that is not -/

theorem exists_of_isSome_toOption {ε α : Type} {x : Except ε α}
    (h : x.toOption.isSome = true) : ∃ a, x = .ok a := by
  cases x with
  | ok a => exact ⟨a, rfl⟩
  | error e => cases h

/-- A server with the bundled Chromium only, and these variables. -/
def plainSystem (env : Env) : System where
  env := env
  isFile file := file = bundledChromiumPath
  archives := { sha256 := fun _ => "", dirMode := 0o755, member := fun _ _ _ _ => .finished }
  debug s := s

def setEnv : Env
  | "PORT" => some " 8080".toUTF8
  | "TOKEN" => some "secret ".toUTF8
  | _ => none

theorem fail_closed_iff_setEnv :
    ∃ cfg, fromEnv (plainSystem setEnv) = .ok cfg ∧ Faithful (plainSystem setEnv) cfg := by
  obtain ⟨cfg, h⟩ : ∃ cfg, fromEnv (plainSystem setEnv) = .ok cfg :=
    exists_of_isSome_toOption (by decide)
  refine ⟨cfg, h, (fail_closed_iff h).mpr ?_⟩
  intro name _ raw hraw
  have hset : raw = " 8080".toUTF8 ∨ raw = "secret ".toUTF8 := by
    simp only [plainSystem, setEnv] at hraw
    split at hraw
    · cases hraw
      exact Or.inl rfl
    · cases hraw
      exact Or.inr rfl
    · cases hraw
  rcases hset with rfl | rfl
  · exact ⟨" 8080", by decide⟩
  · exact ⟨"secret ", by decide⟩

/-- A token in Latin-1: the last byte is no UTF-8. -/
def latinEnv : Env
  | "TOKEN" => some ⟨#[0x63, 0x61, 0x66, 0xe9]⟩
  | _ => none

/-- The server starts with authentication disabled. -/
theorem fails_open_latinEnv :
    ∃ cfg, fromEnv (plainSystem latinEnv) = .ok cfg ∧ cfg.token = none ∧
      ¬ Faithful (plainSystem latinEnv) cfg := by
  obtain ⟨cfg, h⟩ : ∃ cfg, fromEnv (plainSystem latinEnv) = .ok cfg :=
    exists_of_isSome_toOption (by decide)
  have htoken : (fromEnv (plainSystem latinEnv)).toOption.map (fun cfg => cfg.token) =
      some none := by decide
  rw [h] at htoken
  refine ⟨cfg, h, Option.some.inj htoken, ?_⟩
  intro hf
  obtain ⟨s, hs⟩ := hf.token.readable _ rfl
  have hnone : String.fromUTF8? ⟨#[0x63, 0x61, 0x66, 0xe9]⟩ = none := by decide
  rw [hnone] at hs
  cases hs

end Pinokio.Config
