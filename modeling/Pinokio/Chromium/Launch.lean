/-
# Pinokio.Chromium.Launch -- the command that starts a Chromium (`chromium.rs`)

The arguments and the environment that `launch` gives to Chromium, from the server's
configuration and environment, the version of the browser, the user data dir of the
session and the client's options.
-/
import Pinokio.Chromium.LaunchOptions
import Pinokio.Config

namespace Pinokio

open Text

/-- Headed-desktop equivalent of the binary's headless UA. -/
def defaultUserAgent (browserVersion : Option String) : String :=
  let major := ((browserVersion.bind fun version => (split (fun c => c = '.') version).head?).filter
    fun major => major ≠ "" && major.toList.all Char.isDigit).getD "0"
  "Mozilla/5.0 (X11; Linux x86_64) AppleWebKit/537.36 (KHTML, like Gecko) Chrome/" ++ major ++
    ".0.0.0 Safari/537.36"

/-- A size as two numbers with something between. -/
def showSize (size : UInt32 × UInt32) (between : String) : String :=
  toString size.1.toNat ++ between ++ toString size.2.toNat

/-- A process to start: its program, its arguments and the variables that are set for it. -/
structure Command where
  program : String
  args : List String
  envs : List (String × String)
  deriving DecidableEq, Repr

/-- What the started process finds in its environment; the rest is inherited. -/
def Command.childEnv (command : Command) (env : Env) : Env := fun name =>
  match command.envs.lookup name with
  | some value => some value.toUTF8
  | none => env name

namespace Launch

/-! ## Arguments -/

/-- `--no-first-run` and what follows it. -/
def fixedArgs : List String :=
  ["--no-first-run", "--no-default-browser-check", "--disable-background-networking",
    "--disable-component-update", "--disable-sync", "--metrics-recording-only",
    "--disable-default-apps"]

def desktopArgs : List String :=
  ["--headless=new", "--disable-blink-features=AutomationControlled",
    "--blink-settings=primaryPointerType=4,availablePointerTypes=4,primaryHoverType=2,availableHoverTypes=2",
    "--use-fake-device-for-media-stream"]

section

variable (config : Config) (browserVersion : Option String) (userDataDir : String)
  (o : LaunchOptions)

def viewport : Viewport := o.viewport.getD Viewport.defaultViewport

def headlessArgs : List String :=
  if config.chromeHeadless then
    desktopArgs ++ ["--window-size=" ++ showSize (viewport o).windowSize ",",
      "--screen-info=" ++ ("\x7b" ++ showSize (viewport o).screenSize "x" ++ "\x7d")]
  else []

def userAgent : String := o.userAgent.getD (defaultUserAgent browserVersion)

/-- Per-session acceptLanguage wins over the server-wide LANGUAGE variable. -/
def language : Option String := o.acceptLanguage.or config.language

/-- The primary tag and the list of tags. -/
def languages : Option (String × String) := (language config o).bind languageArgs

def languageEnv : Option String := (languages config o).map Prod.fst

def languageFlags : List String :=
  match languages config o with
  | some (primary, accept) => ["--lang=" ++ primary, "--accept-lang=" ++ accept]
  | none => []

/-- The arguments before those of `CHROME_EXTRA_ARGS`. -/
def ownArgs : List String :=
  headlessArgs config o ++
    ["--user-agent=" ++ userAgent browserVersion o, "--remote-debugging-port=0",
      "--user-data-dir=" ++ userDataDir] ++
    fixedArgs ++
    (if config.chromeNoSandbox then ["--no-sandbox"] else []) ++
    (if config.chromeDisableDevShmUsage then ["--disable-dev-shm-usage"] else []) ++
    languageFlags config o ++
    (o.proxyServer.map fun s => "--proxy-server=" ++ s).toList ++
    (o.proxyBypassList.map fun s => "--proxy-bypass-list=" ++ s).toList ++
    if o.disableWebSecurity = some true then ["--disable-web-security"] else []

def args : List String := ownArgs config browserVersion userDataDir o ++ config.chromeExtraArgs

/-! ## Environment -/

/-- The server's own `TZ`, which Chromium inherits. -/
def serverTimezone (env : Env) : Option String :=
  (env.var "TZ").toOption.filter fun tz => !isBlank tz

/-- The zone that is set for Chromium. Session zone first, then the server's own `TZ`
(inherited), then a zone plausible for the language. -/
def timezone (env : Env) : Option String :=
  o.timezone.or
    (if (serverTimezone env).isSome then none
    else some (((languageEnv config o).bind timezoneForLanguage).getD "UTC"))

/-- The command of `launch`. -/
def command (env : Env) : Command where
  program := config.chromePath
  args := args config browserVersion userDataDir o
  envs :=
    ((timezone config o env).map fun tz => ("TZ", tz)).toList ++
      ((languageEnv config o).map fun primary => ("LANGUAGE", primary)).toList

/-- What Chromium finds in its environment. -/
def childEnv (env : Env) : Env :=
  (command config browserVersion userDataDir o env).childEnv env

end

/-- The zone that is set for Chromium is one. -/
theorem isTimezone_timezone {config : Config} {o : LaunchOptions} {env : Env} {tz : String}
    (ho : o.Accepted) (h : timezone config o env = some tz) : isTimezone tz = true := by
  unfold timezone at h
  cases hsession : o.timezone with
  | some session =>
      rw [hsession, Option.some_or] at h
      rw [← Option.some.inj h]
      simpa [LaunchOptions.badTimezone] using ho.timezone session hsession
  | none =>
      rw [hsession, Option.none_or] at h
      obtain ⟨-, heq⟩ := Option.ite_none_left_eq_some.mp h
      rw [← Option.some.inj heq]
      cases hzone : (languageEnv config o).bind timezoneForLanguage with
      | none => decide
      | some zone =>
          obtain ⟨primary, -, hprimary⟩ := Option.bind_eq_some_iff.mp hzone
          exact isTimezone_timezoneForLanguage hprimary

/-! ## What the child finds -/

section

variable {config : Config} {browserVersion : Option String} {userDataDir : String}
  {o : LaunchOptions} {env : Env}

theorem childEnv_timezone :
    childEnv config browserVersion userDataDir o env "TZ" =
      ((timezone config o env).map String.toUTF8).or (env "TZ") := by
  unfold childEnv Command.childEnv command
  cases timezone config o env with
  | some tz => rfl
  | none => cases languageEnv config o <;> rfl

theorem childEnv_language :
    childEnv config browserVersion userDataDir o env "LANGUAGE" =
      ((languageEnv config o).map String.toUTF8).or (env "LANGUAGE") := by
  unfold childEnv Command.childEnv command
  cases timezone config o env <;> cases languageEnv config o <;> rfl

end

/-- What `from_env` makes of an empty environment. -/
def defaultConfig : Config where
  host := .v4 0 0 0 0
  port := 3000
  token := none
  maxConcurrentSessions := 10
  maxQueueLength := 20
  connectionTimeout := 600000
  queueTimeout := 600000
  chromeStartupTimeout := 15000
  shutdownGracePeriod := 10000
  browserEngine := .chromium
  chromePath := Config.bundledChromiumPath
  browserArchive := none
  browserArchiveRoot := Config.installRoot
  chromeHeadless := true
  chromeNoSandbox := true
  chromeDisableDevShmUsage := true
  chromeExtraArgs := []
  language := none

/-- A client that asks for nothing. -/
def noOptions : LaunchOptions where
  proxyServer := none
  proxyBypassList := none
  disableWebSecurity := none
  acceptLanguage := none
  userAgent := none
  viewport := none
  timezone := none

end Launch

end Pinokio
