/-
# Pinokio.Config -- the server's configuration (`config.rs`)

`fromEnv` reads the environment of the process, variable by variable and in the order
of the source, so that the first error is the one the source reports. The bytes of a
variable need not be UTF-8. What else decides the result is in `System`: which files
there are, the hash that names an install directory, and how a string is printed in
an error.
-/
import Pinokio.BrowserArchive
import Pinokio.Lib.IpAddr
import Pinokio.Lib.Text

namespace Pinokio

/-! ## The process environment -/

/-- From the names of the variables to their values, which are any bytes. -/
abbrev Env := String → Option ByteArray

inductive VarError where
  | notPresent
  | notUnicode (raw : ByteArray)
  deriving DecidableEq

/-- `std::env::var`. -/
def Env.var (env : Env) (name : String) : Except VarError String :=
  match env name with
  | none => .error .notPresent
  | some raw =>
    match String.fromUTF8? raw with
    | some s => .ok s
    | none => .error (.notUnicode raw)

/-- Not set, or set to text. -/
def Env.Readable (env : Env) (name : String) : Prop :=
  ∀ raw, env name = some raw → ∃ s, String.fromUTF8? raw = some s

/-! ## The configuration -/

inductive ConfigError where
  | invalid (name reason : String)
  deriving DecidableEq, Repr

def ConfigError.message : ConfigError → String
  | invalid name reason => s!"invalid value for {name}: {reason}"

/-- Where the browser build comes from. -/
inductive BrowserEngine where
  | chromium
  | downloaded
  | custom
  deriving DecidableEq, Repr

/-- Browser archive the operator asked for, with the lowercase hex SHA-256 it must match. -/
structure Config.BrowserArchive where
  url : String
  sha256 : Option String
  deriving DecidableEq, Repr

/-- Durations are in milliseconds. -/
structure Config where
  host : IpAddr
  port : Nat
  token : Option String
  maxConcurrentSessions : Nat
  maxQueueLength : Nat
  connectionTimeout : Nat
  queueTimeout : Nat
  chromeStartupTimeout : Nat
  shutdownGracePeriod : Nat
  browserEngine : BrowserEngine
  chromePath : String
  browserArchive : Option Config.BrowserArchive
  browserArchiveRoot : String
  chromeHeadless : Bool
  chromeNoSandbox : Bool
  chromeDisableDevShmUsage : Bool
  chromeExtraArgs : List String
  language : Option String
  deriving DecidableEq, Repr

/-- What `from_env` finds around it. -/
structure System where
  env : Env
  isFile : String → Bool
  archives : BrowserArchive.World
  /-- A string with quotes and escapes, as `{:?}` prints it. -/
  debug : String → String

namespace Config

open Text

def bundledChromiumPath : String := "/usr/bin/chromium"

def customBrowserPath : String := "/opt/browser/chrome"

/-- Volume where archives are installed, one directory per archive URL. -/
def installRoot : String := "/opt/browsers"

/-- `browser_archive::binary_path`. -/
def binaryPath (W : BrowserArchive.World) (root url : String) : String :=
  s!"{root}/{BrowserArchive.installKey W url}/chrome"

section

variable (env : Env)

def envStr (name default : String) : String :=
  match env.var name with
  | .ok s => s
  | .error _ => default

def envParse {α : Type} (parse : String → Except ParseIntError α) (name : String) (default : α) :
    Except ConfigError α :=
  match env.var name with
  | .ok raw =>
    if isBlank raw then .ok default
    else (parse (trim raw)).mapError fun e => .invalid name e.message
  | .error _ => .ok default

/-- The words for a boolean. -/
def parseBool (value : String) : Option Bool :=
  if value = "true" ∨ value = "1" ∨ value = "yes" then some true
  else if value = "false" ∨ value = "0" ∨ value = "no" then some false
  else none

def envBool (debug : String → String) (name : String) (default : Bool) : Except ConfigError Bool :=
  match env.var name with
  | .ok raw =>
    if isBlank raw then .ok default
    else
      let other := asciiLower (trim raw)
      match parseBool other with
      | some value => .ok value
      | none => .error (.invalid name s!"expected a boolean, got {debug other}")
  | .error _ => .ok default

def envDurationMs (name : String) (defaultMs : Nat) : Except ConfigError Nat := do
  let ms ← envParse env (parseUnsigned 64) name defaultMs
  if ms = 0 then .error (.invalid name "must be greater than 0") else .ok ms

/-- The trimmed value of a variable that is set and not blank: `TOKEN` and `LANGUAGE`. -/
def envTrimmed (name : String) : Option String :=
  match env.var name with
  | .ok raw => if isBlank raw then none else some (trim raw)
  | .error _ => none

def readHost : Except ConfigError IpAddr :=
  match IpAddr.parse (envStr env "HOST" "0.0.0.0") with
  | some host => .ok host
  | none => .error (.invalid "HOST" "expected an IP address")

def readPort : Except ConfigError Nat := do
  let port ← envParse env (parseUnsigned 16) "PORT" 3000
  if port = 0 then .error (.invalid "PORT" "must be between 1 and 65535") else .ok port

def readMaxConcurrentSessions : Except ConfigError Nat := do
  let n ← envParse env (parseUnsigned 64) "MAX_CONCURRENT_SESSIONS" 10
  if n = 0 then .error (.invalid "MAX_CONCURRENT_SESSIONS" "must be at least 1") else .ok n

def isHttpUrl (url : String) : Bool := startsWith "https://" url || startsWith "http://" url

def isSha256 (hash : String) : Bool :=
  hash.utf8ByteSize = 64 && hash.toList.all isAsciiHexdigit

def archiveUrl : Option String :=
  ((env.var "BROWSER_ARCHIVE_URL").toOption.map trim).filter fun raw => raw ≠ ""

def archiveSha256 : Option String :=
  ((env.var "BROWSER_ARCHIVE_SHA256").toOption.map fun raw => asciiLower (trim raw)).filter
    fun raw => raw ≠ ""

def readBrowserArchive : Except ConfigError (Option Config.BrowserArchive) :=
  match archiveUrl env, archiveSha256 env with
  | none, none => .ok none
  | some url, sha256 =>
    if !isHttpUrl url then
      .error (.invalid "BROWSER_ARCHIVE_URL"
        "expected an http(s) URL to a .tar.gz or .zip archive")
    else if sha256.any fun hash => !isSha256 hash then
      .error (.invalid "BROWSER_ARCHIVE_SHA256" "expected 64 hexadecimal characters")
    else .ok (some { url, sha256 })
  | none, some _ =>
    .error (.invalid "BROWSER_ARCHIVE_URL" "required with BROWSER_ARCHIVE_SHA256")

def readChromeExtraArgs : List String :=
  match env.var "CHROME_EXTRA_ARGS" with
  | .ok raw => splitWhitespace raw
  | .error _ => []

end

section

variable (S : System)

/-- The browser when `CHROME_PATH` names none: one mounted at /opt/browser, then a
downloaded archive, then the bundled Chromium. -/
def defaultBrowser (archive : Option Config.BrowserArchive) : BrowserEngine × String :=
  if S.isFile customBrowserPath then (.custom, customBrowserPath)
  else
    match archive with
    | some archive => (.downloaded, binaryPath S.archives installRoot archive.url)
    | none => (.chromium, bundledChromiumPath)

def chooseBrowser (archive : Option Config.BrowserArchive) : BrowserEngine × String :=
  match S.env.var "CHROME_PATH" with
  | .ok raw => if isBlank raw then defaultBrowser S archive else (.custom, trim raw)
  | .error _ => defaultBrowser S archive

def readBrowser (archive : Option Config.BrowserArchive) :
    Except ConfigError (BrowserEngine × String) :=
  let browser := chooseBrowser S archive
  if browser.1 ≠ .downloaded ∧ S.isFile browser.2 = false then
    .error (.invalid "CHROME_PATH" s!"{browser.2} is not an executable file")
  else .ok browser

/-- `Config::from_env`. -/
def fromEnv : Except ConfigError Config := do
  let host ← readHost S.env
  let port ← readPort S.env
  let maxConcurrentSessions ← readMaxConcurrentSessions S.env
  let maxQueueLength ← envParse S.env (parseUnsigned 64) "MAX_QUEUE_LENGTH" 20
  let browserArchive ← readBrowserArchive S.env
  let browser ← readBrowser S browserArchive
  let connectionTimeout ← envDurationMs S.env "CONNECTION_TIMEOUT_MS" 600000
  let queueTimeout ← envDurationMs S.env "QUEUE_TIMEOUT_MS" 600000
  let chromeStartupTimeout ← envDurationMs S.env "CHROME_STARTUP_TIMEOUT_MS" 15000
  let shutdownGracePeriod ← envDurationMs S.env "SHUTDOWN_GRACE_PERIOD_MS" 10000
  let chromeHeadless ← envBool S.env S.debug "CHROME_HEADLESS" true
  let chromeNoSandbox ← envBool S.env S.debug "CHROME_NO_SANDBOX" true
  let chromeDisableDevShmUsage ← envBool S.env S.debug "CHROME_DISABLE_DEV_SHM_USAGE" true
  .ok
    { host
      port
      token := envTrimmed S.env "TOKEN"
      maxConcurrentSessions
      maxQueueLength
      connectionTimeout
      queueTimeout
      chromeStartupTimeout
      shutdownGracePeriod
      browserEngine := browser.1
      chromePath := browser.2
      browserArchive
      browserArchiveRoot := installRoot
      chromeHeadless
      chromeNoSandbox
      chromeDisableDevShmUsage
      chromeExtraArgs := readChromeExtraArgs S.env
      language := envTrimmed S.env "LANGUAGE" }

end

end Config

end Pinokio
