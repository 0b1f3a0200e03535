/-
# Pinokio.Chromium.LaunchOptions -- what a client may ask of its Chromium (`chromium.rs`)

The launch options with the checks of `validate`, and the two texts that are taken
apart again at the launch: language lists and language tags.
-/
import Pinokio.Errors
import Pinokio.Lib.Text

namespace Pinokio

open Text

/-! ## The options -/

structure Viewport where
  width : UInt32
  height : UInt32
  deriving DecidableEq, Repr

namespace Viewport

/-- Height of the tab strip and toolbar on a Linux Chrome window. -/
def windowChromeHeight : UInt32 := 87

def defaultViewport : Viewport := { width := 1280, height := 720 }

/-- Common desktop resolutions, smallest first. -/
def screenSizes : List (UInt32 × UInt32) := [(1920, 1080), (2560, 1440), (3840, 2160)]

def windowSize (v : Viewport) : UInt32 × UInt32 := (v.width, v.height + windowChromeHeight)

/-- The first resolution that fits the window. -/
def screenSize (v : Viewport) : UInt32 × UInt32 :=
  (screenSizes.find? fun screen =>
    v.windowSize.1 ≤ screen.1 && v.windowSize.2 ≤ screen.2).getD v.windowSize

end Viewport

structure LaunchOptions where
  proxyServer : Option String
  proxyBypassList : Option String
  disableWebSecurity : Option Bool
  acceptLanguage : Option String
  userAgent : Option String
  viewport : Option Viewport
  timezone : Option String
  deriving DecidableEq, Repr

/-! ## Language tags -/

def isHyphen (c : Char) : Bool := c = '-'

/-- Loose BCP 47 check: subtags of 1 to 8 alphanumerics separated by "-". -/
def isLanguageTag (tag : String) : Bool :=
  tag ≠ "" && tag.utf8ByteSize ≤ 35 && (split isHyphen tag).all fun subtag =>
    subtag ≠ "" && subtag.utf8ByteSize ≤ 8 && subtag.toList.all Char.isAlphanum

/-- The valid tags of a list, in order. -/
def languageTags (raw : String) : List String :=
  ((split (fun c => c = ':' || c = ',') raw).map trim).filter isLanguageTag

/-- Whether a tag is there up to ASCII case. -/
def hasTag (tags : List String) (tag : String) : Bool :=
  tags.any fun existing => asciiLower existing = asciiLower tag

/-- The tags with the bare language of the first one at the end, unless it is there. -/
def withBase (tags : List String) (primary : String) : List String :=
  match (split isHyphen primary).head? with
  | some base => if base ≠ primary && !hasTag tags base then tags ++ [base] else tags
  | none => tags

/-- Turns "fr-FR:fr" or "fr-FR,fr" into ("fr-FR", "fr-FR,fr"); `none` when no valid tag is
present. -/
def languageArgs (raw : String) : Option (String × String) :=
  (languageTags raw).head?.map fun primary =>
    (primary, ",".intercalate (withBase (languageTags raw) primary))

/-! ## Time zones -/

/-- IANA zone names are path-like. -/
def isTimezone (tz : String) : Bool :=
  tz ≠ "" && tz.utf8ByteSize ≤ 64 && !startsWith "/" tz && !endsWith "/" tz &&
    !contains ".." tz &&
    tz.toList.all fun c => c.isAlphanum || c = '/' || c = '_' || c = '+' || c = '-'

def regionZones : List (String × String) :=
  [("FR", "Europe/Paris"), ("BE", "Europe/Brussels"), ("CH", "Europe/Zurich"),
    ("LU", "Europe/Luxembourg"), ("DE", "Europe/Berlin"), ("AT", "Europe/Vienna"),
    ("NL", "Europe/Amsterdam"), ("ES", "Europe/Madrid"), ("IT", "Europe/Rome"),
    ("PT", "Europe/Lisbon"), ("GB", "Europe/London"), ("IE", "Europe/Dublin"),
    ("PL", "Europe/Warsaw"), ("CZ", "Europe/Prague"), ("SE", "Europe/Stockholm"),
    ("NO", "Europe/Oslo"), ("DK", "Europe/Copenhagen"), ("FI", "Europe/Helsinki"),
    ("GR", "Europe/Athens"), ("RO", "Europe/Bucharest"), ("HU", "Europe/Budapest"),
    ("UA", "Europe/Kyiv"), ("RU", "Europe/Moscow"), ("TR", "Europe/Istanbul"),
    ("IL", "Asia/Jerusalem"), ("SA", "Asia/Riyadh"), ("AE", "Asia/Dubai"),
    ("IN", "Asia/Kolkata"), ("CN", "Asia/Shanghai"), ("HK", "Asia/Hong_Kong"),
    ("TW", "Asia/Taipei"), ("JP", "Asia/Tokyo"), ("KR", "Asia/Seoul"), ("SG", "Asia/Singapore"),
    ("TH", "Asia/Bangkok"), ("VN", "Asia/Ho_Chi_Minh"), ("ID", "Asia/Jakarta"),
    ("PH", "Asia/Manila"), ("AU", "Australia/Sydney"), ("NZ", "Pacific/Auckland"),
    ("US", "America/New_York"), ("CA", "America/Toronto"), ("MX", "America/Mexico_City"),
    ("BR", "America/Sao_Paulo"), ("AR", "America/Argentina/Buenos_Aires"),
    ("CL", "America/Santiago"), ("CO", "America/Bogota"), ("PE", "America/Lima"),
    ("ZA", "Africa/Johannesburg"), ("EG", "Africa/Cairo"), ("MA", "Africa/Casablanca"),
    ("NG", "Africa/Lagos")]

def languageZones : List (String × String) :=
  [("fr", "Europe/Paris"), ("de", "Europe/Berlin"), ("nl", "Europe/Amsterdam"),
    ("es", "Europe/Madrid"), ("it", "Europe/Rome"), ("pt", "Europe/Lisbon"),
    ("en", "America/New_York"), ("pl", "Europe/Warsaw"), ("cs", "Europe/Prague"),
    ("sv", "Europe/Stockholm"), ("nb", "Europe/Oslo"), ("no", "Europe/Oslo"),
    ("da", "Europe/Copenhagen"), ("fi", "Europe/Helsinki"), ("el", "Europe/Athens"),
    ("ro", "Europe/Bucharest"), ("hu", "Europe/Budapest"), ("uk", "Europe/Kyiv"),
    ("ru", "Europe/Moscow"), ("tr", "Europe/Istanbul"), ("he", "Asia/Jerusalem"),
    ("ar", "Asia/Riyadh"), ("hi", "Asia/Kolkata"), ("zh", "Asia/Shanghai"), ("ja", "Asia/Tokyo"),
    ("ko", "Asia/Seoul"), ("th", "Asia/Bangkok"), ("vi", "Asia/Ho_Chi_Minh"),
    ("id", "Asia/Jakarta")]

/-- The zone of a region, empty when it is not listed. -/
def byRegion (region : String) : String := (regionZones.lookup region).getD ""

def isRegion (subtag : String) : Bool :=
  subtag.utf8ByteSize = 2 && subtag.toList.all Char.isAlpha

/-- A plausible time zone for a language tag. -/
def timezoneForLanguage (primary : String) : Option String :=
  match split isHyphen primary with
  | [] => none
  | first :: subtags =>
    let language := asciiLower first
    let region := (subtags.find? isRegion).map asciiUpper
    -- without a region the function returns here
    region.bind fun region =>
      if byRegion region ≠ "" then some (byRegion region) else languageZones.lookup language

/-! ## `validate` -/

namespace LaunchOptions

/-- One check of `validate`: a field that is set and bad ends it. -/
def check {α : Type} (field : Option α) (bad : α → Bool) (message : String) :
    Except GatewayError Unit :=
  if field.any bad then .error (.invalidLaunchOptions message) else .ok ()

def badTimezone (timezone : String) : Bool := !isTimezone timezone

def badAcceptLanguage (acceptLanguage : String) : Bool :=
  acceptLanguage.utf8ByteSize > 256 || (languageArgs acceptLanguage).isNone

def proxySchemes : List String := ["http://", "https://", "socks4://", "socks5://"]

def badProxyServer (proxyServer : String) : Bool :=
  proxyServer.utf8ByteSize > 2048 || proxyServer.toList.any isControl ||
    !proxySchemes.any fun scheme => startsWith scheme proxyServer

def badProxyBypassList (proxyBypassList : String) : Bool :=
  proxyBypassList.utf8ByteSize > 2048 || proxyBypassList.toList.any isControl

def badUserAgent (userAgent : String) : Bool :=
  isBlank userAgent || userAgent.utf8ByteSize > 512 ||
    !userAgent.toList.all fun c => isAsciiGraphic c || c = ' '

def badViewport (viewport : Viewport) : Bool :=
  !((100 ≤ viewport.width && viewport.width ≤ 7680) &&
    (100 ≤ viewport.height && viewport.height ≤ 4320))

def validate (o : LaunchOptions) : Except GatewayError LaunchOptions := do
  check o.timezone badTimezone "timezone must be an IANA time zone name such as Europe/Paris"
  check o.acceptLanguage badAcceptLanguage
    "acceptLanguage must be a comma-separated list of BCP 47 language tags"
  check o.proxyServer badProxyServer
    "proxyServer must be a valid HTTP, HTTPS, SOCKS4, or SOCKS5 URL"
  check o.proxyBypassList badProxyBypassList "proxyBypassList contains invalid characters"
  check o.userAgent badUserAgent
    "userAgent must be printable ASCII of at most 512 characters"
  check o.viewport badViewport "viewport width must be 100-7680 and height 100-4320"
  .ok o

/-- What `validate` lets through. -/
structure Accepted (o : LaunchOptions) : Prop where
  timezone : ∀ tz, o.timezone = some tz → badTimezone tz = false
  acceptLanguage : ∀ raw, o.acceptLanguage = some raw → badAcceptLanguage raw = false
  proxyServer : ∀ s, o.proxyServer = some s → badProxyServer s = false
  proxyBypassList : ∀ s, o.proxyBypassList = some s → badProxyBypassList s = false
  userAgent : ∀ s, o.userAgent = some s → badUserAgent s = false
  viewport : ∀ v, o.viewport = some v → badViewport v = false

theorem check_inv {α : Type} {field : Option α} {bad : α → Bool} {message : String} {β : Type}
    {rest : Unit → Except GatewayError β} {b : β}
    (h : (check field bad message >>= rest) = .ok b) :
    (∀ a, field = some a → bad a = false) ∧ rest () = .ok b := by
  unfold check at h
  split at h
  · cases h
  · rename_i hgood
    refine ⟨?_, h⟩
    rintro a rfl
    simpa using hgood

theorem accepted_of_validate {o o' : LaunchOptions} (h : o.validate = .ok o') :
    Accepted o ∧ o' = o := by
  obtain ⟨htimezone, h⟩ := check_inv h
  obtain ⟨hlanguage, h⟩ := check_inv h
  obtain ⟨hproxy, h⟩ := check_inv h
  obtain ⟨hbypass, h⟩ := check_inv h
  obtain ⟨hagent, h⟩ := check_inv h
  obtain ⟨hviewport, h⟩ := check_inv h
  cases h
  exact ⟨⟨htimezone, hlanguage, hproxy, hbypass, hagent, hviewport⟩, rfl⟩

end LaunchOptions

/-! ## What the checks leave -/

/-- A character of a language tag. -/
def IsTagChar (c : Char) : Prop := c.isAlphanum = true ∨ c = '-'

theorem subtag_of_isLanguageTag {tag subtag : String} (h : isLanguageTag tag = true)
    (hs : subtag ∈ split isHyphen tag) :
    subtag ≠ "" ∧ AllChars (fun c => c.isAlphanum = true) subtag := by
  simp only [isLanguageTag, Bool.and_eq_true, decide_eq_true_eq, List.all_eq_true] at h
  obtain ⟨⟨hne, -⟩, hall⟩ := h.2 subtag hs
  exact ⟨hne, hall⟩

theorem tagChars_of_isLanguageTag {tag : String} (h : isLanguageTag tag = true) :
    AllChars IsTagChar tag := by
  apply allChars_of_split
  · intro c hc
    exact Or.inr (of_decide_eq_true hc)
  · intro subtag hs
    exact (subtag_of_isLanguageTag h hs).2.mono fun c hc => Or.inl hc

theorem printable_of_tagChars {s : String} (h : AllChars IsTagChar s) : Printable s := by
  refine AllChars.mono h ?_
  rintro c (hc | rfl)
  · exact isControl_of_isAlphanum hc
  · decide

/-- What comes out of a language list: its first valid tag, and its valid tags with the bare
language of the first one. -/
theorem languageArgs_inv {raw primary accept : String}
    (h : languageArgs raw = some (primary, accept)) :
    isLanguageTag primary = true ∧
      ∃ tags, (∀ tag ∈ tags, AllChars IsTagChar tag) ∧ accept = ",".intercalate tags := by
  obtain ⟨first, hfirst, heq⟩ := Option.map_eq_some_iff.mp h
  obtain ⟨rfl, rfl⟩ := Prod.mk.inj heq
  have hvalid : ∀ tag ∈ languageTags raw, isLanguageTag tag = true := by
    intro tag htag
    exact (List.mem_filter.mp htag).2
  have hprimary := hvalid first (List.mem_of_head? hfirst)
  refine ⟨hprimary, _, ?_, rfl⟩
  intro tag htag
  unfold withBase at htag
  split at htag
  · rename_i base hbase
    split at htag
    · rcases List.mem_append.mp htag with htag | htag
      · exact tagChars_of_isLanguageTag (hvalid tag htag)
      · obtain rfl := List.mem_singleton.mp htag
        exact (subtag_of_isLanguageTag hprimary (List.mem_of_head? hbase)).2.mono
          fun c hc => Or.inl hc
    · exact tagChars_of_isLanguageTag (hvalid tag htag)
  · exact tagChars_of_isLanguageTag (hvalid tag htag)

theorem printable_languageArgs {raw primary accept : String}
    (h : languageArgs raw = some (primary, accept)) : Printable primary ∧ Printable accept := by
  obtain ⟨hprimary, tags, htags, rfl⟩ := languageArgs_inv h
  refine ⟨printable_of_tagChars (tagChars_of_isLanguageTag hprimary), ?_⟩
  apply allChars_intercalate
  · intro c hc
    obtain rfl := List.mem_singleton.mp hc
    decide
  · intro tag htag
    exact printable_of_tagChars (htags tag htag)

theorem timezone_inv {tz : String} (h : isTimezone tz = true) :
    tz ≠ "" ∧ AllChars (fun c => c.isAlphanum = true ∨ c ∈ ['/', '_', '+', '-']) tz := by
  simp only [isTimezone, Bool.and_eq_true, decide_eq_true_eq, List.all_eq_true, Bool.or_eq_true] at h
  refine ⟨h.1.1.1.1.1, ?_⟩
  intro c hc
  simpa [or_assoc] using h.2 c hc

theorem printable_of_isTimezone {tz : String} (h : isTimezone tz = true) : Printable tz := by
  refine AllChars.mono (timezone_inv h).2 ?_
  rintro c (hc | hc)
  · exact isControl_of_isAlphanum hc
  · simp only [List.mem_cons, List.not_mem_nil, or_false] at hc
    rcases hc with rfl | rfl | rfl | rfl <;> decide

/-- A zone is never blank. -/
theorem not_isBlank_of_isTimezone {tz : String} (h : isTimezone tz = true) :
    isBlank tz = false := by
  obtain ⟨hne, hall⟩ := timezone_inv h
  cases hl : tz.toList with
  | nil => exact absurd (String.toList_inj.mp (hl.trans rfl)) hne
  | cons c cs =>
      have hc : c ∈ tz.toList := by
        rw [hl]
        exact List.mem_cons_self
      apply not_isBlank_of_mem hc
      rcases hall c hc with h | h
      · exact isWhitespace_of_isAlphanum h
      · simp only [List.mem_cons, List.not_mem_nil, or_false] at h
        rcases h with rfl | rfl | rfl | rfl <;> decide

/-- The zones of the tables are zones. -/
theorem isTimezone_zones : ∀ zone ∈ (regionZones ++ languageZones).map Prod.snd,
    isTimezone zone = true := by
  decide +kernel

theorem mem_of_lookup {k v : String} {l : List (String × String)} (h : l.lookup k = some v) :
    v ∈ l.map Prod.snd := by
  obtain ⟨_, _, rfl, -⟩ := List.lookup_eq_some_iff.mp h
  simp

theorem isTimezone_timezoneForLanguage {primary zone : String}
    (h : timezoneForLanguage primary = some zone) : isTimezone zone = true := by
  apply isTimezone_zones
  rw [List.map_append, List.mem_append]
  unfold timezoneForLanguage at h
  split at h
  · cases h
  · obtain ⟨region, -, h⟩ := Option.bind_eq_some_iff.mp h
    split at h
    · rename_i hlisted
      cases h
      left
      unfold byRegion at hlisted ⊢
      cases hlookup : regionZones.lookup region with
      | none =>
          rw [hlookup] at hlisted
          exact absurd rfl hlisted
      | some zone => exact mem_of_lookup hlookup
    · exact Or.inr (mem_of_lookup h)

example : languageArgs "fr-CA: en ,x_y" = some ("fr-CA", "fr-CA,en,fr") := by decide

example : timezoneForLanguage "zh-Hant-tw" = some "Asia/Taipei" := by decide

end Pinokio
