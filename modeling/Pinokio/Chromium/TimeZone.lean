/-
# Pinokio.Chromium.TimeZone -- the zone for a language

A tag names a zone by its region or, failing that, by its language. The function that
looks it up gives up on a tag without a region before it comes to the language.
`timezone_derived_iff` is that this is the only tag it fails on, and what such a tag
comes to at the launch.
-/
import Pinokio.Chromium.Locale
import Pinokio.Lib.AsciiCase

namespace Pinokio

open Text

/-! ## Region and language -/

/-- The first subtag of two letters after the language. -/
def regionOf (tag : String) : Option String :=
  ((split isHyphen tag).tail.find? isRegion).map asciiUpper

def languageOf (tag : String) : String := asciiLower ((split isHyphen tag).headD "")

/-- The zone of the tag's region, if it has one and the table lists it. -/
def regionZone (tag : String) : Option String :=
  (regionOf tag).bind fun region => regionZones.lookup region

/-- The zone of the tag's language, if the table lists it. -/
def languageZone (tag : String) : Option String := languageZones.lookup (languageOf tag)

/-- The region's zone, otherwise the language's. -/
def derivedZone (tag : String) : Option String := (regionZone tag).or (languageZone tag)

theorem byRegion_eq (region : String) (fallback : Option String) :
    (if byRegion region ≠ "" then some (byRegion region) else fallback) =
      (regionZones.lookup region).or fallback := by
  unfold byRegion
  cases h : regionZones.lookup region with
  | none => rfl
  | some zone =>
      have hzone : isTimezone zone = true := by
        apply isTimezone_zones
        rw [List.map_append]
        exact List.mem_append_left _ (mem_of_lookup h)
      simp [(timezone_inv hzone).1]

/-- The function in terms of the tag's region and language. -/
theorem timezoneForLanguage_eq (tag : String) :
    timezoneForLanguage tag =
      (regionOf tag).bind fun region => (regionZones.lookup region).or (languageZone tag) := by
  unfold timezoneForLanguage languageZone languageOf regionOf
  cases h : split isHyphen tag with
  | nil => rfl
  | cons first subtags => simp only [byRegion_eq, List.tail_cons, List.headD_cons]

/-! ## Letter case -/

theorem isHyphen_toLower (c : Char) : isHyphen c.toLower = isHyphen c := by
  unfold isHyphen
  simp only [toLower_eq_iff (show ('-' : Char).isAlpha = false by decide)]

theorem isRegion_asciiLower (subtag : String) : isRegion (asciiLower subtag) = isRegion subtag := by
  unfold isRegion
  rw [utf8ByteSize_asciiLower, all_isAlpha_asciiLower]

theorem timezoneForLanguage_asciiLower (tag : String) :
    timezoneForLanguage (asciiLower tag) = timezoneForLanguage tag := by
  have hregion : regionOf (asciiLower tag) = regionOf tag := by
    unfold regionOf
    rw [split_asciiLower isHyphen_toLower, ← List.map_tail, List.find?_map, Option.map_map]
    have hp : isRegion ∘ asciiLower = isRegion := funext isRegion_asciiLower
    have hf : asciiUpper ∘ asciiLower = asciiUpper := funext asciiUpper_asciiLower
    rw [hp, hf]
  have hlanguage : languageOf (asciiLower tag) = languageOf tag := by
    unfold languageOf
    rw [split_asciiLower isHyphen_toLower]
    cases split isHyphen tag with
    | nil => rfl
    | cons first rest => exact asciiLower_asciiLower first
  rw [timezoneForLanguage_eq, timezoneForLanguage_eq, hregion, languageZone, languageZone,
    hlanguage]

/-! ## The zone at the launch -/

theorem ne_utc_of_mem : ∀ zone ∈ (regionZones ++ languageZones).map Prod.snd, zone ≠ "UTC" := by
  decide +kernel

theorem derivedZone_ne_utc (tag : String) : derivedZone tag ≠ some "UTC" := by
  intro h
  refine ne_utc_of_mem "UTC" ?_ rfl
  rw [List.map_append, List.mem_append]
  rcases Option.or_eq_some_iff.mp h with h | ⟨-, h⟩
  · obtain ⟨region, -, h⟩ := Option.bind_eq_some_iff.mp h
    exact Or.inl (mem_of_lookup h)
  · exact Or.inr (mem_of_lookup h)

/-- With no zone from the session or the server, Chromium finds the zone of the tag, or UTC. -/
theorem childEnv_of_tag {config : Config} {browserVersion : Option String} {userDataDir : String}
    {o : LaunchOptions} {env : Env} {tag : String} (hsession : o.timezone = none)
    (hserver : Launch.serverTimezone env = none) (htag : Launch.languageEnv config o = some tag) :
    Launch.childEnv config browserVersion userDataDir o env "TZ" =
      some ((timezoneForLanguage tag).getD "UTC").toUTF8 := by
  rw [Launch.childEnv_timezone, Launch.timezone, hsession, hserver, htag]
  rfl

/-- What a tag's zone is to be: the derived one, in any case; and where it decides the
zone of a session, that is UTC only if there is none. -/
structure Derived (tag : String) : Prop where
  zone : timezoneForLanguage tag = derivedZone tag
  anyCase : ∀ tag', asciiLower tag' = asciiLower tag →
    timezoneForLanguage tag' = timezoneForLanguage tag
  utc : ∀ (config : Config) (browserVersion : Option String) (userDataDir : String)
    (o : LaunchOptions) (env : Env), o.timezone = none → Launch.serverTimezone env = none →
    Launch.languageEnv config o = some tag →
    Launch.childEnv config browserVersion userDataDir o env "TZ" = some "UTC".toUTF8 →
    derivedZone tag = none

/-- When a tag's zone is derived: exactly when it has a region, or its language has no zone. -/
theorem timezone_derived_iff (tag : String) :
    Derived tag ↔ regionOf tag ≠ none ∨ languageZone tag = none := by
  have hzone : timezoneForLanguage tag = derivedZone tag ↔
      regionOf tag ≠ none ∨ languageZone tag = none := by
    rw [timezoneForLanguage_eq, derivedZone, regionZone]
    cases regionOf tag with
    | some region => simp
    | none => simp [eq_comm]
  constructor
  · intro h
    exact hzone.mp h.zone
  · intro h
    have hderived := hzone.mpr h
    refine ⟨hderived, ?_, ?_⟩
    · intro tag' hcase
      rw [← timezoneForLanguage_asciiLower tag', hcase, timezoneForLanguage_asciiLower]
    · intro config browserVersion userDataDir o env hsession hserver htag hutc
      rw [childEnv_of_tag hsession hserver htag, hderived] at hutc
      cases hzone : derivedZone tag with
      | none => rfl
      | some zone =>
          rw [hzone] at hutc
          have hzone' : zone = "UTC" := Utf8.toUTF8_inj.mp (Option.some.inj hutc)
          rw [hzone'] at hzone
          exact absurd hzone (derivedZone_ne_utc tag)

/-- A client whose language has no region. -/
def bareFrench : LaunchOptions := { Launch.noOptions with acceptLanguage := some "fr" }

/-- Its Chromium reports UTC, although there is a zone for French. -/
theorem utc_for_bareFrench :
    isLanguageTag "fr" = true ∧ derivedZone "fr" = some "Europe/Paris" ∧
      timezoneForLanguage "fr" = none ∧ bareFrench.validate = .ok bareFrench ∧
      Launch.childEnv Launch.defaultConfig none "/tmp/pinokio-1" bareFrench (fun _ => none) "TZ" =
        some "UTC".toUTF8 ∧
      ¬ Derived "fr" := by
  refine ⟨by decide, by decide, by decide, by rfl, ?_, ?_⟩
  · have htag : Launch.languageEnv Launch.defaultConfig bareFrench = some "fr" := by decide
    rw [childEnv_of_tag rfl rfl htag]
    decide
  · intro h
    have hzone := h.zone
    revert hzone
    decide

end Pinokio
