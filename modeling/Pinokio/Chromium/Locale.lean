/-
# Pinokio.Chromium.Locale -- where the language and the zone of a session come from

A session that sets its language gets it from there alone: `validate` has run the
parser that the launch runs again, so that neither the server's configuration nor its
own variables come through. The zone follows an order of four sources, and its last
one is always there.
-/
import Pinokio.Chromium.Arguments

namespace Pinokio.Launch

open Text

/-- The session's zone, the server's own unless it is blank, one for the session's
language, or UTC. -/
def zoneInOrder (config : Config) (o : LaunchOptions) (server : Option String) : String :=
  ((o.timezone.or (server.filter fun tz => !isBlank tz)).or
    ((languageEnv config o).bind timezoneForLanguage)).getD "UTC"

section

variable {config : Config} {browserVersion : Option String} {userDataDir : String}
  {o : LaunchOptions} {env : Env}

/-- A language that was accepted parses again. -/
theorem languages_of_accepted {raw : String} (ho : o.Accepted)
    (hraw : o.acceptLanguage = some raw) :
    ∃ tags, languageArgs raw = some tags ∧ ∀ config, languages config o = some tags := by
  have hgood := ho.acceptLanguage raw hraw
  simp only [LaunchOptions.badAcceptLanguage, Bool.or_eq_false_iff] at hgood
  obtain ⟨tags, htags⟩ := Option.isSome_iff_exists.mp (Option.isNone_eq_false_iff.mp hgood.2)
  refine ⟨tags, htags, ?_⟩
  intro config
  rw [languages, language, hraw, Option.some_or, Option.bind_some, htags]

/-- The server's zone is what its variable is set to. -/
theorem serverTimezone_eq {server : Option String} (h : env "TZ" = server.map String.toUTF8) :
    serverTimezone env = server.filter fun tz => !isBlank tz := by
  cases server with
  | none =>
      have hvar : env.var "TZ" = .error .notPresent := by
        simp only [Env.var, h, Option.map_none]
      rw [serverTimezone, hvar]
      rfl
  | some tz =>
      have hvar : env.var "TZ" = .ok tz := by
        simp only [Env.var, h, Option.map_some, Utf8.fromUTF8?_toUTF8]
      rw [serverTimezone, hvar]
      rfl

/-- The zone that Chromium finds is the first there is in the order, and never blank. -/
theorem childEnv_zone {server : Option String} (ho : o.Accepted)
    (h : env "TZ" = server.map String.toUTF8) :
    childEnv config browserVersion userDataDir o env "TZ" =
      some (zoneInOrder config o server).toUTF8 ∧
    isBlank (zoneInOrder config o server) = false := by
  rw [childEnv_timezone]
  cases hset : timezone config o env with
  | some tz =>
      have htz : zoneInOrder config o server = tz := by
        rw [timezone, serverTimezone_eq h] at hset
        rw [zoneInOrder]
        cases hsession : o.timezone with
        | some session =>
            rw [hsession] at hset
            exact Option.some.inj hset
        | none =>
            rw [hsession, Option.none_or] at hset
            obtain ⟨hnone, heq⟩ := Option.ite_none_left_eq_some.mp hset
            rw [Option.none_or, Option.not_isSome_iff_eq_none.mp hnone, Option.none_or]
            exact Option.some.inj heq
      rw [htz]
      exact ⟨rfl, not_isBlank_of_isTimezone (isTimezone_timezone ho hset)⟩
  | none =>
      -- nothing is set only where the server's own zone is inherited
      rw [timezone, Option.or_eq_none_iff, serverTimezone_eq h] at hset
      obtain ⟨hsession, hserver⟩ := hset
      obtain ⟨tz, htz⟩ : ∃ tz, server.filter (fun tz => !isBlank tz) = some tz := by
        cases hfilter : server.filter fun tz => !isBlank tz with
        | some tz => exact ⟨tz, rfl⟩
        | none =>
            rw [hfilter] at hserver
            cases hserver
      obtain ⟨hsome, hblank⟩ := Option.filter_eq_some_iff.mp htz
      have hzone : zoneInOrder config o server = tz := by
        rw [zoneInOrder, hsession, htz]
        rfl
      rw [hzone, h, hsome]
      exact ⟨rfl, by simpa using hblank⟩

end

/-- The locale of a session. With a language of its own, the flags and the variable for it
come from that language alone, on whatever server; with a zone of its own, so does the
zone; and whatever it asks for, on a server whose `TZ` is not set or is text, the zone
that Chromium finds is the first in the order and is not blank. -/
theorem locale_isolated {o : LaunchOptions} (h : o.validate = .ok o) :
    (∀ raw, o.acceptLanguage = some raw → ∃ primary accept,
      languageArgs raw = some (primary, accept) ∧
      ∀ config browserVersion userDataDir env,
        (ownArgs config browserVersion userDataDir o).filter Flag.lang.isOf =
          ["--lang=" ++ primary] ∧
        (ownArgs config browserVersion userDataDir o).filter Flag.acceptLang.isOf =
          ["--accept-lang=" ++ accept] ∧
        childEnv config browserVersion userDataDir o env "LANGUAGE" = some primary.toUTF8 ∧
        ∀ tz, o.timezone = some tz →
          childEnv config browserVersion userDataDir o env "TZ" = some tz.toUTF8) ∧
    ∀ config browserVersion userDataDir (env : Env) (server : Option String),
      env "TZ" = server.map String.toUTF8 →
      childEnv config browserVersion userDataDir o env "TZ" =
        some (zoneInOrder config o server).toUTF8 ∧
      isBlank (zoneInOrder config o server) = false := by
  have ho := (LaunchOptions.accepted_of_validate h).1
  refine ⟨?_, fun _ _ _ _ _ => childEnv_zone ho⟩
  intro raw hraw
  obtain ⟨tags, htags, hlanguages⟩ := languages_of_accepted ho hraw
  refine ⟨tags.1, tags.2, htags, ?_⟩
  intro config browserVersion userDataDir env
  refine ⟨?_, ?_, ?_, ?_⟩
  · rw [filter_isOf, flagArgs, Flag.value, hlanguages]
    rfl
  · rw [filter_isOf, flagArgs, Flag.value, hlanguages]
    rfl
  · rw [childEnv_language, languageEnv, hlanguages]
    rfl
  · intro tz htz
    rw [childEnv_timezone, timezone, htz]
    rfl

theorem locale_isolated_frenchOptions :
    ∃ primary accept, languageArgs "fr-FR" = some (primary, accept) ∧
      childEnv defaultConfig none "/tmp/pinokio-1" frenchOptions (fun _ => some "C".toUTF8)
        "LANGUAGE" = some primary.toUTF8 := by
  obtain ⟨primary, accept, hargs, hall⟩ :=
    (locale_isolated (o := frenchOptions) (by rfl)).1 "fr-FR" rfl
  exact ⟨primary, accept, hargs, (hall defaultConfig none "/tmp/pinokio-1" _).2.2.1⟩

end Pinokio.Launch
