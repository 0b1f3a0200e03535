/-
# Pinokio.Chromium.Extensions -- extension subtags and the zone

What follows the first single-character subtag of a tag says nothing of where its user
is. The function that looks up the zone scans it all the same, so an extension key of
two letters passes for a region. `timezone_extension_iff` says when that matters.
-/
import Pinokio.Chromium.LanguageList
import Pinokio.Chromium.TimeZone

namespace Pinokio

open Text

/-- `e` is an extension or a private-use part of `t`: a tag without single-character
subtags, and what starts with one. -/
structure Extends (t e : String) : Prop where
  tag : isLanguageTag t = true
  extended : isLanguageTag (t ++ "-" ++ e) = true
  noSingleton : ∀ subtag ∈ split isHyphen t, subtag.toList.length ≠ 1
  singleton : (languageSubtag e).toList.length = 1

/-- What is taken for a region in an extension: its first subtag of two letters. -/
def regionIn (e : String) : Option String := ((split isHyphen e).find? isRegion).map asciiUpper

/-! ## A tag and what is appended to it -/

theorem split_extended (t e : String) :
    split isHyphen (t ++ "-" ++ e) = split isHyphen t ++ split isHyphen e := by
  have hlist : (t ++ "-" ++ e).toList = t.toList ++ '-' :: e.toList := by simp
  unfold split
  rw [hlist, List.splitOnP_append_cons _ _ (by decide), List.map_append]

theorem tail_split_extended (t e : String) :
    (split isHyphen (t ++ "-" ++ e)).tail = (split isHyphen t).tail ++ split isHyphen e := by
  rw [split_extended, List.tail_append_of_ne_nil]
  exact List.ne_nil_of_mem (languageSubtag_mem t)

theorem regionOf_extended (t e : String) :
    regionOf (t ++ "-" ++ e) = (regionOf t).or (regionIn e) := by
  unfold regionOf regionIn
  rw [tail_split_extended, List.find?_append, Option.map_or]

theorem languageZone_extended (t e : String) :
    languageZone (t ++ "-" ++ e) = languageZone t := by
  have hlanguage : languageSubtag (t ++ "-" ++ e) = languageSubtag t := by
    have hhead := head?_split (t ++ "-" ++ e)
    rw [split_extended, List.head?_append, head?_split, Option.some_or] at hhead
    exact (Option.some.inj hhead).symm
  unfold languageZone languageOf
  rw [show (split isHyphen (t ++ "-" ++ e)).headD "" = languageSubtag t from hlanguage]
  rfl

/-! ## When the zone stays -/

/-- What is appended leaves the zone alone exactly when the tag has a region, or what
passes for one has no zone and neither has the language. -/
theorem timezone_extension_iff (t e : String) :
    timezoneForLanguage (t ++ "-" ++ e) = timezoneForLanguage t ↔
      regionOf t ≠ none ∨
        ∀ region, regionIn e = some region →
          regionZones.lookup region = none ∧ languageZone t = none := by
  rw [timezoneForLanguage_eq, timezoneForLanguage_eq, regionOf_extended, languageZone_extended]
  cases hregion : regionOf t with
  | some region => simp
  | none =>
      rw [Option.none_or, Option.bind_none, Option.bind_eq_none_iff]
      constructor
      · intro h
        right
        intro region hin
        exact Option.or_eq_none_iff.mp (h region hin)
      · rintro (h | h) region hin
        · exact absurd rfl h
        · exact Option.or_eq_none_iff.mpr (h region hin)

/-- The Gregorian calendar moves a French browser to Canada. -/
theorem calendar_moves_french :
    Extends "fr" "u-ca-gregory" ∧ timezoneForLanguage "fr-u-ca-gregory" = some "America/Toronto" ∧
      ¬ timezoneForLanguage ("fr" ++ "-" ++ "u-ca-gregory") = timezoneForLanguage "fr" := by
  refine ⟨⟨?_, ?_, ?_, ?_⟩, ?_, ?_⟩ <;> decide

end Pinokio
