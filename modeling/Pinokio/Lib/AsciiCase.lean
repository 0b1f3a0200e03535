/-
# Pinokio.Lib.AsciiCase -- strings up to ASCII case

Changing the case of a string's letters changes neither how long it is nor where it
splits, as long as the separators are no letters.
-/
import Pinokio.Lib.Text

namespace Text

theorem utf8Size_toLower (c : Char) : c.toLower.utf8Size = c.utf8Size := by
  by_cases h : c.isUpper = true
  · have hn := isUpper_iff.mp h
    have hlower : c.toLower.isLower = true := by
      simp [Char.isAlpha, h]
    have hln := isLower_iff.mp hlower
    have hone : ∀ d : Char, d.toNat ≤ 127 → d.utf8Size = 1 := by
      intro d hd
      rw [Char.utf8Size_eq_one_iff, UInt32.le_iff_toNat_le]
      exact hd
    rw [hone c (by omega), hone c.toLower (by omega)]
  · rw [Char.toLower_eq_of_not_isUpper h]

theorem utf8ByteSize_ofList_map (l : List Char) :
    (String.ofList (l.map Char.toLower)).utf8ByteSize = (String.ofList l).utf8ByteSize := by
  induction l with
  | nil => rfl
  | cons c l ih =>
      rw [List.map_cons, String.ofList_cons, String.ofList_cons, String.utf8ByteSize_append,
        String.utf8ByteSize_append, String.utf8ByteSize_singleton, String.utf8ByteSize_singleton,
        utf8Size_toLower, ih]

theorem utf8ByteSize_asciiLower (s : String) :
    (asciiLower s).utf8ByteSize = s.utf8ByteSize := by
  rw [asciiLower, utf8ByteSize_ofList_map, String.ofList_toList]

theorem toList_asciiLower (s : String) : (asciiLower s).toList = s.toList.map Char.toLower := by
  rw [asciiLower, String.toList_ofList]

@[simp] theorem asciiLower_asciiLower (s : String) : asciiLower (asciiLower s) = asciiLower s := by
  simp [asciiLower, Function.comp_def]

@[simp] theorem asciiUpper_asciiLower (s : String) : asciiUpper (asciiLower s) = asciiUpper s := by
  simp [asciiLower, asciiUpper, Function.comp_def]

theorem all_isAlpha_asciiLower (s : String) :
    (asciiLower s).toList.all Char.isAlpha = s.toList.all Char.isAlpha := by
  simp [toList_asciiLower, List.all_map, Function.comp_def]

theorem splitOnP_map {α β : Type} (f : α → β) {p : β → Bool} {q : α → Bool}
    (h : ∀ a, p (f a) = q a) (l : List α) :
    (l.map f).splitOnP p = (l.splitOnP q).map (List.map f) := by
  induction l with
  | nil => rfl
  | cons a l ih =>
      rw [List.map_cons, List.splitOnP_cons_eq_if_modifyHead, List.splitOnP_cons_eq_if_modifyHead,
        h, ih]
      split
      · rfl
      · cases l.splitOnP q <;> rfl

/-- A string splits in the same places in any case. -/
theorem split_asciiLower {sep : Char → Bool} (h : ∀ c : Char, sep c.toLower = sep c) (s : String) :
    split sep (asciiLower s) = (split sep s).map asciiLower := by
  unfold split
  rw [toList_asciiLower, splitOnP_map Char.toLower h, List.map_map, List.map_map]
  apply List.map_congr_left
  intro piece _
  simp [asciiLower]

/-- A character that is no letter is its own lower case only. -/
theorem toLower_eq_iff {c d : Char} (hd : d.isAlpha = false) : c.toLower = d ↔ c = d := by
  constructor
  · intro h
    by_cases hc : c.isUpper = true
    · have halpha : c.toLower.isAlpha = true := by
        simp [Char.isAlpha, hc]
      rw [h, hd] at halpha
      cases halpha
    · rwa [Char.toLower_eq_of_not_isUpper hc] at h
  · rintro rfl
    apply Char.toLower_eq_of_not_isUpper
    intro hupper
    simp [Char.isAlpha, hupper] at hd

end Text
