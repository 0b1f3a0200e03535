/-
# Pinokio.Chromium.LanguageList -- the normal form of a language list

Whatever a client or the server gives as a list of languages, Chromium gets a list of
tags that are all valid, in the order given, with the bare language of the first one
somewhere in it. `languageArgs_normalForm` states the form, and that a list in normal
form is left as it is.
-/
import Pinokio.Chromium.LaunchOptions

namespace Pinokio

open Text

def isComma (c : Char) : Bool := c = ','

/-- What separates the tags of a list. -/
def isListSeparator (c : Char) : Bool := c = ':' || c = ','

def languageSubtag (tag : String) : String := (split isHyphen tag).headD ""

/-! ## Tags -/

theorem isWhitespace_of_isTagChar {c : Char} (h : IsTagChar c) : isWhitespace c = false := by
  rcases h with h | rfl
  · exact isWhitespace_of_isAlphanum h
  · decide

theorem isListSeparator_of_isTagChar {c : Char} (h : IsTagChar c) : isListSeparator c = false := by
  have hne : c ≠ ':' ∧ c ≠ ',' := by
    rcases h with h | rfl
    · constructor <;> (rintro rfl; revert h; decide)
    · decide
  simp [isListSeparator, hne]

theorem isComma_of_isTagChar {c : Char} (h : IsTagChar c) : isComma c = false := by
  have hsep := isListSeparator_of_isTagChar h
  rw [isListSeparator, Bool.or_eq_false_iff] at hsep
  exact hsep.2

theorem trim_of_isLanguageTag {tag : String} (h : isLanguageTag tag = true) : trim tag = tag :=
  trim_of_allChars ((tagChars_of_isLanguageTag h).mono fun _ => isWhitespace_of_isTagChar)

theorem languageSubtag_mem (tag : String) : languageSubtag tag ∈ split isHyphen tag := by
  have hne : split isHyphen tag ≠ [] := by
    rw [split, Ne, List.map_eq_nil_iff]
    exact List.splitOnP_ne_nil _ _
  unfold languageSubtag
  cases hsplit : split isHyphen tag with
  | nil => exact absurd hsplit hne
  | cons first rest => exact List.mem_cons_self

theorem head?_split (tag : String) : (split isHyphen tag).head? = some (languageSubtag tag) := by
  have hmem := languageSubtag_mem tag
  unfold languageSubtag at hmem ⊢
  cases hsplit : split isHyphen tag with
  | nil =>
      rw [hsplit] at hmem
      cases hmem
  | cons first rest => rfl

/-- The language of a tag is a tag of its own. -/
theorem isLanguageTag_languageSubtag {tag : String} (h : isLanguageTag tag = true) :
    isLanguageTag (languageSubtag tag) = true := by
  have hmem := languageSubtag_mem tag
  obtain ⟨hne, hchars⟩ := subtag_of_isLanguageTag h hmem
  have hsplit : split isHyphen (languageSubtag tag) = [languageSubtag tag] := by
    apply split_of_allChars
    refine hchars.mono ?_
    intro c hc
    rw [isHyphen, decide_eq_false_iff_not]
    rintro rfl
    revert hc
    decide
  simp only [isLanguageTag, Bool.and_eq_true, decide_eq_true_eq, List.all_eq_true] at h
  have hsubtag := h.2 _ hmem
  have hshort : (languageSubtag tag).utf8ByteSize ≤ 35 := by
    have hle := hsubtag.1.2
    omega
  simp [isLanguageTag, hsplit, hne, hshort, hsubtag.1.2, List.all_eq_true.mpr hsubtag.2]

/-! ## Lists of tags -/

/-- A list of at least one tag, joined: it comes apart into the same tags. -/
structure Tags (tags : List String) : Prop where
  ne_nil : tags ≠ []
  valid : ∀ tag ∈ tags, isLanguageTag tag = true

namespace Tags

variable {tags : List String}

theorem split_joined (h : Tags tags) (sep : Char → Bool) (hsep : sep ',' = true)
    (hchar : ∀ c, IsTagChar c → sep c = false) : split sep (",".intercalate tags) = tags := by
  apply split_intercalate rfl hsep h.ne_nil
  intro tag htag
  exact (tagChars_of_isLanguageTag (h.valid tag htag)).mono hchar

theorem languageTags_joined (h : Tags tags) : languageTags (",".intercalate tags) = tags := by
  have hsplit := h.split_joined isListSeparator rfl fun _ => isListSeparator_of_isTagChar
  unfold isListSeparator at hsplit
  have htrim : tags.map trim = tags := by
    calc tags.map trim
        = tags.map id := List.map_congr_left fun tag htag => trim_of_isLanguageTag (h.valid tag htag)
      _ = tags := List.map_id tags
  rw [languageTags, hsplit, htrim, List.filter_eq_self]
  exact h.valid

end Tags

theorem withBase_eq (tags : List String) (primary : String) :
    withBase tags primary =
      if languageSubtag primary ≠ primary && !hasTag tags (languageSubtag primary) then
        tags ++ [languageSubtag primary]
      else tags := by
  unfold withBase
  rw [head?_split]

theorem withBase_cases (tags : List String) (primary : String) :
    withBase tags primary = tags ∨ withBase tags primary = tags ++ [languageSubtag primary] := by
  rw [withBase_eq]
  split
  · exact Or.inr rfl
  · exact Or.inl rfl

/-- The language of a tag of the list is in the list afterwards. -/
theorem hasTag_withBase {tags : List String} {primary : String} (hp : primary ∈ tags) :
    hasTag (withBase tags primary) (languageSubtag primary) = true := by
  rw [withBase_eq]
  split
  · simp [hasTag]
  · rename_i hadd
    by_cases hbase : languageSubtag primary = primary
    · rw [hbase, hasTag, List.any_eq_true]
      exact ⟨primary, hp, by simp⟩
    · simpa [hbase] using hadd

theorem withBase_of_hasTag {tags : List String} {primary : String}
    (h : hasTag tags (languageSubtag primary) = true) : withBase tags primary = tags := by
  simp [withBase_eq, h]

theorem Tags.base {tags : List String} (h : Tags tags) {primary : String} (hp : primary ∈ tags) :
    Tags (withBase tags primary) := by
  rcases withBase_cases tags primary with heq | heq
  · rw [heq]
    exact h
  · rw [heq]
    refine ⟨by simp, ?_⟩
    intro tag htag
    rcases List.mem_append.mp htag with htag | htag
    · exact h.valid tag htag
    · rw [List.mem_singleton.mp htag]
      exact isLanguageTag_languageSubtag (h.valid primary hp)

/-! ## The normal form -/

/-- What a list `raw` comes to: its first tag and its tags in order, with at most the bare
language of the first one after them. -/
structure NormalForm (raw primary accept : String) : Prop where
  valid : ∀ tag ∈ split isComma accept, isLanguageTag tag = true
  first : (split isComma accept).head? = some primary
  order : split isComma accept = languageTags raw ∨
    split isComma accept = languageTags raw ++ [languageSubtag primary]
  language : ∃ tag ∈ split isComma accept, asciiLower tag = asciiLower (languageSubtag primary)
  fixed : languageArgs accept = some (primary, accept)

theorem languageTags_eq_nil_iff {raw : String} :
    languageTags raw = [] ↔
      ∀ piece ∈ split isListSeparator raw, isLanguageTag (trim piece) = false := by
  unfold languageTags isListSeparator
  rw [List.filter_eq_nil_iff]
  constructor
  · intro h piece hpiece
    exact Bool.eq_false_iff.mpr (h (trim piece) (List.mem_map.mpr ⟨piece, hpiece, rfl⟩))
  · intro h tag htag
    obtain ⟨piece, hpiece, rfl⟩ := List.mem_map.mp htag
    exact Bool.eq_false_iff.mp (h piece hpiece)

theorem normalForm_of_languageArgs {raw primary accept : String}
    (h : languageArgs raw = some (primary, accept)) : NormalForm raw primary accept := by
  obtain ⟨first, hfirst, heq⟩ := Option.map_eq_some_iff.mp h
  obtain ⟨rfl, rfl⟩ := Prod.mk.inj heq
  have hmem : first ∈ languageTags raw := List.mem_of_head? hfirst
  have htags : Tags (languageTags raw) :=
    ⟨List.ne_nil_of_mem hmem, fun tag htag => (List.mem_filter.mp htag).2⟩
  have hall := htags.base hmem
  have horder := withBase_cases (languageTags raw) first
  have hhas := hasTag_withBase hmem
  have hhead : (withBase (languageTags raw) first).head? = some first := by
    rcases horder with heq | heq
    · rw [heq, hfirst]
    · rw [heq, List.head?_append, hfirst]
      rfl
  have hsplit := hall.split_joined isComma rfl fun _ => isComma_of_isTagChar
  refine ⟨?_, ?_, ?_, ?_, ?_⟩
  · rw [hsplit]
    exact hall.valid
  · rw [hsplit, hhead]
  · rwa [hsplit]
  · rw [hsplit]
    obtain ⟨tag, htag, hcase⟩ := List.any_eq_true.mp hhas
    exact ⟨tag, htag, of_decide_eq_true hcase⟩
  · -- the tags of the joined list are the list again, and its language is in it already
    rw [languageArgs, hall.languageTags_joined, hhead, Option.map_some, withBase_of_hasTag hhas]

/-- A language list has a normal form exactly when it has a valid tag. -/
theorem languageArgs_normalForm (raw : String) :
    (languageArgs raw = none ↔
      ∀ piece ∈ split isListSeparator raw, isLanguageTag (trim piece) = false) ∧
    ∀ primary accept, languageArgs raw = some (primary, accept) →
      NormalForm raw primary accept := by
  constructor
  · rw [← languageTags_eq_nil_iff, languageArgs, Option.map_eq_none_iff, List.head?_eq_none_iff]
  · intro primary accept h
    exact normalForm_of_languageArgs h

/-- The list of a Canadian browser with some noise in it. -/
theorem normalForm_of_canadian : NormalForm "fr-CA: en ,x_y" "fr-CA" "fr-CA,en,fr" :=
  (languageArgs_normalForm "fr-CA: en ,x_y").2 "fr-CA" "fr-CA,en,fr" (by decide)

end Pinokio
