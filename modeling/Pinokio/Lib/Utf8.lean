/-
# Pinokio.Lib.Utf8 -- strings and their bytes

Encoding and decoding cancel, and the first bytes of a text are a text only where they
end between two characters. `decodeLossy` reads any bytes, with U+FFFD in place of each
piece that is no character; of a text it changes nothing.
-/
import Mathlib.Data.List.Basic

namespace Utf8

theorem fromUTF8?_toUTF8 (s : String) : String.fromUTF8? s.toUTF8 = some s := by
  have hvalid : s.toUTF8.IsValidUTF8 := s.isValidUTF8
  exact dif_pos hvalid

theorem toUTF8_of_fromUTF8? {b : ByteArray} {s : String} (h : String.fromUTF8? b = some s) :
    s.toUTF8 = b := by
  by_cases hvalid : b.IsValidUTF8
  · rw [String.fromUTF8?, dif_pos hvalid] at h
    rw [← Option.some.inj h]
    rfl
  · rw [String.fromUTF8?, dif_neg hvalid] at h
    cases h

theorem toUTF8_inj {s t : String} : s.toUTF8 = t.toUTF8 ↔ s = t := String.toByteArray_inj

/-- The first bytes of a text that are a text are its first characters. -/
theorem prefix_of_fromUTF8? {b rest : ByteArray} {s c : String} (hb : b ++ rest = s.toUTF8)
    (h : String.fromUTF8? b = some c) : c.toList <+: s.toList := by
  have hc : c.toUTF8 = b := toUTF8_of_fromUTF8? h
  have hsize : s.utf8ByteSize = b.size + rest.size := by
    rw [← String.size_toByteArray, ← String.toUTF8_eq_toByteArray, ← hb, ByteArray.size_append]
  have hvalid : (String.Pos.Raw.mk b.size).IsValid s := by
    rw [String.Pos.Raw.isValid_iff_isValidUTF8_extract_zero]
    constructor
    · show b.size ≤ s.utf8ByteSize
      omega
    · rw [← String.toUTF8_eq_toByteArray, ← hb, ByteArray.extract_append_eq_left rfl, ← hc]
      exact c.isValidUTF8
  obtain ⟨front, back, rfl, hpos⟩ := String.Pos.Raw.isValid_iff_exists_append.mp hvalid
  have hfront : front = c := by
    rw [← String.toByteArray_inj]
    rw [String.toUTF8_eq_toByteArray, String.toByteArray_append, ← hc] at hb
    refine (ByteArray.append_inj_left hb ?_).symm
    have hlen := congrArg String.Pos.Raw.byteIdx hpos
    rw [hc]
    simpa using hlen
  rw [hfront, String.toList_append]
  exact List.prefix_append _ _

/-! ## Bytes that need not be a text -/

/-- The bytes that may follow a first byte of two or more, as ranges. -/
def continuations (lead : UInt8) : List (UInt8 × UInt8) :=
  if 0xc2 ≤ lead ∧ lead ≤ 0xdf then [(0x80, 0xbf)]
  else if lead = 0xe0 then [(0xa0, 0xbf), (0x80, 0xbf)]
  else if lead = 0xed then [(0x80, 0x9f), (0x80, 0xbf)]
  else if 0xe1 ≤ lead ∧ lead ≤ 0xef then [(0x80, 0xbf), (0x80, 0xbf)]
  else if lead = 0xf0 then [(0x90, 0xbf), (0x80, 0xbf), (0x80, 0xbf)]
  else if 0xf1 ≤ lead ∧ lead ≤ 0xf3 then [(0x80, 0xbf), (0x80, 0xbf), (0x80, 0xbf)]
  else if lead = 0xf4 then [(0x80, 0x8f), (0x80, 0xbf), (0x80, 0xbf)]
  else []

/-- How many of the bytes lie in the ranges, one after the other. -/
def matched : List (UInt8 × UInt8) → List UInt8 → Nat
  | (low, high) :: ranges, b :: bytes =>
    if low ≤ b ∧ b ≤ high then matched ranges bytes + 1 else 0
  | _, _ => 0

/-- The length of the piece that one U+FFFD stands for: as much as could have been the
beginning of a character. -/
def brokenSize (bytes : ByteArray) : Nat :=
  match bytes.data.toList with
  | [] => 0
  | lead :: rest => matched (continuations lead) rest + 1

/-- `decodeLossy` of at most so many pieces. -/
def decodePieces : Nat → ByteArray → List Char
  | 0, _ => []
  | fuel + 1, bytes =>
    if bytes.size = 0 then []
    else
      match bytes.utf8DecodeChar? 0 with
      | some c => c :: decodePieces fuel (bytes.extract c.utf8Size bytes.size)
      | none => '\uFFFD' :: decodePieces fuel (bytes.extract (brokenSize bytes) bytes.size)

/-- The text of some bytes, with U+FFFD for what is no character. -/
def decodeLossy (bytes : ByteArray) : String := String.ofList (decodePieces bytes.size bytes)

theorem size_utf8Encode_singleton (c : Char) : [c].utf8Encode.size = c.utf8Size := by
  simp [List.utf8Encode_singleton]

theorem decodePieces_utf8Encode {l : List Char} {fuel : Nat} (h : l.length ≤ fuel) :
    decodePieces fuel l.utf8Encode = l := by
  induction l generalizing fuel with
  | nil =>
      cases fuel with
      | zero => rfl
      | succ fuel => rfl
  | cons c l ih =>
      obtain ⟨fuel, rfl⟩ : ∃ m, fuel = m + 1 := ⟨fuel - 1, by simp at h; omega⟩
      have hsize : (c :: l).utf8Encode.size = c.utf8Size + l.utf8Encode.size := by
        rw [List.utf8Encode_cons, ByteArray.size_append, size_utf8Encode_singleton]
      have hpos := c.utf8Size_pos
      have hrest : (c :: l).utf8Encode.extract c.utf8Size (c :: l).utf8Encode.size =
          l.utf8Encode := by
        rw [hsize, List.utf8Encode_cons]
        apply ByteArray.extract_append_eq_right
        · exact (size_utf8Encode_singleton c).symm
        · rw [size_utf8Encode_singleton]
      rw [decodePieces, if_neg (by omega), List.utf8DecodeChar?_utf8Encode_cons]
      show c :: decodePieces fuel _ = c :: l
      rw [hrest, ih (Nat.le_of_succ_le_succ h)]

theorem length_le_size_utf8Encode (l : List Char) : l.length ≤ l.utf8Encode.size := by
  induction l with
  | nil => exact Nat.zero_le _
  | cons c l ih =>
      have hpos := c.utf8Size_pos
      rw [List.utf8Encode_cons, ByteArray.size_append, size_utf8Encode_singleton, List.length_cons]
      omega

/-- A text is read as it is. -/
theorem decodeLossy_toUTF8 (s : String) : decodeLossy s.toUTF8 = s := by
  have hbytes : s.toUTF8 = s.toList.utf8Encode := by
    rw [String.toUTF8_eq_toByteArray, String.utf8Encode_toList]
  rw [decodeLossy, hbytes, decodePieces_utf8Encode (length_le_size_utf8Encode _),
    String.ofList_toList]

end Utf8
