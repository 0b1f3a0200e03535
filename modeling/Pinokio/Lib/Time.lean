/-
# Pinokio.Lib.Time -- spans and points of time in seconds and nanoseconds

A time is a number of seconds of so many bits and the nanoseconds of one more second.
Spans have 64 bits; points have the 63 bits of a signed count that starts at 0. A sum
is refused when its seconds have no room.
-/
import Mathlib.Data.Nat.Basic
import Mathlib.Tactic.NormNum

structure Timespec (bits : Nat) where
  secs : Nat
  nanos : Nat
  secs_lt : secs < 2 ^ bits
  nanos_lt : nanos < 10 ^ 9

/-- `std::time::Duration`. -/
abbrev Duration := Timespec 64

/-- `std::time::Instant`. -/
abbrev Instant := Timespec 63

namespace Timespec

variable {m n : Nat}

def inNanos (a : Timespec m) : Nat := a.secs * 10 ^ 9 + a.nanos

def checkedAdd (a : Timespec m) (b : Timespec n) : Option (Timespec m) :=
  if h : a.secs + b.secs + (a.nanos + b.nanos) / 10 ^ 9 < 2 ^ m then
    some
      { secs := a.secs + b.secs + (a.nanos + b.nanos) / 10 ^ 9
        nanos := (a.nanos + b.nanos) % 10 ^ 9
        secs_lt := h
        nanos_lt := Nat.mod_lt _ (by norm_num) }
  else none

/-- There is a sum exactly when it has a place. -/
theorem isSome_checkedAdd_iff {a : Timespec m} {b : Timespec n} :
    (a.checkedAdd b).isSome = true ↔ a.inNanos + b.inNanos < 2 ^ m * 10 ^ 9 := by
  have hroom : a.secs + b.secs + (a.nanos + b.nanos) / 10 ^ 9 < 2 ^ m ↔
      a.inNanos + b.inNanos < 2 ^ m * 10 ^ 9 := by
    simp only [inNanos]
    omega
  unfold checkedAdd
  by_cases h : a.secs + b.secs + (a.nanos + b.nanos) / 10 ^ 9 < 2 ^ m
  · rw [dif_pos h]
    exact iff_of_true rfl (hroom.mp h)
  · rw [dif_neg h]
    exact iff_of_false Bool.false_ne_true fun hlt => h (hroom.mpr hlt)

end Timespec

namespace Duration

def ofSecs (secs : Nat) (h : secs < 2 ^ 64) : Duration :=
  { secs, nanos := 0, secs_lt := h, nanos_lt := by norm_num }

/-- `Duration::from_millis`, of a number of 64 bits. -/
def ofMillis (ms : Nat) (h : ms < 2 ^ 64) : Duration where
  secs := ms / 1000
  nanos := ms % 1000 * 10 ^ 6
  secs_lt := (Nat.div_le_self ms 1000).trans_lt h
  nanos_lt := by
    have hlt := Nat.mod_lt ms (show 0 < 1000 by norm_num)
    omega

theorem inNanos_ofSecs (secs : Nat) (h : secs < 2 ^ 64) :
    Timespec.inNanos (ofSecs secs h) = secs * 10 ^ 9 := by
  simp only [Timespec.inNanos, ofSecs]
  omega

theorem inNanos_ofMillis (ms : Nat) (h : ms < 2 ^ 64) :
    Timespec.inNanos (ofMillis ms h) = ms * 10 ^ 6 := by
  simp only [Timespec.inNanos, ofMillis]
  omega

end Duration

/-- A point that a clock shows: the kernel counts nanoseconds, in the 63 bits of a
signed number. -/
def Instant.IsReading (now : Instant) : Prop := now.inNanos < 2 ^ 63
