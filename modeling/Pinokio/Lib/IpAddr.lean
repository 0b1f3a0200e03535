/-
# Pinokio.Lib.IpAddr -- reading an IP address

The textual forms of IPv4 and IPv6 addresses, as a standard library reads them: each
reader takes what it can from the front of the text and returns the rest.
-/
import Mathlib.Data.List.Basic

inductive IpAddr where
  | v4 (a b c d : Nat)
  | v6 (groups : List Nat)
  deriving DecidableEq, Repr

namespace IpAddr

def digitValue (c : Char) : Nat :=
  if c.isDigit then c.toNat - 48
  else if 'a' ≤ c ∧ c ≤ 'f' then c.toNat - 87
  else if 'A' ≤ c ∧ c ≤ 'F' then c.toNat - 55
  else 36

/-- A number of at most `maxDigits` digits that is below `bound`. -/
def readNumber (radix maxDigits bound : Nat) (zeroPrefix : Bool) (cs : List Char) :
    Option (Nat × List Char) :=
  let digits := cs.takeWhile fun c => digitValue c < radix
  let value := digits.foldl (fun n c => n * radix + digitValue c) 0
  if digits = [] ∨ maxDigits < digits.length then none
  else if !zeroPrefix ∧ digits.head? = some '0' ∧ 1 < digits.length then none
  else if value < bound then some (value, cs.drop digits.length)
  else none

def readChar (c : Char) : List Char → Option (List Char)
  | d :: cs => if d = c then some cs else none
  | [] => none

/-- A decimal number of one byte, without leading zeros. -/
def readOctet (cs : List Char) : Option (Nat × List Char) := readNumber 10 3 256 false cs

def readV4 (cs : List Char) : Option ((Nat × Nat × Nat × Nat) × List Char) := do
  let (a, cs) ← readOctet cs
  let (b, cs) ← (readChar '.' cs).bind readOctet
  let (c, cs) ← (readChar '.' cs).bind readOctet
  let (d, cs) ← (readChar '.' cs).bind readOctet
  some ((a, b, c, d), cs)

/-- Up to `slots` groups of an IPv6 address, the first of them the `i`-th; whether the
last two are an embedded IPv4 address. -/
def readGroups : Nat → Nat → List Char → List Nat × Bool × List Char
  | 0, _, cs => ([], false, cs)
  | slots + 1, i, cs =>
    let inner := if i = 0 then some cs else readChar ':' cs
    match if slots = 0 then none else inner.bind readV4 with
    | some ((a, b, c, d), rest) => ([a * 256 + b, c * 256 + d], true, rest)
    | none =>
      match inner.bind (readNumber 16 4 65536 true) with
      | some (group, rest) =>
        let (groups, embedded, rest) := readGroups slots (i + 1) rest
        (group :: groups, embedded, rest)
      | none => ([], false, cs)

/-- All eight groups, or fewer with `::` for the zeros between. -/
def readV6 (cs : List Char) : Option (List Nat × List Char) :=
  let (head, embedded, cs) := readGroups 8 0 cs
  if head.length = 8 then some (head, cs)
  else if embedded then none
  else
    ((readChar ':' cs).bind (readChar ':')).map fun cs =>
      let (tail, _, cs) := readGroups (8 - (head.length + 1)) 0 cs
      (head ++ List.replicate (8 - head.length - tail.length) 0 ++ tail, cs)

def parse (s : String) : Option IpAddr :=
  match readV4 s.toList with
  | some ((a, b, c, d), rest) => if rest = [] then some (.v4 a b c d) else none
  | none =>
    (readV6 s.toList).bind fun (groups, rest) => if rest = [] then some (.v6 groups) else none

example : parse "0.0.0.0" = some (.v4 0 0 0 0) := by decide

example : parse "::ffff:10.0.0.1" = some (.v6 [0, 0, 0, 0, 0, 65535, 2560, 1]) := by decide

/-- A text that begins with no digit and no colon is no address. -/
theorem parse_eq_none {s : String} (h : ∀ c ∈ s.toList, 16 ≤ digitValue c ∧ c ≠ ':') :
    parse s = none := by
  unfold parse
  generalize s.toList = cs at h
  cases cs with
  | nil => decide
  | cons c cs =>
      obtain ⟨hdigit, hcolon⟩ := h c List.mem_cons_self
      have hdecimal : ¬ digitValue c < 10 := by omega
      have hhex : ¬ digitValue c < 16 := by omega
      have hoctet : readOctet (c :: cs) = none := by
        simp [readOctet, readNumber, hdecimal]
      have hv4 : readV4 (c :: cs) = none := by
        simp [readV4, hoctet]
      have hgroups : readGroups 8 0 (c :: cs) = ([], false, c :: cs) := by
        simp [readGroups, hv4, readNumber, hhex]
      simp [hv4, readV6, hgroups, readChar, hcolon]

end IpAddr
