/-
# Pinokio.Lib.Text -- strings as a standard library takes them apart

Character classes, trimming, splitting, ASCII case and decimal numbers, on the
characters of a string. Lengths count bytes of UTF-8, which is `String.utf8ByteSize`.
-/
import Mathlib
import Pinokio.Lib.Utf8

namespace Text

/-! ## Characters -/

/-- The Unicode property White_Space. -/
def isWhitespace (c : Char) : Bool :=
  (0x09 ≤ c.toNat && c.toNat ≤ 0x0d) || c.toNat = 0x20 || c.toNat = 0x85 || c.toNat = 0xa0 ||
    c.toNat = 0x1680 || (0x2000 ≤ c.toNat && c.toNat ≤ 0x200a) || c.toNat = 0x2028 ||
    c.toNat = 0x2029 || c.toNat = 0x202f || c.toNat = 0x205f || c.toNat = 0x3000

/-- The Unicode category Cc. -/
def isControl (c : Char) : Bool :=
  c.toNat < 0x20 || (0x7f ≤ c.toNat && c.toNat ≤ 0x9f)

def isAsciiGraphic (c : Char) : Bool := 0x21 ≤ c.toNat && c.toNat ≤ 0x7e

def isAsciiHexdigit (c : Char) : Bool :=
  c.isDigit || ('a' ≤ c && c ≤ 'f') || ('A' ≤ c && c ≤ 'F')

theorem isDigit_iff {c : Char} : c.isDigit = true ↔ 48 ≤ c.toNat ∧ c.toNat ≤ 57 := by
  simp only [Char.isDigit, ge_iff_le, Bool.and_eq_true, decide_eq_true_eq, UInt32.le_iff_toNat_le]
  exact Iff.rfl

theorem isUpper_iff {c : Char} : c.isUpper = true ↔ 65 ≤ c.toNat ∧ c.toNat ≤ 90 := by
  simp only [Char.isUpper, ge_iff_le, decide_eq_true_eq, UInt32.le_iff_toNat_le]
  exact Iff.rfl

theorem isLower_iff {c : Char} : c.isLower = true ↔ 97 ≤ c.toNat ∧ c.toNat ≤ 122 := by
  simp only [Char.isLower, ge_iff_le, Bool.and_eq_true, decide_eq_true_eq, UInt32.le_iff_toNat_le]
  exact Iff.rfl

theorem isAlphanum_iff {c : Char} :
    c.isAlphanum = true ↔ (48 ≤ c.toNat ∧ c.toNat ≤ 57) ∨ (65 ≤ c.toNat ∧ c.toNat ≤ 90) ∨
      (97 ≤ c.toNat ∧ c.toNat ≤ 122) := by
  simp only [Char.isAlphanum, Char.isAlpha, Bool.or_eq_true, isDigit_iff, isUpper_iff,
    isLower_iff]
  omega

theorem char_le_iff {a c : Char} : a ≤ c ↔ a.toNat ≤ c.toNat := by
  rw [Char.le_def, UInt32.le_iff_toNat_le]
  exact Iff.rfl

/-! ## Strings -/

def trim (s : String) : String :=
  String.ofList ((s.toList.dropWhile isWhitespace).rdropWhile isWhitespace)

/-- Nothing is left of it after trimming. -/
def isBlank (s : String) : Bool := trim s = ""

/-- The pieces between the separators, one more than there are separators. -/
def split (sep : Char → Bool) (s : String) : List String :=
  (s.toList.splitOnP sep).map String.ofList

def splitWhitespace (s : String) : List String :=
  (split isWhitespace s).filter fun piece => piece ≠ ""

def startsWith (pre s : String) : Bool := pre.toList.isPrefixOf s.toList

/-- What follows `pre`. -/
def stripPrefix (pre s : String) : Option String :=
  if startsWith pre s then some (String.ofList (s.toList.drop pre.toList.length)) else none

def endsWith (post s : String) : Bool := post.toList.isSuffixOf s.toList

def contains (part s : String) : Bool := decide (part.toList <:+: s.toList)

def asciiLower (s : String) : String := String.ofList (s.toList.map Char.toLower)

def asciiUpper (s : String) : String := String.ofList (s.toList.map Char.toUpper)

def isNewline (c : Char) : Bool := c = '\n'

/-- Without a carriage return at its end. -/
def stripReturn (s : String) : String :=
  if s.toList.getLast? = some '\r' then String.ofList s.toList.dropLast else s

/-- The lines of a text, each without its `\n` or `\r\n`. A last line that nothing ends
counts if it is not empty, and keeps all it has. -/
def lines (s : String) : List String :=
  (split isNewline s).dropLast.map stripReturn ++
    (split isNewline s).getLast?.toList.filter fun last => last ≠ ""

/-! ## Decimal numbers -/

inductive ParseIntError where
  | empty
  | invalidDigit
  | posOverflow
  deriving DecidableEq, Repr

def ParseIntError.message : ParseIntError → String
  | empty => "cannot parse integer from empty string"
  | invalidDigit => "invalid digit found in string"
  | posOverflow => "number too large to fit in target type"

/-- The digits of an unsigned number below `bound`, after the value `n` read so far. -/
def parseDigits (bound : Nat) : Nat → List Char → Except ParseIntError Nat
  | n, [] => .ok n
  | n, c :: cs =>
    if c.isDigit then
      if n * 10 + (c.toNat - 48) < bound then parseDigits bound (n * 10 + (c.toNat - 48)) cs
      else .error .posOverflow
    else .error .invalidDigit

/-- An unsigned number of so many bits; a leading `+` is allowed. -/
def parseUnsigned (bits : Nat) (s : String) : Except ParseIntError Nat :=
  match s.toList with
  | [] => .error .empty
  | ['+'] => .error .invalidDigit
  | '+' :: cs => parseDigits (2 ^ bits) 0 cs
  | cs => parseDigits (2 ^ bits) 0 cs

/-! ## Empty and blank strings -/

theorem ofList_eq_empty {l : List Char} : String.ofList l = "" ↔ l = [] := by
  rw [← String.toList_inj, String.toList_ofList]
  exact Iff.rfl

theorem asciiLower_eq_empty {s : String} : asciiLower s = "" ↔ s = "" := by
  rw [asciiLower, ofList_eq_empty, List.map_eq_nil_iff, ← String.toList_inj]
  exact Iff.rfl

theorem isBlank_iff {s : String} : isBlank s = true ↔ ∀ c ∈ s.toList, isWhitespace c = true := by
  rw [isBlank, decide_eq_true_eq, trim, ofList_eq_empty, List.rdropWhile_eq_nil_iff]
  constructor
  · intro h c hc
    by_cases hkept : c ∈ s.toList.dropWhile isWhitespace
    · exact h c hkept
    · rw [← List.takeWhile_append_dropWhile (p := isWhitespace) (l := s.toList)] at hc
      rcases List.mem_append.mp hc with hc | hc
      · exact List.mem_takeWhile_imp hc
      · exact absurd hc hkept
  · intro h c hc
    exact h c ((List.dropWhile_suffix isWhitespace).subset hc)

/-- Some character that is no white space keeps a string from being blank. -/
theorem not_isBlank_of_mem {s : String} {c : Char} (hc : c ∈ s.toList)
    (h : isWhitespace c = false) : isBlank s = false := by
  by_contra hblank
  have hall := isBlank_iff.mp (Bool.of_not_eq_false hblank) c hc
  rw [h] at hall
  cases hall

theorem splitOnP_of_forall {α : Type} {p : α → Bool} {l : List α} (h : ∀ x ∈ l, p x = true) :
    ∀ piece ∈ l.splitOnP p, piece = [] := by
  induction l with
  | nil =>
      intro piece hpiece
      simpa [List.splitOnP_nil] using hpiece
  | cons x l ih =>
      intro piece hpiece
      rw [List.splitOnP_cons_eq_if_modifyHead, if_pos (h x List.mem_cons_self)] at hpiece
      rcases List.mem_cons.mp hpiece with rfl | hpiece
      · rfl
      · exact ih (fun y hy => h y (List.mem_cons_of_mem x hy)) piece hpiece

theorem splitWhitespace_of_isBlank {s : String} (h : isBlank s = true) :
    splitWhitespace s = [] := by
  rw [splitWhitespace, List.filter_eq_nil_iff]
  intro piece hpiece
  obtain ⟨cs, hcs, rfl⟩ := List.mem_map.mp hpiece
  rw [splitOnP_of_forall (isBlank_iff.mp h) cs hcs]
  decide

/-! ## The characters of a string -/

/-- Every character of the string has the property. -/
def AllChars (p : Char → Prop) (s : String) : Prop := ∀ c ∈ s.toList, p c

section

variable {p q : Char → Prop} {s t : String} {sep : Char → Bool}

theorem AllChars.mono (h : AllChars p s) (hpq : ∀ c, p c → q c) : AllChars q s := by
  intro c hc
  exact hpq c (h c hc)

theorem AllChars.append (hs : AllChars p s) (ht : AllChars p t) : AllChars p (s ++ t) := by
  intro c hc
  rw [String.toList_append] at hc
  rcases List.mem_append.mp hc with hc | hc
  · exact hs c hc
  · exact ht c hc

theorem allChars_intercalate {l : List String} (hsep : AllChars p s)
    (h : ∀ t ∈ l, AllChars p t) : AllChars p (s.intercalate l) := by
  induction l with
  | nil =>
      intro c hc
      simp at hc
  | cons t l ih =>
      have hrest := ih fun u hu => h u (List.mem_cons_of_mem t hu)
      cases l with
      | nil =>
          rw [String.intercalate_singleton]
          exact h t List.mem_cons_self
      | cons u l =>
          rw [String.intercalate_cons_cons]
          exact ((h t List.mem_cons_self).append hsep).append hrest

/-- A list is made of the pieces it splits into and the separators between them. -/
theorem mem_splitOnP {α : Type} {p : α → Bool} {l : List α} {x : α} :
    x ∈ l → p x = true ∨ ∃ piece ∈ l.splitOnP p, x ∈ piece := by
  induction l with
  | nil =>
      intro hx
      cases hx
  | cons y l ih =>
      intro hx
      rw [List.splitOnP_cons_eq_if_modifyHead]
      split
      · rename_i hy
        rcases List.mem_cons.mp hx with rfl | hx
        · exact Or.inl hy
        · rcases ih hx with hp | ⟨piece, hpiece, hmem⟩
          · exact Or.inl hp
          · exact Or.inr ⟨piece, List.mem_cons_of_mem _ hpiece, hmem⟩
      · cases hsplit : l.splitOnP p with
        | nil => exact absurd hsplit (List.splitOnP_ne_nil p l)
        | cons first rest =>
            rw [hsplit] at ih
            rw [List.modifyHead_cons]
            rcases List.mem_cons.mp hx with rfl | hx
            · exact Or.inr ⟨x :: first, List.mem_cons_self, List.mem_cons_self⟩
            · rcases ih hx with hp | ⟨piece, hpiece, hmem⟩
              · exact Or.inl hp
              · rcases List.mem_cons.mp hpiece with rfl | hpiece
                · exact Or.inr ⟨y :: piece, List.mem_cons_self, List.mem_cons_of_mem y hmem⟩
                · exact Or.inr ⟨piece, List.mem_cons_of_mem _ hpiece, hmem⟩

theorem allChars_of_split (hsep : ∀ c, sep c = true → p c)
    (h : ∀ piece ∈ split sep s, AllChars p piece) : AllChars p s := by
  intro c hc
  rcases mem_splitOnP hc with hp | ⟨piece, hpiece, hmem⟩
  · exact hsep c hp
  · apply h (String.ofList piece) (List.mem_map.mpr ⟨piece, hpiece, rfl⟩)
    rwa [String.toList_ofList]

/-- Splitting takes apart what joining put together, when the parts have no separators. -/
theorem split_intercalate {c : Char} (hs : s.toList = [c]) (hc : sep c = true) {l : List String}
    (hne : l ≠ []) (h : ∀ t ∈ l, AllChars (fun d => sep d = false) t) :
    split sep (s.intercalate l) = l := by
  induction l with
  | nil => exact absurd rfl hne
  | cons t l ih =>
      have ht := h t List.mem_cons_self
      cases l with
      | nil =>
          rw [String.intercalate_singleton, split, List.splitOnP_eq_singleton ht,
            List.map_singleton, String.ofList_toList]
      | cons u l =>
          have hrest := ih (List.cons_ne_nil u l) fun v hv => h v (List.mem_cons_of_mem t hv)
          unfold split at hrest ⊢
          rw [String.intercalate_cons_cons, String.toList_append, String.toList_append, hs,
            List.append_assoc, List.singleton_append,
            List.splitOnP_append_cons_of_forall_mem ht c hc, List.map_cons, hrest,
            String.ofList_toList]

/-- No separator is in a piece. -/
theorem not_mem_of_splitOnP {α : Type} {p : α → Bool} {l : List α} :
    ∀ piece ∈ l.splitOnP p, ∀ x ∈ piece, p x = false := by
  induction l with
  | nil =>
      intro piece hpiece x hx
      rw [List.splitOnP_nil, List.mem_singleton] at hpiece
      rw [hpiece] at hx
      cases hx
  | cons y l ih =>
      intro piece hpiece x hx
      rw [List.splitOnP_cons_eq_if_modifyHead] at hpiece
      split at hpiece
      · rcases List.mem_cons.mp hpiece with rfl | hpiece
        · cases hx
        · exact ih piece hpiece x hx
      · rename_i hy
        cases hsplit : l.splitOnP p with
        | nil => exact absurd hsplit (List.splitOnP_ne_nil p l)
        | cons first rest =>
            rw [hsplit] at ih hpiece
            rw [List.modifyHead_cons] at hpiece
            rcases List.mem_cons.mp hpiece with rfl | hpiece
            · rcases List.mem_cons.mp hx with rfl | hx
              · exact Bool.eq_false_iff.mpr hy
              · exact ih first List.mem_cons_self x hx
            · exact ih piece (List.mem_cons_of_mem _ hpiece) x hx

/-- Something in it, and no white space. -/
def IsWord (t : String) : Prop := t ≠ "" ∧ AllChars (fun c => isWhitespace c = false) t

theorem isWord_of_splitWhitespace (h : t ∈ splitWhitespace s) : IsWord t := by
  obtain ⟨hpiece, hne⟩ := List.mem_filter.mp h
  obtain ⟨cs, hcs, rfl⟩ := List.mem_map.mp hpiece
  refine ⟨by simpa using hne, ?_⟩
  intro c hc
  rw [String.toList_ofList] at hc
  exact not_mem_of_splitOnP cs hcs c hc

/-- Words that are joined by blanks can be told apart again. -/
theorem splitWhitespace_intercalate {l : List String} (h : ∀ t ∈ l, IsWord t) :
    splitWhitespace (" ".intercalate l) = l := by
  cases l with
  | nil => decide
  | cons t l =>
      rw [splitWhitespace, split_intercalate (c := ' ') (by decide) (by decide)
        (List.cons_ne_nil t l) fun u hu => (h u hu).2, List.filter_eq_self]
      intro u hu
      simpa using (h u hu).1

theorem split_of_allChars (h : AllChars (fun d => sep d = false) s) : split sep s = [s] := by
  rw [split, List.splitOnP_eq_singleton h, List.map_singleton, String.ofList_toList]

/-- There is nothing to trim from a string without white space. -/
theorem trim_of_allChars (h : AllChars (fun c => isWhitespace c = false) s) : trim s = s := by
  have hleft : s.toList.dropWhile isWhitespace = s.toList := by
    cases hl : s.toList with
    | nil => rfl
    | cons c cs =>
        have hc := h c (hl ▸ List.mem_cons_self)
        rw [List.dropWhile_cons, if_neg (by rw [hc]; exact Bool.false_ne_true)]
  have hright : s.toList.rdropWhile isWhitespace = s.toList := by
    rw [List.rdropWhile_eq_self_iff]
    intro hl hlast
    rw [h _ (List.getLast_mem hl)] at hlast
    cases hlast
  rw [trim, hleft, hright, String.ofList_toList]

/-- Decimal digits only. -/
theorem allChars_toString (n : Nat) : AllChars (fun c => c.isDigit = true) (toString n) := by
  intro c hc
  rw [Nat.toString_eq_ofList_toDigits, String.toList_ofList] at hc
  exact Nat.isDigit_of_mem_toDigits (by decide) (by decide) hc

theorem rdropWhile_append_of_pos {α : Type} {p : α → Bool} {l l' : List α}
    (h : ∀ x ∈ l', p x = true) : (l ++ l').rdropWhile p = l.rdropWhile p := by
  have hreverse : ∀ x ∈ l'.reverse, p x = true := by
    intro x hx
    exact h x (List.mem_reverse.mp hx)
  rw [List.rdropWhile, List.rdropWhile, List.reverse_append, List.dropWhile_append_of_pos hreverse]

/-- White space around a string is trimmed away. -/
theorem trim_surrounded {before after : String}
    (hbefore : AllChars (fun c => isWhitespace c = true) before)
    (hafter : AllChars (fun c => isWhitespace c = true) after) :
    trim (before ++ s ++ after) = trim s := by
  unfold trim
  rw [String.toList_append, String.toList_append, List.append_assoc,
    List.dropWhile_append_of_pos hbefore, List.dropWhile_append]
  split
  · rename_i hempty
    rw [List.isEmpty_iff.mp hempty, List.dropWhile_eq_nil_iff.mpr hafter]
  · rw [rdropWhile_append_of_pos hafter]

/-- A string is what trimming leaves of it, between white space. -/
theorem eq_surrounded_trim (s : String) :
    ∃ before after, AllChars (fun c => isWhitespace c = true) before ∧
      AllChars (fun c => isWhitespace c = true) after ∧ s = before ++ trim s ++ after := by
  have hright : ∀ l : List Char,
      l.rdropWhile isWhitespace ++ l.rtakeWhile isWhitespace = l := by
    intro l
    rw [List.rdropWhile, List.rtakeWhile, ← List.reverse_append, List.takeWhile_append_dropWhile,
      List.reverse_reverse]
  refine ⟨String.ofList (s.toList.takeWhile isWhitespace),
    String.ofList ((s.toList.dropWhile isWhitespace).rtakeWhile isWhitespace), ?_, ?_, ?_⟩
  · intro c hc
    rw [String.toList_ofList] at hc
    exact List.mem_takeWhile_imp hc
  · intro c hc
    rw [String.toList_ofList] at hc
    exact List.mem_rtakeWhile_imp hc
  · rw [← String.toList_inj, String.toList_append, String.toList_append, trim,
      String.toList_ofList, String.toList_ofList, String.toList_ofList, List.append_assoc, hright,
      List.takeWhile_append_dropWhile]

@[simp] theorem trim_trim (s : String) : trim (trim s) = trim s := by
  obtain ⟨before, after, hbefore, hafter, heq⟩ := eq_surrounded_trim s
  calc trim (trim s)
      = trim (before ++ trim s ++ after) := (trim_surrounded hbefore hafter).symm
    _ = trim s := by rw [← heq]

/-- White space between two texts separates their words. -/
theorem splitWhitespace_append {l after : List Char} {c : Char} (hc : isWhitespace c = true) :
    splitWhitespace (String.ofList (l ++ c :: after)) =
      splitWhitespace (String.ofList l) ++ splitWhitespace (String.ofList after) := by
  simp only [splitWhitespace, split, String.toList_ofList, List.splitOnP_append_cons l after hc,
    List.map_append, List.filter_append]

theorem splitWhitespace_blank {l : List Char} (h : ∀ c ∈ l, isWhitespace c = true) :
    splitWhitespace (String.ofList l) = [] := by
  apply splitWhitespace_of_isBlank
  rw [isBlank_iff, String.toList_ofList]
  exact h

/-- The words of a text are those of what trimming leaves. -/
theorem splitWhitespace_trim (s : String) : splitWhitespace (trim s) = splitWhitespace s := by
  obtain ⟨before, after, hbefore, hafter, heq⟩ := eq_surrounded_trim s
  have hleft : ∀ l : List Char,
      splitWhitespace (String.ofList (before.toList ++ l)) = splitWhitespace (String.ofList l) := by
    intro l
    rcases List.eq_nil_or_concat' before.toList with hnil | ⟨init, c, hconcat⟩
    · rw [hnil, List.nil_append]
    · have hblank : ∀ x ∈ init, isWhitespace x = true := fun x hx =>
        hbefore x (by rw [hconcat]; simp [hx])
      have hc : isWhitespace c = true := hbefore c (by rw [hconcat]; simp)
      rw [hconcat, List.append_assoc, List.singleton_append, splitWhitespace_append hc,
        splitWhitespace_blank hblank, List.nil_append]
  have hright : ∀ l : List Char,
      splitWhitespace (String.ofList (l ++ after.toList)) = splitWhitespace (String.ofList l) := by
    intro l
    cases hcons : after.toList with
    | nil => rw [List.append_nil]
    | cons c rest =>
        have hblank : ∀ x ∈ rest, isWhitespace x = true := fun x hx =>
          hafter x (by rw [hcons]; exact List.mem_cons_of_mem _ hx)
        have hc : isWhitespace c = true := hafter c (by rw [hcons]; exact List.mem_cons_self)
        rw [splitWhitespace_append hc, splitWhitespace_blank hblank, List.append_nil]
  have hlist : s = String.ofList (before.toList ++ ((trim s).toList ++ after.toList)) := by
    conv_lhs => rw [heq]
    rw [← String.toList_inj, String.toList_ofList, String.toList_append, String.toList_append,
      List.append_assoc]
  conv_rhs => rw [hlist, hleft, hright, String.ofList_toList]

/-- What trims to a trimmed string is that string between white space. -/
theorem trim_eq_iff (ht : trim t = t) :
    trim s = t ↔ ∃ before after, AllChars (fun c => isWhitespace c = true) before ∧
      AllChars (fun c => isWhitespace c = true) after ∧ s = before ++ t ++ after := by
  constructor
  · rintro rfl
    exact eq_surrounded_trim s
  · rintro ⟨before, after, hbefore, hafter, rfl⟩
    rw [trim_surrounded hbefore hafter, ht]

theorem stripPrefix_eq_some_iff {pre rest : String} :
    stripPrefix pre s = some rest ↔ s = pre ++ rest := by
  unfold stripPrefix startsWith
  constructor
  · intro h
    split at h
    · rename_i hpre
      obtain ⟨back, hback⟩ := List.isPrefixOf_iff_prefix.mp hpre
      rw [← Option.some.inj h, ← hback, List.drop_left, ← String.toList_inj, String.toList_append,
        String.toList_ofList, hback]
    · cases h
  · rintro rfl
    rw [String.toList_append, if_pos (List.isPrefixOf_iff_prefix.mpr (List.prefix_append _ _)),
      List.drop_left, String.ofList_toList]

/-! ## Lines -/

theorem lines_of_allChars (h : AllChars (fun c => isNewline c = false) s) :
    lines s = [s].filter fun last => last ≠ "" := by
  rw [lines, split_of_allChars h]
  rfl

/-- A line and what follows it. -/
theorem lines_append (h : AllChars (fun c => isNewline c = false) s) :
    lines (s ++ "\n" ++ t) = stripReturn s :: lines t := by
  have hlist : (s ++ "\n" ++ t).toList = s.toList ++ '\n' :: t.toList := by simp
  have hsplit : split isNewline (s ++ "\n" ++ t) = s :: split isNewline t := by
    unfold split
    rw [hlist, List.splitOnP_append_cons_of_forall_mem h '\n' (by decide), List.map_cons,
      String.ofList_toList]
  have hne : split isNewline t ≠ [] := by
    rw [split, Ne, List.map_eq_nil_iff]
    exact List.splitOnP_ne_nil _ _
  unfold lines
  rw [hsplit, List.dropLast_cons_of_ne_nil hne, List.map_cons, List.cons_append,
    List.getLast?_cons_of_ne_nil hne]

theorem stripReturn_of_allChars (h : AllChars (fun c => c ≠ '\r') s) : stripReturn s = s := by
  rw [stripReturn, if_neg]
  intro hlast
  exact h '\r' (List.mem_of_getLast? hlast) rfl

end

/-! ## Numbers and their digits -/

/-- Digits are read as the number they write, if there is room for it. -/
theorem parseDigits_ofDigitChars {bound n : Nat} {cs : List Char}
    (h : ∀ c ∈ cs, c.isDigit = true) (hlt : Nat.ofDigitChars 10 cs n < bound) :
    parseDigits bound n cs = .ok (Nat.ofDigitChars 10 cs n) := by
  induction cs generalizing n with
  | nil => rfl
  | cons c cs ih =>
      have hstep : Nat.ofDigitChars 10 (c :: cs) n =
          Nat.ofDigitChars 10 cs (n * 10 + (c.toNat - 48)) := by
        rw [Nat.ofDigitChars_cons, Nat.mul_comm]
        rfl
      rw [hstep] at hlt ⊢
      have hroom : n * 10 + (c.toNat - 48) < bound := by
        rw [Nat.ofDigitChars_eq_ofDigitChars_zero] at hlt
        have hpos : 1 ≤ 10 ^ cs.length := Nat.one_le_pow' _ _
        have hle := Nat.le_mul_of_pos_left (n * 10 + (c.toNat - 48)) hpos
        omega
      rw [parseDigits, if_pos (h c List.mem_cons_self), if_pos hroom]
      exact ih (fun d hd => h d (List.mem_cons_of_mem c hd)) hlt

theorem lt_of_parseDigits {bound n v : Nat} {cs : List Char} (hn : n < bound)
    (h : parseDigits bound n cs = .ok v) : v < bound := by
  induction cs generalizing n with
  | nil =>
      cases h
      exact hn
  | cons c cs ih =>
      unfold parseDigits at h
      split at h
      · split at h
        · rename_i hroom
          exact ih hroom h
        · cases h
      · cases h

/-- A number that is read fits its type. -/
theorem lt_of_parseUnsigned {bits v : Nat} {s : String} (h : parseUnsigned bits s = .ok v) :
    v < 2 ^ bits := by
  have hpos : 0 < 2 ^ bits := Nat.two_pow_pos bits
  unfold parseUnsigned at h
  split at h
  · cases h
  · cases h
  · exact lt_of_parseDigits hpos h
  · exact lt_of_parseDigits hpos h

theorem parseUnsigned_of_digits {bits : Nat} {s : String} (hne : s ≠ "")
    (h : AllChars (fun c => c.isDigit = true) s) :
    parseUnsigned bits s = parseDigits (2 ^ bits) 0 s.toList := by
  unfold parseUnsigned
  split
  · rename_i hnil
    exact absurd (String.toList_inj.mp (hnil.trans rfl)) hne
  · rename_i hplus
    exact absurd (h '+' (hplus ▸ List.mem_cons_self)) (by decide)
  · rename_i cs _ hplus
    exact absurd (h '+' (hplus ▸ List.mem_cons_self)) (by decide)
  · rfl

theorem parseUnsigned_toString {bits n : Nat} (h : n < 2 ^ bits) :
    parseUnsigned bits (toString n) = .ok n := by
  have hdigits : (toString n).toList = Nat.toDigits 10 n := by
    rw [Nat.toString_eq_ofList_toDigits, String.toList_ofList]
  have hne : toString n ≠ "" := by
    intro hempty
    rw [hempty] at hdigits
    exact Nat.toDigits_ne_nil hdigits.symm
  rw [parseUnsigned_of_digits hne (allChars_toString n), hdigits,
    parseDigits_ofDigitChars (hdigits ▸ allChars_toString n), Nat.ofDigitChars_ten_toDigits]
  rwa [Nat.ofDigitChars_ten_toDigits]

/-! ## Character classes -/

theorem isWhitespace_of_isAlphanum {c : Char} (h : c.isAlphanum = true) :
    isWhitespace c = false := by
  rw [isAlphanum_iff] at h
  simp only [isWhitespace, Bool.or_eq_false_iff, Bool.and_eq_false_iff, decide_eq_false_iff_not]
  omega

/-! ## Printable text -/

/-- No control characters. -/
def Printable (s : String) : Prop := AllChars (fun c => isControl c = false) s

theorem isControl_of_isAlphanum {c : Char} (h : c.isAlphanum = true) : isControl c = false := by
  rw [isAlphanum_iff] at h
  simp only [isControl, Bool.or_eq_false_iff, Bool.and_eq_false_iff, decide_eq_false_iff_not]
  omega

theorem isControl_of_isDigit {c : Char} (h : c.isDigit = true) : isControl c = false := by
  apply isControl_of_isAlphanum
  simp [Char.isAlphanum, h]

theorem isControl_of_isAsciiGraphic {c : Char} (h : isAsciiGraphic c = true) :
    isControl c = false := by
  simp only [isAsciiGraphic, Bool.and_eq_true, decide_eq_true_eq] at h
  simp only [isControl, Bool.or_eq_false_iff, Bool.and_eq_false_iff, decide_eq_false_iff_not]
  omega

end Text
