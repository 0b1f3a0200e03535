/-
# Pinokio.Chromium.Identity -- which browser this is (`chromium.rs`)

`identify` from what `chrome --version` prints and from the hash of the executable. What
it finds is what sessions advertise in their user agent: `userAgent_advertises` is that
of all a browser prints only the major number of the version gets there.
-/
import Pinokio.Chromium.Launch
import Pinokio.Config.FailClosed
import Pinokio.Lib.Utf8

namespace Pinokio

open Text

/-- Identity of the browser binary. -/
structure BrowserInfo where
  engine : BrowserEngine
  name : Option String
  version : Option String
  sha256 : Option String
  path : String
  deriving DecidableEq, Repr

/-! ## `--version` -/

/-- How the command ends that asks a browser for its version. -/
inductive VersionRun where
  | timeout
  | fails
  | exits (success : Bool) (stdout : ByteArray)

/-- The trimmed output, when the binary answers. -/
def version : VersionRun → Option String
  | .exits true stdout =>
    let text := trim (Utf8.decodeLossy stdout)
    if text = "" then none else some text
  | _ => none

/-- A token that looks like a dotted number. -/
def isVersion (token : String) : Bool :=
  token.toList.contains '.' && token.toList.all (fun c => c.isDigit || c = '.') &&
    token.toList.head?.any Char.isDigit

/-- Splits `--version` output into a name and a version. -/
def splitVersionOutput (output : String) : Option String × Option String :=
  let tokens := splitWhitespace output
  match tokens.findIdx? isVersion with
  | some index =>
    (if 0 < index then some (" ".intercalate (tokens.take index)) else none, tokens[index]?)
  | none => (if tokens.isEmpty then none else some (" ".intercalate tokens), none)

/-! ## The hash of the executable -/

section

variable (sha256 : List UInt8 → String)

/-- The loop of `sha256_file`, after `hashed` went through the hasher, on what `read` returns
time after time. It has no result while the file goes on. -/
def hashReads : List UInt8 → List (Except String (List UInt8)) → Option (Except String String)
  | _, [] => none
  | _, .error e :: _ => some (.error e)
  | hashed, .ok piece :: reads =>
    if piece = [] then some (.ok (sha256 hashed)) else hashReads (hashed ++ piece) reads

/-- `sha256_file`. -/
def sha256File (opened : Except String (List (Except String (List UInt8)))) :
    Option (Except String String) :=
  match opened with
  | .error e => some (.error e)
  | .ok reads => hashReads sha256 [] reads

/-- The hash is that of all that was read, in whatever pieces, up to the first empty one. -/
theorem hashReads_eq_ok {hashed : List UInt8} {reads : List (Except String (List UInt8))}
    {digest : String} :
    hashReads sha256 hashed reads = some (.ok digest) ↔
      ∃ (pieces : List (List UInt8)) (later : List (Except String (List UInt8))),
        reads = pieces.map .ok ++ .ok [] :: later ∧ (∀ piece ∈ pieces, piece ≠ []) ∧
        digest = sha256 (hashed ++ pieces.flatten) := by
  induction reads generalizing hashed with
  | nil => simp [hashReads]
  | cons read reads ih =>
      cases read with
      | error e =>
          refine ⟨nofun, ?_⟩
          rintro ⟨pieces, later, heq, -, -⟩
          cases pieces <;> cases heq
      | ok piece =>
          by_cases hempty : piece = []
          · subst hempty
            constructor
            · intro h
              obtain rfl : sha256 hashed = digest := by simpa [hashReads] using h
              exact ⟨[], reads, rfl, nofun, by simp⟩
            · rintro ⟨pieces, later, heq, hne, rfl⟩
              cases pieces with
              | nil => simp [hashReads]
              | cons first pieces =>
                  obtain ⟨hfirst, -⟩ := List.cons.inj heq
                  exact absurd (Except.ok.inj hfirst).symm (hne first List.mem_cons_self)
          · rw [hashReads, if_neg hempty, ih]
            constructor
            · rintro ⟨pieces, later, rfl, hne, rfl⟩
              refine ⟨piece :: pieces, later, rfl, ?_, by simp⟩
              exact List.forall_mem_cons.mpr ⟨hempty, hne⟩
            · rintro ⟨pieces, later, heq, hne, rfl⟩
              cases pieces with
              | nil =>
                  obtain ⟨hfirst, -⟩ := List.cons.inj heq
                  exact absurd (Except.ok.inj hfirst) hempty
              | cons first pieces =>
                  obtain ⟨hfirst, rfl⟩ := List.cons.inj heq
                  obtain rfl := Except.ok.inj hfirst
                  exact ⟨pieces, later, rfl, fun q hq => hne q (List.mem_cons_of_mem _ hq), by simp⟩

end

/-- `identify`, from how the version command ended and what hashing came to; a hash that
failed, or whose task did, is no error. -/
def identify (config : Config) (run : VersionRun) (hash : Except String String) : BrowserInfo :=
  let split := (version run).elim (none, none) splitVersionOutput
  { engine := config.browserEngine
    name := split.1
    version := split.2
    sha256 := hash.toOption
    path := config.chromePath }

/-- The identity has a hash exactly when the executable was read to its end, and it is that
of all that was read. -/
theorem identify_sha256 (config : Config) (run : VersionRun) {sha256 : List UInt8 → String}
    {opened : Except String (List (Except String (List UInt8)))} {hash : Except String String}
    (h : sha256File sha256 opened = some hash) (digest : String) :
    (identify config run hash).sha256 = some digest ↔
      ∃ (pieces : List (List UInt8)) (later : List (Except String (List UInt8))),
        opened = .ok (pieces.map .ok ++ .ok [] :: later) ∧
        (∀ piece ∈ pieces, piece ≠ []) ∧ digest = sha256 pieces.flatten := by
  have hidentity : (identify config run hash).sha256 = some digest ↔ hash = .ok digest := by
    cases hash <;> simp [identify, Except.toOption]
  rw [hidentity]
  cases opened with
  | error e =>
      obtain rfl := Option.some.inj h
      simp
  | ok reads =>
      have hreads : hash = .ok digest ↔ hashReads sha256 [] reads = some (.ok digest) := by
        rw [show hashReads sha256 [] reads = some hash from h, Option.some.injEq]
      rw [hreads, hashReads_eq_ok]
      simp only [Except.ok.injEq, List.nil_append]

/-! ## Names and versions -/

/-- Words joined by blanks, if there are any. -/
def joined (words : List String) : Option String :=
  if words = [] then none else some (" ".intercalate words)

/-- The version is the first token that looks like one, the name what stands before it. -/
theorem splitVersionOutput_eq (output : String) :
    splitVersionOutput output =
      (joined ((splitWhitespace output).takeWhile fun t => !isVersion t),
        (splitWhitespace output).find? isVersion) := by
  cases hindex : (splitWhitespace output).findIdx? isVersion with
  | none =>
      have hno := List.findIdx?_eq_none_iff.mp hindex
      have hwhile : (splitWhitespace output).takeWhile (fun t => !isVersion t) =
          splitWhitespace output := by
        rw [List.takeWhile_eq_self_iff]
        intro t ht
        rw [hno t ht]
        rfl
      have hfind : (splitWhitespace output).find? isVersion = none := by
        rw [List.find?_eq_none]
        intro t ht
        rw [hno t ht]
        exact Bool.false_ne_true
      simp only [splitVersionOutput, hindex, List.isEmpty_iff, hwhile, hfind, joined]
  | some index =>
      obtain ⟨hlt, hidx⟩ := List.findIdx?_eq_some_iff_findIdx_eq.mp hindex
      have hwhile : (splitWhitespace output).takeWhile (fun t => !isVersion t) =
          (splitWhitespace output).take index := by
        rw [List.takeWhile_eq_take_findIdx_not]
        simp only [Bool.not_not, hidx]
      have hfind : (splitWhitespace output).find? isVersion = (splitWhitespace output)[index]? := by
        rw [List.find?_eq_getElem?_findIdx, hidx]
      have hempty : (splitWhitespace output).take index = [] ↔ ¬ 0 < index := by
        rw [List.take_eq_nil_iff, Nat.not_lt, Nat.le_zero]
        constructor
        · rintro (h | hnil)
          · exact h
          · rw [hnil] at hlt
            exact absurd hlt (Nat.not_lt_zero index)
        · exact Or.inl
      simp only [splitVersionOutput, hindex, hwhile, hfind, joined, hempty, ite_not]

/-- What a browser is taken for that answers with a text. -/
theorem splitVersionOutput_version (text : String) :
    (version (.exits true text.toUTF8)).elim (none, none) splitVersionOutput =
      splitVersionOutput text := by
  rw [version, Utf8.decodeLossy_toUTF8]
  by_cases hblank : trim text = ""
  · have hnone : splitWhitespace text = [] := splitWhitespace_of_isBlank (by simp [isBlank, hblank])
    rw [if_pos hblank, splitVersionOutput_eq, hnone]
    rfl
  · rw [if_neg hblank, Option.elim_some, splitVersionOutput_eq, splitWhitespace_trim,
      ← splitVersionOutput_eq]

/-- The identity of a browser that answers: its version is the first word that looks like one
in the text it prints, its name what stands before that, and it has a hash exactly when the
executable was read to its end, and then that of all that was read. -/
theorem identify_answered (config : Config) (text : String) {sha256 : List UInt8 → String}
    {opened : Except String (List (Except String (List UInt8)))} {hash : Except String String}
    (h : sha256File sha256 opened = some hash) :
    (identify config (.exits true text.toUTF8) hash).version =
        (splitWhitespace text).find? isVersion ∧
      (identify config (.exits true text.toUTF8) hash).name =
        joined ((splitWhitespace text).takeWhile fun t => !isVersion t) ∧
      ∀ digest, (identify config (.exits true text.toUTF8) hash).sha256 = some digest ↔
        ∃ (pieces : List (List UInt8)) (later : List (Except String (List UInt8))),
          opened = .ok (pieces.map .ok ++ .ok [] :: later) ∧
          (∀ piece ∈ pieces, piece ≠ []) ∧ digest = sha256 pieces.flatten := by
  have hsplit := (splitVersionOutput_version text).trans (splitVersionOutput_eq text)
  refine ⟨?_, ?_, identify_sha256 config _ h⟩
  · simp only [identify, hsplit]
  · simp only [identify, hsplit]

/-- SHA-256, on a file of three bytes. -/
def abcDigest (contents : List UInt8) : String :=
  if contents = [97, 98, 99] then
    "ba7816bf8f01cfea414140de5dae2223b00361a396177a9cb410ff61f20015ad"
  else ""

theorem identify_answered_chromium :
    ∃ (config : Config) (info : BrowserInfo),
      Config.fromEnv (Config.plainSystem Config.setEnv) = .ok config ∧
      info = identify config (.exits true "Chromium 120.0.6099.71 \n".toUTF8)
        (.ok "ba7816bf8f01cfea414140de5dae2223b00361a396177a9cb410ff61f20015ad") ∧
      info.version = some "120.0.6099.71" ∧ info.name = some "Chromium" ∧
      info.sha256 = some "ba7816bf8f01cfea414140de5dae2223b00361a396177a9cb410ff61f20015ad" := by
  obtain ⟨config, hconfig⟩ : ∃ config,
      Config.fromEnv (Config.plainSystem Config.setEnv) = .ok config :=
    Config.exists_of_isSome_toOption (by decide)
  -- the file is read in two pieces
  have hread : sha256File abcDigest (.ok [.ok [97, 98], .ok [99], .ok []]) =
      some (.ok "ba7816bf8f01cfea414140de5dae2223b00361a396177a9cb410ff61f20015ad") := by
    decide
  obtain ⟨hversion, hname, hhash⟩ := identify_answered config "Chromium 120.0.6099.71 \n" hread
  refine ⟨config, _, hconfig, rfl, hversion.trans (by decide), hname.trans (by decide), ?_⟩
  exact (hhash _).mpr ⟨[[97, 98], [99]], [], rfl, by decide, by decide⟩

/-- A name and a version as a browser prints them. -/
def printed (told : Option String × Option String) : String :=
  " ".intercalate (told.1.toList ++ told.2.toList)

theorem intercalate_concat {words : List String} (hne : words ≠ []) (v : String) :
    " ".intercalate (words ++ [v]) = " ".intercalate words ++ " " ++ v := by
  induction words with
  | nil => exact absurd rfl hne
  | cons t words ih =>
      cases words with
      | nil => rw [List.singleton_append, String.intercalate_cons_cons,
          String.intercalate_singleton, String.intercalate_singleton]
      | cons u words =>
          have hrest := ih (List.cons_ne_nil u words)
          rw [List.cons_append, List.cons_append, String.intercalate_cons_cons,
            String.intercalate_cons_cons, ← List.cons_append, hrest]
          simp only [String.append_assoc]

/-- What is printed of the words up to the version. -/
theorem printed_joined (before : List String) (v : Option String) :
    printed (joined before, v) = " ".intercalate (before ++ v.toList) := by
  unfold printed joined
  split
  · rename_i hnil
    rw [hnil]
    rfl
  · rename_i hne
    cases v with
    | none =>
        show " ".intercalate [" ".intercalate before] = " ".intercalate (before ++ [])
        rw [List.append_nil, String.intercalate_singleton]
    | some v =>
        show " ".intercalate [" ".intercalate before, v] = " ".intercalate (before ++ [v])
        rw [intercalate_concat hne, String.intercalate_cons_cons, String.intercalate_singleton]

/-- Up to its first element with the property a list has the same beginning and the same
first one. -/
theorem takeWhile_find (p : String → Bool) (l : List String) :
    (l.takeWhile (fun t => !p t) ++ (l.find? p).toList).takeWhile (fun t => !p t) =
        l.takeWhile (fun t => !p t) ∧
      (l.takeWhile (fun t => !p t) ++ (l.find? p).toList).find? p = l.find? p := by
  induction l with
  | nil => exact ⟨rfl, rfl⟩
  | cons t l ih =>
      cases h : p t with
      | true => simp [h]
      | false => simpa [h] using ih

/-- What a list has after its first element with the property. -/
theorem exists_after_find (p : String → Bool) (l : List String) :
    ∃ rest, l = (l.takeWhile (fun t => !p t) ++ (l.find? p).toList) ++ rest ∧
      (l.find? p = none → rest = []) := by
  rw [List.find?_eq_head?_dropWhile_not]
  have hl := (List.takeWhile_append_dropWhile (p := fun t => !p t) (l := l)).symm
  cases hdrop : l.dropWhile (fun t => !p t) with
  | nil => exact ⟨[], by simpa [hdrop] using hl, fun _ => rfl⟩
  | cons first rest => exact ⟨rest, by simpa [hdrop] using hl, nofun⟩

/-- The words of what is told of an output: those up to the version. -/
theorem splitWhitespace_printed (output : String) :
    splitWhitespace (printed (splitVersionOutput output)) =
      (splitWhitespace output).takeWhile (fun t => !isVersion t) ++
        ((splitWhitespace output).find? isVersion).toList := by
  rw [splitVersionOutput_eq, printed_joined]
  apply splitWhitespace_intercalate
  intro t ht
  apply isWord_of_splitWhitespace
  rcases List.mem_append.mp ht with ht | ht
  · exact List.takeWhile_subset _ ht
  · exact List.mem_of_find?_eq_some (Option.mem_toList.mp ht)

/-- Reading back what was told changes nothing. Its words are the first ones of the output,
the last of them the version; only what followed that is gone, and nothing where there is no
version. -/
theorem splitVersionOutput_printed (output : String) :
    splitVersionOutput (printed (splitVersionOutput output)) = splitVersionOutput output ∧
      ∃ rest, splitWhitespace output =
          splitWhitespace (printed (splitVersionOutput output)) ++ rest ∧
        (∀ v, (splitVersionOutput output).2 = some v →
          (splitWhitespace (printed (splitVersionOutput output))).getLast? = some v) ∧
        ((splitVersionOutput output).2 = none → rest = []) := by
  obtain ⟨hwhile, hfind⟩ := takeWhile_find isVersion (splitWhitespace output)
  obtain ⟨rest, hrest, hnone⟩ := exists_after_find isVersion (splitWhitespace output)
  refine ⟨?_, rest, ?_, fun v hv => ?_, fun hv => hnone ?_⟩
  · rw [splitVersionOutput_eq (printed _), splitWhitespace_printed, hwhile, hfind,
      splitVersionOutput_eq]
  · rw [splitWhitespace_printed]
    exact hrest
  · rw [splitVersionOutput_eq] at hv
    rw [splitWhitespace_printed, show (splitWhitespace output).find? isVersion = some v from hv]
    simp
  · rw [splitVersionOutput_eq] at hv
    exact hv

/-! ## The user agent -/

/-- A version begins with its major number and a dot. -/
theorem major_of_isVersion {v : String} (h : isVersion v = true) :
    ∃ major rest, v = major ++ "." ++ rest ∧ major ≠ "" ∧
      AllChars (fun c => c.isDigit = true) major ∧
      (split (fun c => c = '.') v).head? = some major := by
  simp only [isVersion, Bool.and_eq_true, List.contains_iff_mem, List.all_eq_true] at h
  obtain ⟨⟨hdot, hall⟩, hhead⟩ := h
  obtain ⟨first, rest, hv, hfirst⟩ := List.eq_append_cons_of_mem hdot
  have hdigit : ∀ c ∈ first, c.isDigit = true := by
    intro c hc
    have hmem : c ∈ v.toList := by
      rw [hv]
      exact List.mem_append_left _ hc
    have hne : c ≠ '.' := fun heq => hfirst (heq ▸ hc)
    simpa [hne] using hall c hmem
  have hne : first ≠ [] := by
    rintro rfl
    rw [hv] at hhead
    cases hhead
  have hnosep : ∀ c ∈ first, decide (c = '.') = false := by
    intro c hc
    exact decide_eq_false fun heq => hfirst (heq ▸ hc)
  refine ⟨String.ofList first, String.ofList rest, ?_, ?_, ?_, ?_⟩
  · apply String.toList_injective
    simp [hv]
  · rw [Ne, ofList_eq_empty]
    exact hne
  · intro c hc
    rw [String.toList_ofList] at hc
    exact hdigit c hc
  · rw [split, hv, List.splitOnP_append_cons_of_forall_mem hnosep '.' (by decide)]
    rfl

/-- The version of a browser is a version. -/
theorem isVersion_of_identify {config : Config} {run : VersionRun} {hash : Except String String}
    {v : String} (h : (identify config run hash).version = some v) : isVersion v = true := by
  unfold identify at h
  cases hrun : version run with
  | none =>
      rw [hrun] at h
      cases h
  | some output =>
      rw [hrun] at h
      change (splitVersionOutput output).2 = some v at h
      rw [splitVersionOutput_eq] at h
      exact List.find?_some h

/-- What the user agent says of the browser's version, when `major` is in it. -/
def userAgentOf (major : String) : String :=
  "Mozilla/5.0 (X11; Linux x86_64) AppleWebKit/537.36 (KHTML, like Gecko) Chrome/" ++ major ++
    ".0.0.0 Safari/537.36"

/-- Whatever a browser prints, and whether it answers at all: the user agent has the major
number of the version that was found in it, digits only, or 0 when none was. -/
theorem userAgent_advertises (config : Config) (run : VersionRun) (hash : Except String String) :
    ∃ major, defaultUserAgent (identify config run hash).version = userAgentOf major ∧
      major ≠ "" ∧ AllChars (fun c => c.isDigit = true) major ∧
      (∀ v, (identify config run hash).version = some v → ∃ rest, v = major ++ "." ++ rest) ∧
      ((identify config run hash).version = none → major = "0") := by
  cases hv : (identify config run hash).version with
  | none =>
      refine ⟨"0", rfl, by decide, ?_, (fun v h => by cases h), fun _ => rfl⟩
      intro c hc
      rw [List.mem_singleton.mp (show c ∈ ['0'] from hc)]
      rfl
  | some v =>
      obtain ⟨major, rest, heq, hne, hdigits, hsplit⟩ :=
        major_of_isVersion (isVersion_of_identify hv)
      refine ⟨major, ?_, hne, hdigits, fun v' h => ?_, fun h => by cases h⟩
      · have hkeep : (major ≠ "" && major.toList.all Char.isDigit) = true := by
          rw [Bool.and_eq_true]
          exact ⟨decide_eq_true hne, List.all_eq_true.mpr hdigits⟩
        have hmajor : (Option.filter (fun major => major ≠ "" && major.toList.all Char.isDigit)
            ((some v).bind fun version => (split (fun c => c = '.') version).head?)).getD "0" =
            major := by
          rw [Option.bind_some, hsplit, Option.filter_some, if_pos hkeep, Option.getD_some]
        unfold defaultUserAgent userAgentOf
        rw [hmajor]
      · rw [← Option.some.inj h]
        exact ⟨rest, heq⟩

end Pinokio
