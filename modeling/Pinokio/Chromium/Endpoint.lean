/-
# Pinokio.Chromium.Endpoint -- the endpoint from the port file (`chromium.rs`)

Chromium writes its port and its path to a file that the gateway polls, so a read may
find any first part of what is written. A read that ends before the path yields no
endpoint. One that ends within the path yields the URL of a shorter path, which
`endpoint_whole_iff` makes the exact condition of the rounds of a wait.
-/
import Pinokio.Chromium.Lifecycle
import Pinokio.Lib.Machine
import Pinokio.Lib.Text

namespace Pinokio

open Text

namespace Endpoint

/-! ## The loop of `wait_for_devtools_endpoint` -/

/-- One round: what `try_wait` says, the bytes of the port file when it is read, if it can
be, and whether the deadline has passed. -/
structure Poll where
  status : Except String (Option String)
  file : Option ByteArray
  elapsed : Bool

def readToString (file : Option ByteArray) : Option String := file.bind String.fromUTF8?

/-- The URL of the port in the first line and the path in the second. -/
def devtoolsUrl (contents : String) : Option String :=
  let port := (lines contents)[0]?.bind fun l => (parseUnsigned 16 (trim l)).toOption
  let path := (lines contents)[1]?.map trim
  port.bind fun port => path.bind fun path =>
    if port > 0 && startsWith "/" path then some s!"ws://127.0.0.1:{port}{path}" else none

/-- The result of the round that ends the loop. -/
def Poll.outcome (poll : Poll) : Option (Except GatewayError String) :=
  match poll.status with
  | .error e => some (.error (.chromiumUnavailable s!"wait failed: {e}"))
  | .ok (some status) =>
    some (.error (.chromiumUnavailable s!"chromium exited during startup with {status}"))
  | .ok none =>
    match (readToString poll.file).bind devtoolsUrl with
    | some url => some (.ok url)
    | none => if poll.elapsed then some (.error .chromiumStartupTimeout) else none

/-- The rounds of a wait; `none` while it goes on. -/
def waitForDevtoolsEndpoint (polls : List Poll) : Option (Except GatewayError String) :=
  polls.findSome? Poll.outcome

/-! ## Rounds as steps of the startup -/

/-- The steps of `startupStep` that a round takes. -/
def Poll.actions (poll : Poll) : List StartupAction :=
  match poll.status with
  | .error e => [.tryWaitFails e]
  | .ok (some status) => [.tryWait status]
  | .ok none =>
    if ((readToString poll.file).bind devtoolsUrl).isSome then [.tryWait "", .readPort true]
    else if poll.elapsed then [.tryWait "", .readPort false, .checkDeadline]
    else [.tryWait "", .readPort false, .checkDeadline, .wake]

/-- Where the loop is after a round with this outcome. -/
def place : Option (Except GatewayError String) → Startup
  | some (.ok _) => .ready
  | some (.error error) => .failed error
  | none => .tryWait

def startup (elapsed : Bool) : Machine (Chromium × Startup) StartupAction where
  step s a := startupStep elapsed s.1 s.2 a

/-- A round is a run of the startup to the place its outcome says. -/
theorem startup_run_poll {p : Chromium} {poll : Poll}
    (hstatus : ∀ status, poll.status = .ok status → (p.child = .running ↔ status = none)) :
    ∃ p', (startup poll.elapsed).run (p, .tryWait) poll.actions = some (p', place poll.outcome) := by
  unfold Poll.actions Poll.outcome
  cases hs : poll.status with
  | error e => exact ⟨p, rfl⟩
  | ok status =>
      have hrunning := hstatus status hs
      cases status with
      | some status =>
          have hchild : p.child ≠ .running := fun h => nomatch hrunning.mp h
          exact ⟨p.reap, by simp [startup, Machine.run_cons, startupStep, hchild, place]⟩
      | none =>
          have hchild : p.child = .running := hrunning.mpr rfl
          refine ⟨p, ?_⟩
          cases (readToString poll.file).bind devtoolsUrl with
          | some url => simp [startup, Machine.run_cons, startupStep, hchild, place]
          | none =>
              cases helapsed : poll.elapsed <;>
                simp [startup, Machine.run_cons, startupStep, hchild, place]

/-! ## What Chromium writes -/

/-- The path of a browser target. -/
structure IsPath (q : String) : Prop where
  slash : startsWith "/" q = true
  oneLine : AllChars (fun c => c ≠ '\n' ∧ c ≠ '\r') q
  trimmed : trim q = q

/-- The port file, as far as the path is written. -/
def portFile (port : Nat) (path : String) : String := toString port ++ "\n" ++ path

def endpointUrl (port : Nat) (path : String) : String := s!"ws://127.0.0.1:{port}{path}"

/-- A read of the file finds its first bytes, if anything. -/
def Observes (port : Nat) (path : String) (file : Option ByteArray) : Prop :=
  ∀ b, file = some b → ∃ rest, b ++ rest = (portFile port path).toUTF8

/-- A read that goes up to `part` of the path. -/
def ShowsPart (port : Nat) (path part : String) (file : Option ByteArray) : Prop :=
  part ≠ "" ∧ part.toList <+: path.toList ∧ file = some (portFile port part).toUTF8

/-- A read that ends within the path. -/
def Torn (port : Nat) (path : String) (file : Option ByteArray) : Prop :=
  ∃ part, part ≠ path ∧ ShowsPart port path part file

section

variable {port : Nat} {path : String}

theorem isNewline_port (n : Nat) : AllChars (fun c => isNewline c = false) (toString n) := by
  refine (allChars_toString n).mono ?_
  intro c hc
  rw [isNewline, decide_eq_false_iff_not]
  rintro rfl
  revert hc
  decide

theorem isNewline_path (h : IsPath path) {part : String} (hpart : part.toList <+: path.toList) :
    AllChars (fun c => isNewline c = false) part := by
  intro c hc
  rw [isNewline, decide_eq_false_iff_not]
  exact (h.oneLine c (hpart.subset hc)).1

theorem lines_portFile (port : Nat) (part : String) :
    lines (portFile port part) = toString port :: lines part := by
  have hreturn : AllChars (fun c => c ≠ '\r') (toString port) := by
    refine (allChars_toString port).mono ?_
    rintro c hc rfl
    revert hc
    decide
  rw [portFile, lines_append (isNewline_port port), stripReturn_of_allChars hreturn]

/-- Nothing comes of a read that ends in the line of the port. -/
theorem devtoolsUrl_of_portLine {contents : String}
    (h : contents.toList <+: (portFile port "").toList) : devtoolsUrl contents = none := by
  have hone : (lines contents)[1]? = none := by
    have hlist : (portFile port "").toList = (toString port).toList ++ ['\n'] := by
      simp [portFile]
    rw [hlist, List.prefix_concat_iff] at h
    rcases h with h | h
    · have hcontents : contents = portFile port "" := by
        rw [← String.toList_inj, h, hlist]
      rw [hcontents, lines_portFile]
      rfl
    · have hnone : AllChars (fun c => isNewline c = false) contents := fun c hc =>
        isNewline_port port c (h.subset hc)
      rw [lines_of_allChars hnone, List.getElem?_eq_none_iff]
      exact List.length_filter_le _ [contents]
  unfold devtoolsUrl
  rw [hone]
  cases (lines contents)[0]?.bind fun l => (parseUnsigned 16 (trim l)).toOption <;> rfl

theorem startsWith_trim {part : String} (h : startsWith "/" path = true) (hne : part ≠ "")
    (hpart : part.toList <+: path.toList) : startsWith "/" (trim part) = true := by
  have hhead : ∃ rest, part.toList = '/' :: rest := by
    obtain ⟨back, hback⟩ := List.isPrefixOf_iff_prefix.mp h
    cases hl : part.toList with
    | nil => exact absurd (String.toList_inj.mp (hl.trans rfl)) hne
    | cons c rest =>
        obtain ⟨back', hback'⟩ := hpart
        rw [hl, ← hback] at hback'
        have hc : c = '/' := (List.cons.inj hback').1
        exact ⟨rest, by rw [hc]⟩
  obtain ⟨rest, hrest⟩ := hhead
  have hslash : isWhitespace '/' = false := by decide
  have hdrop : part.toList.dropWhile isWhitespace = '/' :: rest := by
    rw [hrest, List.dropWhile_cons, hslash]
    rfl
  have hkept : ('/' :: rest).rdropWhile isWhitespace ≠ [] := by
    rw [Ne, List.rdropWhile_eq_nil_iff]
    intro hall
    have hwhite := hall '/' List.mem_cons_self
    rw [hslash] at hwhite
    cases hwhite
  rw [startsWith, List.isPrefixOf_iff_prefix, trim, hdrop]
  obtain ⟨c, cs, hcs⟩ := List.exists_cons_of_ne_nil hkept
  obtain ⟨back, hback⟩ := List.rdropWhile_prefix isWhitespace (l := '/' :: rest)
  rw [hcs] at hback
  refine ⟨cs, ?_⟩
  rw [hcs, (List.cons.inj hback).1, String.toList_ofList (l := '/' :: cs)]
  rfl

/-- Whatever there is of the path makes an endpoint. -/
theorem devtoolsUrl_of_part (hport : 1 ≤ port ∧ port ≤ 65535) (h : IsPath path) {part : String}
    (hne : part ≠ "") (hpart : part.toList <+: path.toList) :
    devtoolsUrl (portFile port part) = some (endpointUrl port (trim part)) := by
  have hlines : lines (portFile port part) = [toString port, part] := by
    rw [lines_portFile, lines_of_allChars (isNewline_path h hpart)]
    simp [hne]
  have hnumber : parseUnsigned 16 (trim (toString port)) = .ok port := by
    rw [trim_of_allChars]
    · exact parseUnsigned_toString (by omega)
    · refine (allChars_toString port).mono ?_
      intro c hc
      apply isWhitespace_of_isAlphanum
      simp [Char.isAlphanum, hc]
  have hfirst : (lines (portFile port part))[0]?.bind
      (fun l => (parseUnsigned 16 (trim l)).toOption) = some port := by
    rw [hlines, List.getElem?_cons_zero, Option.bind_some, hnumber]
    rfl
  have hsecond : (lines (portFile port part))[1]?.map trim = some (trim part) := by
    rw [hlines]
    rfl
  have hcond : (decide (port > 0) && startsWith "/" (trim part)) = true := by
    rw [startsWith_trim h.slash hne hpart, Bool.and_true, decide_eq_true_eq]
    omega
  unfold devtoolsUrl
  rw [hfirst, hsecond, Option.bind_some, Option.bind_some, if_pos hcond]
  rfl

/-! ## What a read comes to -/

theorem trim_ne {part : String} (hpart : part.toList <+: path.toList) (hne : part ≠ path) :
    trim part ≠ path := by
  intro htrim
  apply hne
  have hle : path.toList.length ≤ part.toList.length := by
    rw [← htrim, trim, String.toList_ofList]
    exact (List.rdropWhile_prefix isWhitespace _).length_le.trans
      (List.dropWhile_suffix isWhitespace).length_le
  rw [← String.toList_inj]
  exact hpart.eq_of_length (le_antisymm hpart.length_le hle)

theorem endpointUrl_inj {a b : String} (h : endpointUrl port a = endpointUrl port b) : a = b := by
  have happend : "ws://127.0.0.1:" ++ toString port ++ a = "ws://127.0.0.1:" ++ toString port ++ b :=
    h
  exact (String.append_right_inj _).mp happend

/-- A read ends in the line of the port, or shows a part of the path, or is no text. -/
theorem read_cases {file : Option ByteArray} (h : Observes port path file) {contents : String}
    (hread : readToString file = some contents) :
    contents.toList <+: (portFile port "").toList ∨
      ∃ part, contents = portFile port part ∧ ShowsPart port path part file := by
  obtain ⟨b, rfl, htext⟩ := Option.bind_eq_some_iff.mp hread
  obtain ⟨rest, hrest⟩ := h b rfl
  have hprefix := Utf8.prefix_of_fromUTF8? hrest htext
  have hfile : ∀ q, (portFile port q).toList = (portFile port "").toList ++ q.toList := by
    simp [portFile]
  have hline : (portFile port "").toList <+: (portFile port path).toList := by
    rw [hfile path]
    exact List.prefix_append _ _
  rcases List.prefix_or_prefix_of_prefix hprefix hline with hshort | hlong
  · exact Or.inl hshort
  · obtain ⟨part, hpart⟩ := hlong
    rw [hfile path, ← hpart, List.prefix_append_right_inj] at hprefix
    have hcontents : contents = portFile port (String.ofList part) := by
      rw [← String.toList_inj, hfile, String.toList_ofList, hpart]
    by_cases hempty : part = []
    · left
      rw [← hpart, hempty, List.append_nil]
    · right
      refine ⟨String.ofList part, hcontents, ?_, ?_, ?_⟩
      · rwa [Ne, ofList_eq_empty]
      · rwa [String.toList_ofList]
      · rw [← hcontents, Utf8.toUTF8_of_fromUTF8? htext]

/-- A read yields a URL exactly when it shows a part of the path, and the URL is of that part. -/
theorem read_eq_some_iff (hport : 1 ≤ port ∧ port ≤ 65535) (hpath : IsPath path)
    {file : Option ByteArray} (h : Observes port path file) {url : String} :
    (readToString file).bind devtoolsUrl = some url ↔
      ∃ part, ShowsPart port path part file ∧ url = endpointUrl port (trim part) := by
  constructor
  · intro hurl
    obtain ⟨contents, hread, hcontents⟩ := Option.bind_eq_some_iff.mp hurl
    rcases read_cases h hread with hline | ⟨part, rfl, hshows⟩
    · rw [devtoolsUrl_of_portLine hline] at hcontents
      cases hcontents
    · rw [devtoolsUrl_of_part hport hpath hshows.1 hshows.2.1] at hcontents
      exact ⟨part, hshows, (Option.some.inj hcontents).symm⟩
  · rintro ⟨part, ⟨hne, hpart, rfl⟩, rfl⟩
    rw [readToString, Option.bind_some, Utf8.fromUTF8?_toUTF8, Option.bind_some,
      devtoolsUrl_of_part hport hpath hne hpart]

/-! ## What a wait comes to -/

/-- A round that does not end the loop: the child runs, the read shows nothing of the path,
and the deadline is to come. -/
structure GoesOn (port : Nat) (path : String) (poll : Poll) : Prop where
  status : poll.status = .ok none
  hidden : ∀ part, ¬ ShowsPart port path part poll.file
  early : poll.elapsed = false

/-- When a round yields an endpoint, and when it yields nothing. -/
theorem outcome_iff (poll : Poll) :
    (∀ url, poll.outcome = some (.ok url) ↔
      poll.status = .ok none ∧ (readToString poll.file).bind devtoolsUrl = some url) ∧
    (poll.outcome = none ↔ poll.status = .ok none ∧
      (readToString poll.file).bind devtoolsUrl = none ∧ poll.elapsed = false) := by
  unfold Poll.outcome
  cases hs : poll.status with
  | error e => simp
  | ok status =>
      cases status with
      | some status => simp
      | none =>
          cases (readToString poll.file).bind devtoolsUrl with
          | some url => simp
          | none => cases poll.elapsed <;> simp

theorem outcome_eq_ok_iff (hport : 1 ≤ port ∧ port ≤ 65535) (hpath : IsPath path) {poll : Poll}
    (h : Observes port path poll.file) {url : String} :
    poll.outcome = some (.ok url) ↔ poll.status = .ok none ∧
      ∃ part, ShowsPart port path part poll.file ∧ url = endpointUrl port (trim part) := by
  rw [← read_eq_some_iff hport hpath h]
  exact (outcome_iff poll).1 url

theorem outcome_eq_none_iff (hport : 1 ≤ port ∧ port ≤ 65535) (hpath : IsPath path) {poll : Poll}
    (h : Observes port path poll.file) : poll.outcome = none ↔ GoesOn port path poll := by
  have hhidden : (readToString poll.file).bind devtoolsUrl = none ↔
      ∀ part, ¬ ShowsPart port path part poll.file := by
    rw [Option.eq_none_iff_forall_ne_some]
    constructor
    · intro hnone part hshows
      exact hnone _ ((read_eq_some_iff hport hpath h).mpr ⟨part, hshows, rfl⟩)
    · intro hnone url hurl
      obtain ⟨part, hshows, -⟩ := (read_eq_some_iff hport hpath h).mp hurl
      exact hnone part hshows
  rw [(outcome_iff poll).2, hhidden]
  constructor
  · rintro ⟨hstatus, hnone, hearly⟩
    exact ⟨hstatus, hnone, hearly⟩
  · intro hgoes
    exact ⟨hgoes.status, hgoes.hidden, hgoes.early⟩

/-- While the file is being written, a wait returns no endpoint but the whole one exactly
when the round that gets to see a part of the path does not see it torn. -/
theorem endpoint_whole_iff {port : Nat} {path : String} (hport : 1 ≤ port ∧ port ≤ 65535)
    (hpath : IsPath path) {polls : List Poll}
    (hpolls : ∀ poll ∈ polls, Observes port path poll.file) :
    (∀ url, waitForDevtoolsEndpoint polls = some (.ok url) → url = endpointUrl port path) ↔
      ∀ before poll after, polls = before ++ poll :: after →
        (∀ earlier ∈ before, GoesOn port path earlier) → poll.status = .ok none →
        ¬ Torn port path poll.file := by
  constructor
  · rintro h before poll after rfl hbefore hstatus ⟨part, hne, hshows⟩
    have hpoll := hpolls poll (List.mem_append_right before List.mem_cons_self)
    have houtcome := (outcome_eq_ok_iff hport hpath hpoll).mpr ⟨hstatus, part, hshows, rfl⟩
    refine trim_ne hshows.2.1 hne (endpointUrl_inj (h _ ?_))
    rw [waitForDevtoolsEndpoint, List.findSome?_eq_some_iff]
    refine ⟨before, poll, after, rfl, houtcome, ?_⟩
    intro earlier hearlier
    exact (outcome_eq_none_iff hport hpath (hpolls _ (List.mem_append_left _ hearlier))).mpr
      (hbefore earlier hearlier)
  · intro h url hurl
    obtain ⟨before, poll, after, rfl, houtcome, hbefore⟩ := List.findSome?_eq_some_iff.mp hurl
    have hpoll := hpolls poll (List.mem_append_right before List.mem_cons_self)
    obtain ⟨hstatus, part, hshows, rfl⟩ := (outcome_eq_ok_iff hport hpath hpoll).mp houtcome
    have hgoes : ∀ earlier ∈ before, GoesOn port path earlier := by
      intro earlier hearlier
      have hearlier' := hpolls earlier (List.mem_append_left _ hearlier)
      exact (outcome_eq_none_iff hport hpath hearlier').mp (hbefore earlier hearlier)
    have hwhole : part = path := by
      by_contra hne
      exact h before poll after rfl hgoes hstatus ⟨part, hne, hshows⟩
    rw [hwhole, hpath.trimmed]

end

/-! ## A torn read -/

theorem not_torn_whole (port : Nat) (path : String) :
    ¬ Torn port path (some (portFile port path).toUTF8) := by
  rintro ⟨part, hne, -, -, hfile⟩
  have htext : portFile port path = portFile port part :=
    Utf8.toUTF8_inj.mp (Option.some.inj hfile)
  exact hne ((String.append_right_inj _).mp htext).symm

def browserPath : String := "/devtools/browser/1"

theorem isPath_browserPath : IsPath browserPath := by
  refine ⟨by decide, ?_, by decide⟩
  have hall : browserPath.toList.all (fun c => c ≠ '\n' && c ≠ '\r') = true := by decide
  intro c hc
  simpa using List.all_eq_true.mp hall c hc

/-- A round before the file is there. -/
def earlyPoll : Poll := { status := .ok none, file := none, elapsed := false }

/-- A round that reads the file after the first `part` of the path. -/
def readPoll (part : String) : Poll :=
  { status := .ok none, file := some (portFile 9222 part).toUTF8, elapsed := false }

theorem observes_readPoll {part : String} (back : String) (h : part ++ back = browserPath) :
    Observes 9222 browserPath (readPoll part).file := by
  rintro b hb
  refine ⟨back.toUTF8, ?_⟩
  rw [← Option.some.inj hb, ← h]
  simp only [String.toUTF8_eq_toByteArray, ← String.toByteArray_append, portFile]
  rw [String.append_assoc]

/-- A wait whose second round finds the whole file. -/
theorem endpoint_whole_of_browserPath :
    waitForDevtoolsEndpoint [earlyPoll, readPoll browserPath] =
        some (.ok (endpointUrl 9222 browserPath)) ∧
      ∀ url, waitForDevtoolsEndpoint [earlyPoll, readPoll browserPath] = some (.ok url) →
        url = endpointUrl 9222 browserPath := by
  have hread : Observes 9222 browserPath (readPoll browserPath).file :=
    observes_readPoll "" rfl
  have hearly : Observes 9222 browserPath earlyPoll.file := by
    intro b hb
    cases hb
  have hpolls : ∀ poll ∈ [earlyPoll, readPoll browserPath],
      Observes 9222 browserPath poll.file ∧ ¬ Torn 9222 browserPath poll.file := by
    intro poll hpoll
    simp only [List.mem_cons, List.not_mem_nil, or_false] at hpoll
    rcases hpoll with rfl | rfl
    · refine ⟨hearly, ?_⟩
      rintro ⟨part, -, -, -, hfile⟩
      cases hfile
    · exact ⟨hread, not_torn_whole 9222 browserPath⟩
  constructor
  · have houtcome := (outcome_eq_ok_iff (by decide) isPath_browserPath hread).mpr
      ⟨rfl, browserPath, ⟨by decide, List.prefix_refl _, rfl⟩, rfl⟩
    rw [isPath_browserPath.trimmed] at houtcome
    rw [waitForDevtoolsEndpoint, List.findSome?_cons, List.findSome?_cons, houtcome]
    rfl
  · refine (endpoint_whole_iff (by decide) isPath_browserPath fun poll h => (hpolls poll h).1).mpr ?_
    intro before poll after heq _ _
    apply (hpolls poll ?_).2
    rw [heq]
    exact List.mem_append_right before List.mem_cons_self

/-- Read in the middle of the path, the file yields the URL of no browser. -/
theorem endpoint_of_tornRead :
    IsPath browserPath ∧ Observes 9222 browserPath (readPoll "/devtools").file ∧
      waitForDevtoolsEndpoint [readPoll "/devtools"] = some (.ok "ws://127.0.0.1:9222/devtools") ∧
      ¬ ∀ url, waitForDevtoolsEndpoint [readPoll "/devtools"] = some (.ok url) →
        url = endpointUrl 9222 browserPath := by
  have hread : Observes 9222 browserPath (readPoll "/devtools").file :=
    observes_readPoll "/browser/1" rfl
  have hwait : waitForDevtoolsEndpoint [readPoll "/devtools"] =
      some (.ok "ws://127.0.0.1:9222/devtools") := by
    have houtcome := (outcome_eq_ok_iff (by decide) isPath_browserPath hread).mpr
      ⟨rfl, "/devtools", ⟨by decide, ⟨"/browser/1".toList, rfl⟩, rfl⟩, rfl⟩
    rw [show trim "/devtools" = "/devtools" by decide] at houtcome
    rw [waitForDevtoolsEndpoint, List.findSome?_cons, houtcome]
    rfl
  refine ⟨isPath_browserPath, hread, hwait, ?_⟩
  intro h
  have hurl := h _ hwait
  revert hurl
  decide

end Endpoint

end Pinokio
