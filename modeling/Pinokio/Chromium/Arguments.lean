/-
# Pinokio.Chromium.Arguments -- what a client can put on Chromium's command line

The arguments of a launch are plain ones, which only the server decides, and one for
each `Flag`, followed by a text from the client's field for it. `pieces` keeps the two
apart; `isOf_piece` is that the strings do too, whatever the client has put into its
fields: no text of one flag passes for another one.
-/
import Pinokio.Chromium.Launch

namespace Pinokio.Launch

open Text

/-! ## Flags -/

/-- The arguments that a client has a say in. -/
inductive Flag where
  | windowSize
  | screenInfo
  | userAgent
  | lang
  | acceptLang
  | proxyServer
  | proxyBypassList
  | disableWebSecurity
  deriving DecidableEq, Repr

namespace Flag

def text : Flag → String
  | windowSize => "--window-size="
  | screenInfo => "--screen-info="
  | userAgent => "--user-agent="
  | lang => "--lang="
  | acceptLang => "--accept-lang="
  | proxyServer => "--proxy-server="
  | proxyBypassList => "--proxy-bypass-list="
  | disableWebSecurity => "--disable-web-security"

def all : List Flag :=
  [windowSize, screenInfo, userAgent, lang, acceptLang, proxyServer, proxyBypassList,
    disableWebSecurity]

/-- The argument begins with the flag; `--disable-web-security` has nothing after it. -/
def isOf (flag : Flag) (arg : String) : Bool :=
  if flag = disableWebSecurity then arg = flag.text else startsWith flag.text arg

/-- The two clients have asked for the same, as far as the flag goes. -/
def Agrees (o o' : LaunchOptions) : Flag → Prop
  | windowSize | screenInfo => o.viewport = o'.viewport
  | userAgent => o.userAgent = o'.userAgent
  | lang | acceptLang => o.acceptLanguage = o'.acceptLanguage
  | proxyServer => o.proxyServer = o'.proxyServer
  | proxyBypassList => o.proxyBypassList = o'.proxyBypassList
  | disableWebSecurity => o.disableWebSecurity = o'.disableWebSecurity

/-- What follows the flag, if it is there. -/
def value (config : Config) (browserVersion : Option String) (o : LaunchOptions) :
    Flag → Option String
  | windowSize =>
    if config.chromeHeadless then some (showSize (viewport o).windowSize ",") else none
  | screenInfo =>
    if config.chromeHeadless then some ("\x7b" ++ showSize (viewport o).screenSize "x" ++ "\x7d")
    else none
  | userAgent => some (Launch.userAgent browserVersion o)
  | lang => (languages config o).map fun tags => tags.1
  | acceptLang => (languages config o).map fun tags => tags.2
  | proxyServer => o.proxyServer
  | proxyBypassList => o.proxyBypassList
  | disableWebSecurity => if o.disableWebSecurity = some true then some "" else none

end Flag

/-- One of the arguments that a client has a say in. -/
def isOptionArg (arg : String) : Bool := Flag.all.any fun flag => flag.isOf arg

theorem isOf_text_append (flag other : Flag) (h : other ≠ .disableWebSecurity) (s : String) :
    flag.isOf (other.text ++ s) = decide (flag = other) := by
  cases other <;> cases flag <;> first
    | contradiction
    | simp [Flag.isOf, Flag.text, startsWith, String.toList_append, ← String.toList_inj,
        List.isPrefixOf]

theorem isOf_disableWebSecurity (flag : Flag) :
    flag.isOf Flag.disableWebSecurity.text = decide (flag = .disableWebSecurity) := by
  cases flag <;> decide

theorem isOf_userDataDir (flag : Flag) (dir : String) :
    flag.isOf ("--user-data-dir=" ++ dir) = false := by
  cases flag <;>
    simp [Flag.isOf, Flag.text, startsWith, String.toList_append, ← String.toList_inj,
      List.isPrefixOf]

/-! ## Pieces -/

/-- An argument: one that only the server decides, or a flag with what follows it. -/
inductive Piece where
  | plain (arg : String)
  | flagged (flag : Flag) (value : String)

def Piece.arg : Piece → String
  | plain arg => arg
  | flagged flag value => flag.text ++ value

def Piece.flag : Piece → Option Flag
  | plain _ => none
  | flagged flag _ => some flag

section

variable (config : Config) (browserVersion : Option String) (userDataDir : String)
  (o : LaunchOptions)

/-- What only the server decides, before the flags of the screen and the user agent. -/
def frontArgs : List String := if config.chromeHeadless then desktopArgs else []

/-- What only the server decides, after those flags. -/
def middleArgs : List String :=
  ["--remote-debugging-port=0", "--user-data-dir=" ++ userDataDir] ++ fixedArgs ++
    (if config.chromeNoSandbox then ["--no-sandbox"] else []) ++
    (if config.chromeDisableDevShmUsage then ["--disable-dev-shm-usage"] else [])

/-- The flag, if it is there. -/
def flagPiece (flag : Flag) : List Piece :=
  ((flag.value config browserVersion o).map (Piece.flagged flag)).toList

def pieces : List Piece :=
  (frontArgs config).map .plain ++
    [Flag.windowSize, .screenInfo, .userAgent].flatMap (flagPiece config browserVersion o) ++
    (middleArgs config userDataDir).map .plain ++
    [Flag.lang, .acceptLang, .proxyServer, .proxyBypassList, .disableWebSecurity].flatMap
      (flagPiece config browserVersion o)

/-- The arguments that a flag comes to. -/
def flagArgs (flag : Flag) : List String :=
  ((flag.value config browserVersion o).map fun value => flag.text ++ value).toList

end

section

variable {config : Config} {browserVersion : Option String} {userDataDir : String}
  {o : LaunchOptions}

theorem map_arg_plain (l : List String) : (l.map Piece.plain).map Piece.arg = l := by
  rw [List.map_map]
  exact List.map_id l

theorem map_arg_flagPiece (flag : Flag) :
    (flagPiece config browserVersion o flag).map Piece.arg = flagArgs config browserVersion o flag := by
  unfold flagPiece flagArgs
  cases flag.value config browserVersion o <;> rfl

theorem headlessArgs_eq (browserVersion : Option String) :
    headlessArgs config o = frontArgs config ++ (flagArgs config browserVersion o .windowSize ++
      flagArgs config browserVersion o .screenInfo) := by
  unfold headlessArgs frontArgs flagArgs Flag.value
  split <;> rfl

theorem languageFlags_eq (browserVersion : Option String) :
    languageFlags config o = flagArgs config browserVersion o .lang ++
      flagArgs config browserVersion o .acceptLang := by
  unfold languageFlags flagArgs Flag.value
  cases languages config o <;> rfl

/-- The command line, piece by piece. -/
theorem ownArgs_eq :
    ownArgs config browserVersion userDataDir o =
      (pieces config browserVersion userDataDir o).map Piece.arg := by
  have hproxy : (o.proxyServer.map fun s => "--proxy-server=" ++ s).toList =
      flagArgs config browserVersion o .proxyServer := rfl
  have hbypass : (o.proxyBypassList.map fun s => "--proxy-bypass-list=" ++ s).toList =
      flagArgs config browserVersion o .proxyBypassList := rfl
  have hsecurity : (if o.disableWebSecurity = some true then ["--disable-web-security"] else []) =
      flagArgs config browserVersion o .disableWebSecurity := by
    unfold flagArgs Flag.value
    split <;> rfl
  have hagent : ["--user-agent=" ++ userAgent browserVersion o] =
      flagArgs config browserVersion o .userAgent := rfl
  rw [ownArgs, hproxy, hbypass, hsecurity, headlessArgs_eq browserVersion,
    languageFlags_eq browserVersion]
  simp only [pieces, List.map_append, List.flatMap_cons, List.flatMap_nil, map_arg_plain,
    map_arg_flagPiece, ← hagent, middleArgs]
  simp only [List.append_assoc, List.map_nil, List.append_nil, List.cons_append, List.nil_append]

/-! ## Which argument is whose -/

theorem isOf_plain {arg : String} (flag : Flag)
    (h : arg ∈ frontArgs config ++ middleArgs config userDataDir) : flag.isOf arg = false := by
  have hfixed : ∀ a ∈ desktopArgs ++ (fixedArgs ++ ["--remote-debugging-port=0", "--no-sandbox",
      "--disable-dev-shm-usage"]), flag.isOf a = false := by
    cases flag <;> decide
  by_cases hdir : arg = "--user-data-dir=" ++ userDataDir
  · rw [hdir]
    exact isOf_userDataDir flag userDataDir
  · apply hfixed
    simp only [frontArgs, middleArgs, List.mem_append, List.mem_ite_nil_right, List.mem_cons,
      List.not_mem_nil, or_false, hdir] at h ⊢
    tauto

theorem isOf_arg {p : Piece} (flag : Flag) (hp : p ∈ pieces config browserVersion userDataDir o) :
    flag.isOf p.arg = decide (p.flag = some flag) := by
  have hplain : ∀ arg, p = .plain arg → arg ∈ frontArgs config ++ middleArgs config userDataDir →
      flag.isOf p.arg = decide (p.flag = some flag) := by
    rintro arg rfl harg
    exact isOf_plain flag harg
  have hflagged : ∀ other, p ∈ flagPiece config browserVersion o other →
      flag.isOf p.arg = decide (p.flag = some flag) := by
    intro other h
    obtain ⟨value, hvalue, rfl⟩ := Option.map_eq_some_iff.mp (Option.mem_toList.mp h)
    show flag.isOf (other.text ++ value) = decide (some other = some flag)
    by_cases hother : other = .disableWebSecurity
    · subst hother
      have hempty : (if o.disableWebSecurity = some true then some "" else none) = some value :=
        hvalue
      obtain ⟨-, heq⟩ := Option.ite_none_right_eq_some.mp hempty
      rw [← Option.some.inj heq, String.append_empty, isOf_disableWebSecurity]
      simp [eq_comm]
    · rw [isOf_text_append flag other hother]
      simp [eq_comm]
  simp only [pieces, List.mem_append, List.mem_map, List.mem_flatMap] at hp
  rcases hp with ((⟨arg, harg, heq⟩ | ⟨other, -, h⟩) | ⟨arg, harg, heq⟩) | ⟨other, -, h⟩
  · exact hplain arg heq.symm (List.mem_append_left _ harg)
  · exact hflagged other h
  · exact hplain arg heq.symm (List.mem_append_right _ harg)
  · exact hflagged other h

/-- A flag is there once at most, with its own value. -/
theorem filter_isOf (flag : Flag) :
    (ownArgs config browserVersion userDataDir o).filter flag.isOf =
      flagArgs config browserVersion o flag := by
  have hcongr : (pieces config browserVersion userDataDir o).filter (flag.isOf ∘ Piece.arg) =
      (pieces config browserVersion userDataDir o).filter fun p => decide (p.flag = some flag) := by
    apply List.filter_congr
    intro p hp
    exact isOf_arg flag hp
  have hplain : ∀ l : List String,
      (l.map Piece.plain).filter (fun p => decide (p.flag = some flag)) = [] := by
    intro l
    rw [List.filter_eq_nil_iff]
    intro p hp
    obtain ⟨arg, -, rfl⟩ := List.mem_map.mp hp
    simp [Piece.flag]
  have hflag : ∀ other, (flagPiece config browserVersion o other).filter
      (fun p => decide (p.flag = some flag)) =
        if other = flag then flagPiece config browserVersion o other else [] := by
    intro other
    unfold flagPiece
    cases other.value config browserVersion o with
    | none => simp
    | some value => simp [Piece.flag, List.filter_singleton]
  rw [ownArgs_eq, List.filter_map, hcongr, ← map_arg_flagPiece]
  simp only [pieces, List.filter_append, hplain, List.flatMap_cons, List.flatMap_nil, hflag,
    List.filter_nil]
  cases flag <;> simp

/-- Without the flags, the command line is the server's. -/
theorem filter_not_isOptionArg :
    (ownArgs config browserVersion userDataDir o).filter (fun arg => !isOptionArg arg) =
      frontArgs config ++ middleArgs config userDataDir := by
  have hcongr : (pieces config browserVersion userDataDir o).filter
      ((fun arg => !isOptionArg arg) ∘ Piece.arg) =
      (pieces config browserVersion userDataDir o).filter fun p => p.flag.isNone := by
    apply List.filter_congr
    intro p hp
    have hall : isOptionArg p.arg = Flag.all.any fun flag => decide (p.flag = some flag) := by
      unfold isOptionArg
      simp only [isOf_arg _ hp]
    show (!isOptionArg p.arg) = p.flag.isNone
    rw [hall]
    cases p with
    | plain arg => rfl
    | flagged flag value => cases flag <;> rfl
  have hplain : ∀ l : List String,
      (l.map Piece.plain).filter (fun p => p.flag.isNone) = l.map Piece.plain := by
    intro l
    rw [List.filter_eq_self]
    intro p hp
    obtain ⟨arg, -, rfl⟩ := List.mem_map.mp hp
    rfl
  have hflag : ∀ other,
      (flagPiece config browserVersion o other).filter (fun p => p.flag.isNone) = [] := by
    intro other
    unfold flagPiece
    cases other.value config browserVersion o <;> rfl
  rw [ownArgs_eq, List.filter_map, hcongr]
  simp only [pieces, List.filter_append, hplain, List.flatMap_cons, List.flatMap_nil, hflag,
    List.append_nil, List.map_append, map_arg_plain]

/-! ## What the texts consist of -/

theorem printable_showSize (size : UInt32 × UInt32) {between : String} (h : Printable between) :
    Printable (showSize size between) := by
  have hdigits : ∀ n : Nat, Printable (toString n) := by
    intro n
    exact (allChars_toString n).mono fun c hc => isControl_of_isDigit hc
  exact ((hdigits _).append h).append (hdigits _)

theorem printable_defaultUserAgent (browserVersion : Option String) :
    Printable (defaultUserAgent browserVersion) := by
  have hlit : ∀ s : String, (s.toList.all fun c => !isControl c) = true → Printable s := by
    intro s hs c hc
    simpa using List.all_eq_true.mp hs c hc
  unfold defaultUserAgent
  refine AllChars.append (AllChars.append (hlit _ (by decide)) ?_) (hlit _ (by decide))
  generalize browserVersion.bind _ = major
  cases hm : major.filter _ with
  | none => exact hlit "0" (by decide)
  | some digits =>
      obtain ⟨-, hdigits⟩ := Option.filter_eq_some_iff.mp hm
      simp only [Bool.and_eq_true, List.all_eq_true] at hdigits
      intro c hc
      exact isControl_of_isDigit (hdigits.2 c hc)

theorem printable_userAgent (ho : o.Accepted) : Printable (userAgent browserVersion o) := by
  unfold userAgent
  cases hagent : o.userAgent with
  | none => exact printable_defaultUserAgent browserVersion
  | some agent =>
      have hgood := ho.userAgent agent hagent
      simp only [LaunchOptions.badUserAgent, Bool.or_eq_false_iff, Bool.not_eq_false',
        List.all_eq_true, Bool.or_eq_true, decide_eq_true_eq] at hgood
      intro c hc
      rcases hgood.2 c hc with h | rfl
      · exact isControl_of_isAsciiGraphic h
      · decide

theorem printable_languages {primary accept : String}
    (h : languages config o = some (primary, accept)) : Printable primary ∧ Printable accept := by
  obtain ⟨raw, -, hargs⟩ := Option.bind_eq_some_iff.mp h
  exact printable_languageArgs hargs

/-- The text after a flag has no control characters, whoever it is from. -/
theorem printable_value (ho : o.Accepted) {flag : Flag} {s : String}
    (h : flag.value config browserVersion o = some s) : Printable s := by
  have hchar : ∀ c : Char, isControl c = false → Printable (String.ofList [c]) := by
    intro c hc d hd
    rw [String.toList_ofList, List.mem_singleton] at hd
    rwa [hd]
  cases flag with
  | windowSize =>
      obtain ⟨-, heq⟩ := Option.ite_none_right_eq_some.mp h
      rw [← Option.some.inj heq]
      exact printable_showSize _ (hchar ',' (by decide))
  | screenInfo =>
      obtain ⟨-, heq⟩ := Option.ite_none_right_eq_some.mp h
      rw [← Option.some.inj heq]
      exact ((hchar '\x7b' (by decide)).append (printable_showSize _ (hchar 'x' (by decide)))).append
        (hchar '\x7d' (by decide))
  | userAgent =>
      rw [← Option.some.inj h]
      exact printable_userAgent ho
  | lang =>
      obtain ⟨tags, htags, rfl⟩ := Option.map_eq_some_iff.mp h
      exact (printable_languages htags).1
  | acceptLang =>
      obtain ⟨tags, htags, rfl⟩ := Option.map_eq_some_iff.mp h
      exact (printable_languages htags).2
  | proxyServer =>
      have hgood := ho.proxyServer s h
      simp only [LaunchOptions.badProxyServer, Bool.or_eq_false_iff, List.any_eq_false,
        Bool.not_eq_true] at hgood
      exact hgood.1.2
  | proxyBypassList =>
      have hgood := ho.proxyBypassList s h
      simp only [LaunchOptions.badProxyBypassList, Bool.or_eq_false_iff, List.any_eq_false,
        Bool.not_eq_true] at hgood
      exact hgood.2
  | disableWebSecurity =>
      obtain ⟨-, heq⟩ := Option.ite_none_right_eq_some.mp h
      rw [← Option.some.inj heq]
      intro c hc
      simp at hc

/-- What a flag is followed by depends on the client's field for it only. -/
theorem value_of_agrees {o' : LaunchOptions} {flag : Flag} (h : flag.Agrees o o') :
    flag.value config browserVersion o = flag.value config browserVersion o' := by
  cases flag with
  | windowSize | screenInfo =>
      have hview : viewport o = viewport o' := congrArg (Option.getD · _) h
      simp only [Flag.value, hview]
  | userAgent =>
      have hagent : o.userAgent = o'.userAgent := h
      simp only [Flag.value, userAgent, hagent]
  | lang | acceptLang =>
      have hlanguage : o.acceptLanguage = o'.acceptLanguage := h
      simp only [Flag.value, languages, language, hlanguage]
  | proxyServer | proxyBypassList => exact h
  | disableWebSecurity =>
      have hsecurity : o.disableWebSecurity = o'.disableWebSecurity := h
      simp only [Flag.value, hsecurity]

/-- The variables that are set for Chromium have no control characters either. -/
theorem printable_envs {env : Env} {name value : String} (ho : o.Accepted)
    (h : (name, value) ∈ (command config browserVersion userDataDir o env).envs) :
    (name = "TZ" ∨ name = "LANGUAGE") ∧ Printable value := by
  rcases List.mem_append.mp h with h | h
  · obtain ⟨tz, htz, heq⟩ := Option.map_eq_some_iff.mp (Option.mem_toList.mp h)
    obtain ⟨rfl, rfl⟩ := Prod.mk.inj heq
    exact ⟨Or.inl rfl, printable_of_isTimezone (isTimezone_timezone ho htz)⟩
  · obtain ⟨primary, hprimary, heq⟩ := Option.map_eq_some_iff.mp (Option.mem_toList.mp h)
    obtain ⟨rfl, rfl⟩ := Prod.mk.inj heq
    refine ⟨Or.inr rfl, ?_⟩
    obtain ⟨tags, htags, rfl⟩ := Option.map_eq_some_iff.mp hprimary
    exact (printable_languages htags).1

end

/-! ## The command line -/

/-- What an accepted client can do to the command line, next to any other client. The
arguments that no client has a say in are the same and in the same places, the server's
extra arguments at the end; each flag is there once at most, followed by a text that
depends on the client's field for it and nothing else; and no text that goes to
Chromium, as an argument or as a variable, has control characters. -/
theorem no_argument_injection (config : Config) (env : Env) (browserVersion : Option String)
    (userDataDir : String) (o o' : LaunchOptions) (h : o.validate = .ok o) :
    (args config browserVersion userDataDir o).filter (fun arg => !isOptionArg arg) =
      (args config browserVersion userDataDir o').filter (fun arg => !isOptionArg arg) ∧
    args config browserVersion userDataDir o =
      ownArgs config browserVersion userDataDir o ++ config.chromeExtraArgs ∧
    (∀ flag : Flag, ((ownArgs config browserVersion userDataDir o).filter flag.isOf).length ≤ 1 ∧
      ∀ arg ∈ ownArgs config browserVersion userDataDir o, flag.isOf arg = true →
        ∃ s, flag.value config browserVersion o = some s ∧ arg = flag.text ++ s ∧ Printable s) ∧
    (∀ flag : Flag, flag.Agrees o o' →
      flag.value config browserVersion o = flag.value config browserVersion o') ∧
    ∀ name value, (name, value) ∈ (command config browserVersion userDataDir o env).envs →
      (name = "TZ" ∨ name = "LANGUAGE") ∧ Printable value := by
  have ho := (LaunchOptions.accepted_of_validate h).1
  refine ⟨?_, rfl, ?_, fun flag => value_of_agrees, fun name value => printable_envs ho⟩
  · simp only [args, List.filter_append, filter_not_isOptionArg]
  · intro flag
    have hfilter : (ownArgs config browserVersion userDataDir o).filter flag.isOf =
        flagArgs config browserVersion o flag := filter_isOf flag
    refine ⟨?_, ?_⟩
    · rw [hfilter, flagArgs]
      cases (flag.value config browserVersion o) <;> simp
    · intro arg harg hflag
      have hmem : arg ∈ flagArgs config browserVersion o flag := by
        rw [← hfilter]
        exact List.mem_filter.mpr ⟨harg, hflag⟩
      obtain ⟨s, hs, rfl⟩ := Option.map_eq_some_iff.mp (Option.mem_toList.mp hmem)
      exact ⟨s, hs, rfl, printable_value ho hs⟩

/-- A client that asks for a proxy and a language. -/
def frenchOptions : LaunchOptions :=
  { noOptions with
    proxyServer := some "http://proxy:3128"
    acceptLanguage := some "fr-FR" }

theorem no_argument_injection_frenchOptions :
    (args defaultConfig none "/tmp/pinokio-1" frenchOptions).filter (fun arg => !isOptionArg arg) =
      (args defaultConfig none "/tmp/pinokio-1" noOptions).filter (fun arg => !isOptionArg arg) :=
  (no_argument_injection defaultConfig (fun _ => none) none "/tmp/pinokio-1" frenchOptions noOptions
    (by rfl)).1

end Pinokio.Launch
