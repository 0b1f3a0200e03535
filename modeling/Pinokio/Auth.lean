/-
# Pinokio.Auth -- the token check (`auth.rs`)

A client presents the token in the query or in a header. The check looks at the query
first and then no further, and reads a header only when it is ASCII.
`isAuthorized_exact_iff` is that it misses nothing else, and lets no one in who
presents the token in neither place; `served_presents` is what that comes to in a run of
the server.
-/
import Pinokio.Config.FailClosed
import Pinokio.Queue.Conservation
import Pinokio.Server

namespace Pinokio.Auth

open Text

/-! ## `is_authorized` -/

/-- The header fields of a request, in order: lower-case names, and values of any bytes. -/
abbrev HeaderMap := List (String × ByteArray)

/-- `HeaderMap::get`: the first value of the name. -/
def HeaderMap.get (headers : HeaderMap) (name : String) : Option ByteArray := headers.lookup name

def isVisibleAscii (b : UInt8) : Bool := (32 ≤ b && b < 127) || b = 9

def isVisible (value : ByteArray) : Bool := value.data.toList.all isVisibleAscii

/-- `HeaderValue::to_str`. -/
def toStr (value : ByteArray) : Option String :=
  if isVisible value then String.fromUTF8? value else none

/-- `ConstantTimeEq` on slices: at equal lengths, all bytes are looked at. -/
def ctEq (a b : List UInt8) : Bool :=
  if a.length ≠ b.length then false
  else (List.zipWith (fun x y => decide (x = y)) a b).foldl (fun acc eq => acc && eq) true

def asBytes (s : String) : List UInt8 := s.toUTF8.data.toList

/-- The token of the `Authorization` header. -/
def bearer (headers : HeaderMap) : Option String :=
  (((headers.get "authorization").bind toStr).bind fun v => stripPrefix "Bearer " v).map trim

def isAuthorized (expected queryToken : Option String) (headers : HeaderMap) : Bool :=
  match expected with
  | none => true
  | some expected =>
    match queryToken.or (bearer headers) with
    | some provided => ctEq (asBytes provided) (asBytes expected)
    | none => false

/-- A request as `ws_handler` first sees it. -/
def request {Code : Type} (cfg : Config) (queryToken : Option String) (headers : HeaderMap)
    (launchOptions : Except String Unit) : Server.Request Code :=
  .new (isAuthorized cfg.token queryToken headers) launchOptions

/-! ## Tokens -/

/-- A token that a configuration can hold. -/
structure IsToken (token : String) : Prop where
  ne_empty : token ≠ ""
  trimmed : trim token = token

/-- These are all the tokens that can be configured. -/
theorem isToken_iff {token : String} :
    IsToken token ↔ ∃ env, Config.envTrimmed env "TOKEN" = some token := by
  constructor
  · intro h
    refine ⟨fun _ => some token.toUTF8, ?_⟩
    have hvar : Env.var (fun _ => some token.toUTF8) "TOKEN" = .ok token := by
      simp only [Env.var, Utf8.fromUTF8?_toUTF8]
    have hblank : isBlank token = false := by
      rw [isBlank, h.trimmed, decide_eq_false_iff_not]
      exact h.ne_empty
    rw [Config.envTrimmed_set hvar hblank, h.trimmed]
  · rintro ⟨env, h⟩
    unfold Config.envTrimmed at h
    split at h
    · split at h
      · cases h
      · rename_i hblank
        cases h
        exact ⟨by simpa [isBlank] using hblank, trim_trim _⟩
    · cases h

theorem isToken_of_fromEnv {S : System} {cfg : Config} {token : String}
    (h : Config.fromEnv S = .ok cfg) (htoken : cfg.token = some token) : IsToken token := by
  have heq : cfg.token = Config.envTrimmed S.env "TOKEN" := by
    simp only [Config.fromEnv, Config.bind_eq_ok] at h
    obtain ⟨_, -, _, -, _, -, _, -, _, -, _, -, _, -, _, -, _, -, _, -, _, -, _, -, _, -, h⟩ := h
    cases h
    rfl
  exact isToken_iff.mpr ⟨S.env, heq ▸ htoken⟩

/-! ## Who presents the token -/

/-- The `Authorization` header is `Bearer ` and the token, with white space around it. -/
def InHeader (token : String) (headers : HeaderMap) : Prop :=
  ∃ before after, AllChars (fun c => isWhitespace c = true) before ∧
    AllChars (fun c => isWhitespace c = true) after ∧
    headers.get "authorization" = some ("Bearer " ++ (before ++ token ++ after)).toUTF8

/-- The request presents the token on one of its two channels. -/
def Presents (token : String) (queryToken : Option String) (headers : HeaderMap) : Prop :=
  queryToken = some token ∨ InHeader token headers

/-- The check can read the header, if there is one. -/
def Legible (headers : HeaderMap) : Prop :=
  ∀ value, headers.get "authorization" = some value → isVisible value = true

theorem foldl_and (l : List Bool) (acc : Bool) :
    l.foldl (fun acc eq => acc && eq) acc = (acc && l.all id) := by
  induction l generalizing acc with
  | nil => simp
  | cons b l ih => rw [List.foldl_cons, ih, List.all_cons, id, Bool.and_assoc]

theorem ctEq_iff (a b : List UInt8) : ctEq a b = true ↔ a = b := by
  unfold ctEq
  rw [foldl_and, Bool.true_and]
  induction a generalizing b with
  | nil => cases b <;> simp
  | cons x a ih =>
      cases b with
      | nil => simp
      | cons y b =>
          have hrest := ih b
          by_cases hxy : x = y
          · simpa [hxy] using hrest
          · simp [hxy]

theorem asBytes_inj {s t : String} : asBytes s = asBytes t ↔ s = t := by
  unfold asBytes
  rw [Array.toList_inj, ← ByteArray.ext_iff, Utf8.toUTF8_inj]

/-- The header holds the token, as far as the check can read it. -/
theorem bearer_eq_some_iff {token : String} (h : IsToken token) (headers : HeaderMap) :
    bearer headers = some token ↔ InHeader token headers ∧ Legible headers := by
  unfold bearer
  rw [Option.map_eq_some_iff]
  constructor
  · rintro ⟨text, htext, htrim⟩
    obtain ⟨v, hv, hprefix⟩ := Option.bind_eq_some_iff.mp htext
    obtain ⟨value, hvalue, hstr⟩ := Option.bind_eq_some_iff.mp hv
    obtain ⟨before, after, hbefore, hafter, rfl⟩ := (trim_eq_iff h.trimmed).mp htrim
    rw [stripPrefix_eq_some_iff.mp hprefix] at hstr
    unfold toStr at hstr
    split at hstr
    · rename_i hvisible
      constructor
      · refine ⟨before, after, hbefore, hafter, ?_⟩
        rw [hvalue, Utf8.toUTF8_of_fromUTF8? hstr]
      · intro value' hvalue'
        rw [hvalue] at hvalue'
        rw [← Option.some.inj hvalue']
        exact hvisible
    · cases hstr
  · rintro ⟨⟨before, after, hbefore, hafter, hvalue⟩, hlegible⟩
    refine ⟨before ++ token ++ after, ?_, ?_⟩
    · rw [hvalue, Option.bind_some, toStr, if_pos (hlegible _ hvalue), Utf8.fromUTF8?_toUTF8,
        Option.bind_some]
      exact stripPrefix_eq_some_iff.mpr rfl
    · rw [trim_surrounded hbefore hafter, h.trimmed]

/-- What the check comes to: the query if there is one, and else the header. -/
theorem isAuthorized_iff {token : String} (h : IsToken token) (queryToken : Option String)
    (headers : HeaderMap) :
    isAuthorized (some token) queryToken headers = true ↔
      queryToken = some token ∨ (queryToken = none ∧ InHeader token headers ∧ Legible headers) := by
  unfold isAuthorized
  cases queryToken with
  | some provided => simp [ctEq_iff, asBytes_inj]
  | none =>
      rw [← bearer_eq_some_iff h headers]
      cases hbearer : bearer headers with
      | none => simp
      | some provided => simp [ctEq_iff, asBytes_inj]

/-- Without the token no request is let in. -/
theorem presents_of_isAuthorized {token : String} (h : IsToken token)
    {queryToken : Option String} {headers : HeaderMap}
    (hauth : isAuthorized (some token) queryToken headers = true) :
    Presents token queryToken headers := by
  rcases (isAuthorized_iff h queryToken headers).mp hauth with hquery | ⟨-, hheader, -⟩
  · exact Or.inl hquery
  · exact Or.inr hheader

/-- The check lets in who presents the token, and no one else, exactly when a token in
the header comes with the token in the query too, or with no query and in ASCII. -/
theorem isAuthorized_exact_iff {token : String} (h : IsToken token) (queryToken : Option String)
    (headers : HeaderMap) :
    (isAuthorized (some token) queryToken headers = true ↔ Presents token queryToken headers) ↔
      (InHeader token headers →
        queryToken = some token ∨ (queryToken = none ∧ Legible headers)) := by
  rw [isAuthorized_iff h, Presents]
  constructor
  · intro hexact hheader
    rcases hexact.mpr (Or.inr hheader) with hquery | ⟨hnone, -, hlegible⟩
    · exact Or.inl hquery
    · exact Or.inr ⟨hnone, hlegible⟩
  · intro hcond
    constructor
    · rintro (hquery | ⟨-, hheader, -⟩)
      · exact Or.inl hquery
      · exact Or.inr hheader
    · rintro (hquery | hheader)
      · exact Or.inl hquery
      · rcases hcond hheader with hquery | ⟨hnone, hlegible⟩
        · exact Or.inl hquery
        · exact Or.inr ⟨hnone, hheader, hlegible⟩

/-! ## A token that is overlooked -/

theorem isToken_secret : IsToken "secret" := ⟨by decide, by decide⟩

/-- A client with this token in its header. -/
def headerClient (token : String) : HeaderMap :=
  [("authorization", ("Bearer " ++ ("" ++ token ++ "")).toUTF8)]

theorem inHeader_headerClient (token : String) : InHeader token (headerClient token) := by
  refine ⟨"", "", ?_, ?_, rfl⟩
  · intro c hc
    cases hc
  · intro c hc
    cases hc

theorem isAuthorized_exact_headerClient :
    isAuthorized (some "secret") none (headerClient "secret") = true ↔
      Presents "secret" none (headerClient "secret") := by
  refine (isAuthorized_exact_iff isToken_secret none (headerClient "secret")).mpr ?_
  intro _
  right
  refine ⟨rfl, ?_⟩
  intro value hvalue
  rw [← Option.some.inj hvalue]
  decide

/-- An empty token in the query hides the right one in the header, and so does an accent. -/
theorem overlooks_headerClient :
    (IsToken "secret" ∧ isAuthorized (some "secret") (some "") (headerClient "secret") = false ∧
      ¬ (isAuthorized (some "secret") (some "") (headerClient "secret") = true ↔
        Presents "secret" (some "") (headerClient "secret"))) ∧
    (IsToken "clé" ∧ isAuthorized (some "clé") none (headerClient "clé") = false ∧
      ¬ (isAuthorized (some "clé") none (headerClient "clé") = true ↔
        Presents "clé" none (headerClient "clé"))) := by
  have hoverlooked : ∀ (token : String) (queryToken : Option String),
      isAuthorized (some token) queryToken (headerClient token) = false →
      ¬ (isAuthorized (some token) queryToken (headerClient token) = true ↔
        Presents token queryToken (headerClient token)) := by
    intro token queryToken hauth hexact
    rw [hexact.mpr (Or.inr (inHeader_headerClient token))] at hauth
    cases hauth
  have hmasked : isAuthorized (some "secret") (some "") (headerClient "secret") = false := by
    decide
  have haccent : isAuthorized (some "clé") none (headerClient "clé") = false := by decide
  exact ⟨⟨isToken_secret, hmasked, hoverlooked _ _ hmasked⟩,
    ⟨⟨by decide, by decide⟩, haccent, hoverlooked _ _ haccent⟩⟩

/-! ## Requests without the token -/

section

variable {Code : Type} {limits : Gate.Limits} {codes : Proxy.CloseCodes Code}
  {s s' : Server.AppState} {i : Nat} {r r' : Server.Request Code} {a : Server.RequestAction Code}

/-- The request has not got past its first check, and never will: it has not come to the gate,
it has no Chromium, and it may have been refused there, or left. -/
structure Outside (r : Server.Request Code) : Prop where
  unauthorized : r.authorized = false
  call : r.call = .idle
  chromium : r.chromium = none
  phase : r.phase = .authorize ∨ r.phase = .ended (.refused .unauthorized) ∨
    r.phase = .ended .dropped

theorem authorized_step (h : Server.RequestStep limits codes s i r a s' r') :
    r'.authorized = r.authorized := by
  cases h <;> rfl

theorem outside_step (ho : Outside r) (h : Server.RequestStep limits codes s i r a s' r') :
    Outside r' := by
  obtain ⟨hauth, hcall, hnone, hphase⟩ := ho
  cases h with
  | authorized hp hm hyes =>
      rw [hauth] at hyes
      cases hyes
  | unauthorized hp hm hno => exact ⟨hauth, hcall, hnone, Or.inr (Or.inl rfl)⟩
  | dropNew hp => exact ⟨hauth, hcall, hnone, Or.inr (Or.inr rfl)⟩
  | dropSuspended hs =>
      rcases hphase with hp | hp | hp
      all_goals
        rw [hp] at hs
        cases hs
  | exits p p' hc h =>
      rw [hnone] at hc
      cases hc
  | _ =>
      -- every other step is one of a request that is further on
      rw [‹r.phase = _›] at hphase
      rcases hphase with hp | hp | hp
      all_goals cases hp

/-- What becomes of the requests that come in. -/
theorem became_of_run {s : Server.State Code} {as : List (Server.Action Code)}
    (hrun : (Server.machine limits codes).run (Server.init limits) as = some s) :
    s.procs.length = (Pool.arrivals as).length ∧
      ∀ (i : Nat) (r : Server.Request Code), s.procs[i]? = some r →
        ∃ r₀, (Pool.arrivals as)[i]? = some r₀ ∧ r.authorized = r₀.authorized ∧
          (r₀.authorized = false → Outside r) := by
  refine Pool.run_arrivals ?_ ?_ hrun
  · intro r hnew
    exact ⟨rfl, fun hauth => ⟨hauth, Server.isNew_call hnew, Server.isNew_chromium hnew,
      Or.inl (Server.isNew_phase hnew)⟩⟩
  · rintro s i r₀ r a s' r' ⟨hsame, houtside⟩ hact
    have hstep := (Server.act_inv hact).2
    exact ⟨(authorized_step hstep).trans hsame, fun hauth => outside_step (houtside hauth) hstep⟩

end

/-- With a token in its configuration the server lets no request past the first check that
does not present it, in any run. -/
theorem served_presents {Code : Type} {limits : Gate.Limits} {codes : Proxy.CloseCodes Code}
    {S : System} {cfg : Config} {token : String} {queryToken : Option String}
    {headers : HeaderMap} {launchOptions : Except String Unit} {s : Server.State Code}
    {as : List (Server.Action Code)} {i : Nat} (hcfg : Config.fromEnv S = .ok cfg)
    (htoken : cfg.token = some token)
    (hrun : (Server.machine limits codes).run (Server.init limits) as = some s)
    (harrived : (Pool.arrivals as)[i]? = some (request cfg queryToken headers launchOptions)) :
    ∃ r, s.procs[i]? = some r ∧ (Presents token queryToken headers ∨ Outside r) := by
  obtain ⟨hlen, hbecame⟩ := became_of_run hrun
  have hlt : i < s.procs.length := hlen ▸ (List.getElem?_eq_some_iff.mp harrived).1
  obtain ⟨r, hr⟩ : ∃ r, s.procs[i]? = some r := ⟨_, List.getElem?_eq_getElem hlt⟩
  obtain ⟨r₀, hr₀, -, houtside⟩ := hbecame i r hr
  obtain rfl := Option.some.inj (harrived.symm.trans hr₀)
  refine ⟨r, hr, ?_⟩
  cases hauth : isAuthorized cfg.token queryToken headers with
  | true =>
      rw [htoken] at hauth
      exact Or.inl (presents_of_isAuthorized (isToken_of_fromEnv hcfg htoken) hauth)
  | false => exact Or.inr (houtside hauth)

theorem not_presents_guess : ¬ Presents "secret" none (headerClient "guess") := by
  rintro (hquery | hheader)
  · cases hquery
  · have hlegible : Legible (headerClient "guess") := by
      intro value hvalue
      rw [← Option.some.inj hvalue]
      decide
    have hbearer := (bearer_eq_some_iff isToken_secret _).mpr ⟨hheader, hlegible⟩
    exact absurd hbearer (by decide)

/-- Request 0 comes and is checked, then request 1 up to the gate. -/
def twoClients (r₀ r₁ : Server.Request UInt16) : List (Server.Action UInt16) :=
  [.env .browserReady, .spawn r₀, .act 0 .check, .spawn r₁, .act 1 .check, .act 1 .check,
    .act 1 .check, .act 1 .check]

/-- Of two clients with a token in their header the server lets the one in that has the right
one. -/
theorem served_presents_twoClients :
    ∃ (cfg : Config) (s : Server.State UInt16) (r : Server.Request UInt16),
      Config.fromEnv (Config.plainSystem Config.setEnv) = .ok cfg ∧
      cfg.token = some "secret" ∧
      (Server.machine Gate.oneAndOne Proxy.plainCodes).run (Server.init Gate.oneAndOne)
        (twoClients (request cfg none (headerClient "guess") (.ok ()))
          (request cfg none (headerClient "secret") (.ok ()))) = some s ∧
      s.procs[0]? = some r ∧ Outside r ∧
      (s.procs[1]?).map Server.Request.authorized = some true := by
  obtain ⟨cfg, hcfg⟩ : ∃ cfg, Config.fromEnv (Config.plainSystem Config.setEnv) = .ok cfg :=
    Config.exists_of_isSome_toOption (by decide)
  have htoken : cfg.token = some "secret" := by
    have hread : (Config.fromEnv (Config.plainSystem Config.setEnv)).toOption.map
        (fun cfg => cfg.token) = some (some "secret") := by decide
    rw [hcfg] at hread
    exact Option.some.inj hread
  have hguess : isAuthorized cfg.token none (headerClient "guess") = false := by
    rw [htoken]
    decide
  have hsecret : isAuthorized cfg.token none (headerClient "secret") = true := by
    rw [htoken]
    decide
  have hrun : ∃ s : Server.State UInt16,
      (Server.machine Gate.oneAndOne Proxy.plainCodes).run (Server.init Gate.oneAndOne)
        (twoClients (request cfg none (headerClient "guess") (.ok ()))
          (request cfg none (headerClient "secret") (.ok ()))) = some s ∧
      (s.procs[1]?).map Server.Request.authorized = some true := by
    simp only [request, hguess, hsecret]
    exact ⟨_, rfl, rfl⟩
  obtain ⟨s, hs, hother⟩ := hrun
  obtain ⟨r, hr, hpresents | hout⟩ := @served_presents UInt16 Gate.oneAndOne Proxy.plainCodes _
    cfg "secret" none (headerClient "guess") (.ok ()) s _ 0 hcfg htoken hs rfl
  · exact absurd hpresents not_presents_guess
  · exact ⟨cfg, s, r, hcfg, htoken, hs, hr, hout, hother⟩

end Pinokio.Auth
