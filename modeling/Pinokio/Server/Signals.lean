/-
# Pinokio.Server.Signals -- whom the signals of a shutdown reach

The number of a child is its own until the child is reaped. `shutdown` sends its last
SIGKILL after that: if another process has founded a group with the number by then
(`TakesOver`), the signal goes there. In every other case it reaches nothing but
descendants of the child of its own request, whatever all the others do.

`Keeps` is what the table has for one request on its way, `Accounts` what it has for
the gateway and all of them.
-/
import Pinokio.Server.Host

namespace Pinokio.Signals

open Server
open Processes (Call Proc Table)

variable {Code : Type} {limits : Gate.Limits} {codes : Proxy.CloseCodes Code}

variable {app app' : AppState} {i : Nat} {r r' : Request Code} {a : RequestAction Code}

/-! ## What a request can rely on -/

/-- The call of an action by which a process may found a group. -/
def callOf (s : State Code) : Action Code → Option (Call Nat)
  | .act i .setsid => (s.procs[i]?).bind fun c => c.pid.map .setsid
  | .env (.call call) => some call
  | _ => none

/-- A process that does not descend from the child of request `i` founds a group with
the number of that child, which is reaped, while the last SIGKILL to this number is
still to be sent. -/
def TakesOver (s : State Code) (e : Action Code) : Prop :=
  ∃ i c n call, s.procs[i]? = some c ∧ c.pid = some n ∧ c.awaitsSweep = true ∧
    callOf s e = some call ∧ s.shared.table.Founds call n i

instance (s : State Code) (e : Action Code) : Decidable (TakesOver s e) :=
  decidable_of_iff
    (∃ call ∈ callOf s e, ∃ x ∈ s.procs.zipIdx, ∃ n ∈ x.1.pid,
      x.1.awaitsSweep = true ∧ s.shared.table.Founds call n x.2) <| by
    constructor
    · rintro ⟨call, hcall, ⟨c, i⟩, hx, n, hpid, hsweep, hfounds⟩
      exact ⟨i, c, n, call, List.mem_zipIdx_iff_getElem?.mp hx, hpid, hsweep, hcall, hfounds⟩
    · rintro ⟨i, c, n, call, hc, hpid, hsweep, hcall, hfounds⟩
      exact ⟨call, hcall, (c, i), List.mem_zipIdx_iff_getElem?.mpr hc, n, hpid, hsweep, hfounds⟩

/-- What the table has for request `i`: before the fork nothing descends from it;
then its child alone, and until that is reaped its number; then, as long as a signal
is to come, a group that nothing else gets into. -/
structure Keeps (t : Table Nat) (i : Nat) (c : Session Code) : Prop where
  early : c.stage = .early → c.pid = none
  unspawned : c.stage.rank ≤ Stage.launching.rank → c.request.chromium = none
  unforked : c.pid = none → t.Only none i
  alone : ∀ n, c.pid = some n → c.preExec = true → t.Only (some n) i
  confined : ∀ n, c.pid = some n → c.answers = true → c.preExec = false → t.Confined i
  owns : ∀ n, c.pid = some n → c.answers = true → t.Owns n i
  holds : ∀ n, c.pid = some n → c.held = true → t.Holds n (some i)

/-- The call leaves request `i` alone. -/
structure Spares (t : Table Nat) (call : Call Nat) (i : Nat) (c : Session Code) : Prop where
  label : ∀ parent child, call ≠ .fork parent child (some i)
  reap : ∀ n, c.pid = some n → c.held = true → call ≠ .reap n
  preExec : ∀ n, c.pid = some n → c.preExec = true →
    (∀ child label, call ≠ .fork n child label) ∧ call ≠ .setpgid n n
  founds : ∀ n, c.pid = some n → c.awaitsSweep = true → ¬ t.Founds call n i

variable {t t' : Table Nat} {call : Call Nat} {c : Session Code}

theorem answers_of_held (h : c.held = true) : c.answers = true :=
  (Bool.and_eq_true _ _ ▸ h).1

theorem stage_of_preExec (h : c.preExec = true) : c.stage = .launching :=
  of_decide_eq_true (Bool.and_eq_true _ _ ▸ h).1

theorem reaped_unspawned (h : c.request.chromium = none) : c.reaped = false := by
  simp [Session.reaped, h]

theorem leads_of_preExec (h : c.preExec = true) : c.leads = false :=
  (Bool.not_eq_true' _).mp (Bool.and_eq_true _ _ ▸ h).2

/-- Before its exec the child is in the hands of the launch. -/
theorem Keeps.held_of_preExec (hk : Keeps t i c) (h : c.preExec = true) : c.held = true := by
  have hstage := stage_of_preExec h
  have hnone := hk.unspawned (by rw [hstage])
  simp [Session.held, Session.answers, hstage, reaped_unspawned hnone]

/-- The number of a child that is not reaped is its own; afterwards it takes a founder
to get into the group. -/
theorem Keeps.not_founds (hk : Keeps t i c) (hs : Spares t call i c) {n : Nat}
    (hpid : c.pid = some n) (hans : c.answers = true) : ¬ t.Founds call n i := by
  by_cases hheld : c.held = true
  · exact (hk.holds n hpid hheld).not_founds
  · have hreaped : c.reaped = true := by simpa [Session.held, hans] using hheld
    have hstage : c.stage = .signalling := by
      rcases Bool.or_eq_true_iff.mp hans with h | h
      · have hnone := hk.unspawned (by rw [of_decide_eq_true h])
        rw [reaped_unspawned hnone] at hreaped
        cases hreaped
      · exact of_decide_eq_true h
    exact hs.founds n hpid (by simp [Session.awaitsSweep, hstage, hreaped])

/-- What leaves a request alone leaves it what it relies on. -/
theorem Keeps.step (hk : Keeps t i c) (hst : t.step call = some t') (hs : Spares t call i c) :
    Keeps t' i c where
  early := hk.early
  unspawned := hk.unspawned
  unforked hpid := (hk.unforked hpid).step hst hs.label (fun _ _ _ _ h => by cases h)
  alone n hpid hpre := (hk.alone n hpid hpre).step hst hs.label (by
    rintro parent child label rfl h
    obtain rfl := Option.some.inj h
    exact (hs.preExec n hpid hpre).1 child label rfl)
  confined n hpid hans hpre := (hk.confined n hpid hans hpre).step hst hs.label
  owns n hpid hans := (hk.owns n hpid hans).step hst (hk.not_founds hs hpid hans) (by
    intro hself
    cases hpre : c.preExec with
    | true => exact absurd hself (hs.preExec n hpid hpre).2
    | false => exact hk.confined n hpid hans hpre)
  holds n hpid hheld := (hk.holds n hpid hheld).step hst (hs.reap n hpid hheld)

/-- A request that goes on, to `c'`, with the same child. -/
theorem Keeps.goes_on {c' : Session Code} (hk : Keeps t i c) (hpid' : c'.pid = c.pid)
    (hleads : c'.leads = c.leads) (hrank : c.stage.rank ≤ c'.stage.rank)
    (hun : c'.stage.rank ≤ Stage.launching.rank → c'.request.chromium = none)
    (hreaped : c.reaped = true → c'.reaped = true)
    (hspawn : ∀ n, c.pid = some n → c.preExec = true → c'.stage = .signalling → t.Confined i) :
    Keeps t i c' := by
  have back : ∀ n, c.pid = some n → c'.stage ≠ .finished →
      c.stage = .launching ∨ (c.stage = .signalling ∧ c'.stage = .signalling) := by
    intro n hpid hfinished
    cases hs : c.stage with
    | early =>
        rw [hk.early hs] at hpid
        cases hpid
    | launching => exact Or.inl rfl
    | signalling | finished =>
        rw [hs] at hrank
        cases hs' : c'.stage <;> simp_all [Stage.rank]
  have hans : ∀ n, c.pid = some n → c'.answers = true → c.answers = true := by
    intro n hpid h
    have hfinished : c'.stage ≠ .finished := by
      intro hfinished
      simp [Session.answers, hfinished] at h
    rcases back n hpid hfinished with hs | ⟨hs, -⟩
    · simp [Session.answers, hs]
    · simp [Session.answers, hs]
  constructor
  case early =>
    intro hs
    rw [hs] at hrank
    rw [hpid']
    apply hk.early
    cases hstage : c.stage <;> simp_all [Stage.rank]
  case unspawned => exact hun
  case unforked => exact fun hpid => hk.unforked (hpid' ▸ hpid)
  case alone =>
    intro n hpid hpre
    rw [hpid'] at hpid
    have hs := stage_of_preExec hpre
    apply hk.alone n hpid
    rcases back n hpid (by simp [hs]) with h | ⟨-, h⟩
    · simp [Session.preExec, h, ← hleads, leads_of_preExec hpre]
    · rw [hs] at h
      cases h
  case confined =>
    intro n hpid h hpre
    rw [hpid'] at hpid
    cases hold : c.preExec with
    | false => exact hk.confined n hpid (hans n hpid h) hold
    | true =>
        apply hspawn n hpid hold
        have hne : c'.stage ≠ .launching := by
          simpa [Session.preExec, hleads, leads_of_preExec hold] using hpre
        simpa [Session.answers, hne] using h
  case owns =>
    intro n hpid h
    rw [hpid'] at hpid
    exact hk.owns n hpid (hans n hpid h)
  case holds =>
    intro n hpid h
    rw [hpid'] at hpid
    apply hk.holds n hpid
    have hnot : c.reaped = false := by
      by_contra hne
      have hnew := hreaped (by simpa using hne)
      simp [Session.held, hnew] at h
    simp [Session.held, hans n hpid (answers_of_held h), hnot]

theorem spares_exit (n : Nat) : Spares t (.exit n) i c where
  label := by simp
  reap := by simp
  preExec := by simp
  founds := by simp [Table.Founds]

theorem spares_reap {n : Nat} (h : ∀ m, c.pid = some m → c.held = true → m ≠ n) :
    Spares t (.reap n) i c where
  label := by simp
  reap m hpid hheld := by simpa [eq_comm] using h m hpid hheld
  preExec := by simp
  founds := by simp [Table.Founds]

/-! ## The whole table -/

/-- What the table has for the gateway and for every request there is or will be. -/
structure Accounts (t : Table Nat) (gateway : Nat) (sessions : List (Session Code)) : Prop where
  gateway : t.Holds gateway none
  keeps : ∀ i c, sessions[i]? = some c → Keeps t i c
  absent : ∀ i, sessions.length ≤ i → t.Only none i

variable {gateway : Nat} {sessions : List (Session Code)}

theorem Accounts.set {c' : Session Code} (ha : Accounts t gateway sessions)
    (hi : sessions[i]? = some c) (hk : Keeps t i c') : Accounts t gateway (sessions.set i c') where
  gateway := ha.gateway
  keeps j d hd := by
    rcases Pool.getElem?_set_cases hd with ⟨rfl, rfl⟩ | ⟨-, hd⟩
    · exact hk
    · exact ha.keeps j d hd
  absent j hj := ha.absent j (by simpa using hj)

/-- A call that leaves all the requests alone but the one, if any, that it is made for. -/
theorem Accounts.step_own {c' : Session Code} (ha : Accounts t gateway sessions)
    (hst : t.step call = some t') (hi : sessions[i]? = some c) (hgate : call ≠ .reap gateway)
    (hlabel : ∀ parent child k, call = .fork parent child (some k) → k = i)
    (hs : ∀ j d, j ≠ i → sessions[j]? = some d → Spares t call j d) (hk : Keeps t' i c') :
    Accounts t' gateway (sessions.set i c') where
  gateway := ha.gateway.step hst hgate
  keeps j d hd := by
    rcases Pool.getElem?_set_cases hd with ⟨rfl, rfl⟩ | ⟨hne, hd⟩
    · exact hk
    · exact (ha.keeps j d hd).step hst (hs j d hne hd)
  absent j hj := by
    have hlen : sessions.length ≤ j := by simpa using hj
    have hlt : i < sessions.length := (List.getElem?_eq_some_iff.mp hi).1
    refine (ha.absent j hlen).step hst ?_ (fun _ _ _ _ h => by cases h)
    intro parent child hcall
    have := hlabel parent child j hcall
    omega

theorem Accounts.step (ha : Accounts t gateway sessions) (hst : t.step call = some t')
    (hgate : call ≠ .reap gateway) (hlabel : ∀ parent child k, call ≠ .fork parent child (some k))
    (hs : ∀ j d, sessions[j]? = some d → Spares t call j d) : Accounts t' gateway sessions where
  gateway := ha.gateway.step hst hgate
  keeps j d hd := (ha.keeps j d hd).step hst (hs j d hd)
  absent j hj := (ha.absent j hj).step hst (fun _ _ => hlabel _ _ j) (fun _ _ _ _ h => by cases h)

/-- The number that a request holds is neither the gateway's nor another request's. -/
theorem Accounts.number_unique {n m : Nat} {j : Nat} {d : Session Code}
    (ha : Accounts t gateway sessions) (hi : t.Holds n (some i)) (hj : sessions[j]? = some d)
    (hne : j ≠ i) (hpid : d.pid = some m) (hheld : d.held = true) : m ≠ n := by
  rintro rfl
  exact hne (Option.some.inj (((ha.keeps j d hj).holds m hpid hheld).unique hi))

theorem Accounts.gateway_ne {n : Nat} (ha : Accounts t gateway sessions)
    (hi : t.Holds n (some i)) : n ≠ gateway := by
  rintro rfl
  cases hi.unique ha.gateway

/-! ## What a step of a request is for the kernel -/

/-- Everything it can be: nothing, a signal, the exit of the child, or the end of the
request's hold on the number. -/
inductive Effect (h : Host) (i : Nat) (c c' : Session Code) : Host → Prop
  | none : Effect h i c c' h
  | killpg {n} (signal) (hpid : c.pid = some n) (hans : c.answers = true) :
      Effect h i c c' (h.killpg i n [signal])
  | exit {n h'} (hcall : h.call (.exit n) = some h') : Effect h i c c' h'
  | reap {n h'} (hpid : c.pid = some n) (hheld : c.held = true) (hdone : c'.held = false)
      (hcall : h.call (.reap n) = some h') : Effect h i c c' h'
  | failed {n h₁ h'} (hpid : c.pid = some n) (hheld : c.held = true) (hdone : c'.held = false)
      (hexit : h.call (.exit n) = some h₁) (hreap : h₁.call (.reap n) = some h') :
      Effect h i c c' h'

theorem killpg_nil (h : Host) (i n : Nat) : h.killpg i n [] = h := by
  simp [Host.killpg]

theorem follow_effect {h h' : Host} {n : Nat} {p p' : Chromium} {c' : Session Code}
    (hm : Moves c.stage p p') (hpid : c.pid = some n) (hp : c.request.chromium = some p)
    (hp' : c'.request.chromium = some p') (hf : h.follow i n p p' = some h') :
    Effect h i c c' h' := by
  obtain ⟨h₁, hcall, rfl⟩ := Option.map_eq_some_iff.mp hf
  cases hm with
  | still hc hs =>
      rw [if_pos hc] at hcall
      obtain rfl := Option.some.inj hcall
      rw [hs, List.drop_length, killpg_nil]
      exact .none
  | killpg signal hstage hc hs =>
      rw [if_pos hc] at hcall
      obtain rfl := Option.some.inj hcall
      rw [hs, List.drop_left]
      exact .killpg signal hpid (by simp [Session.answers, hstage])
  | reaps hstage hne hc hs =>
      rw [hs, List.drop_length, killpg_nil]
      by_cases hreaped : p.child = .reaped
      · rw [if_pos (hc.trans hreaped.symm)] at hcall
        obtain rfl := Option.some.inj hcall
        exact .none
      · rw [hc, if_neg (Ne.symm hreaped)] at hcall
        refine .reap hpid ?_ ?_ hcall
        · simp [Session.held, Session.answers, Session.reaped, hstage, hp, hreaped]
        · simp [Session.held, Session.reaped, hp', hc]
  | exits hrun hc hs =>
      rw [hs, List.drop_length, killpg_nil]
      rw [hc, hrun, if_neg (by decide)] at hcall
      exact .exit hcall

theorem spawnFails_stage {error : LaunchError}
    (h : RequestStep limits codes app i r (.spawnFails error) app' r') :
    stageOf r.phase = .launching ∧ stageOf r'.phase = .finished := by
  cases h with
  | spawnFails _ hp => exact ⟨by rw [hp]; rfl, rfl⟩

theorem phase_of_launching {phase : Phase Code} (h : stageOf phase = .launching) :
    phase = .launching := by
  cases phase with
  | launching => rfl
  | aborting shutdown | closing shutdown | detached shutdown =>
      cases shutdown <;> cases h
  | _ => cases h

theorem spawn_of_stage (h : RequestStep limits codes app i r a app' r')
    (hs : stageOf r.phase = .launching) (hs' : stageOf r'.phase = .signalling) : a = .spawn := by
  have hphase := phase_of_launching hs
  cases h with
  | spawn => rfl
  | gate | exits | releaseDetached =>
      rw [hs] at hs'
      cases hs'
  | spawnFails | dropSuspended => cases hs'
  | _ =>
      rw [hphase] at *
      contradiction

theorem track_inv {h h' : Host} (hk : Keeps t i c)
    (hstep : RequestStep limits codes app i c.request a app' r')
    (ht : h.track i c r' = some h') : Effect h i c { c with request := r' } h' := by
  unfold Host.track at ht
  split at ht
  next n p p' hpid hp hp' =>
    rcases chromium_moves hstep with hsame | ⟨-, hs, -, -⟩ | ⟨q, q', hq, hq', hm⟩
    · obtain rfl := Option.some.inj (hp'.symm.trans (hsame.trans hp))
      exact follow_effect (.still rfl rfl) hpid hp hp' ht
    · have hnone := hk.unspawned (by rw [Session.stage, hs])
      rw [hnone] at hp
      cases hp
    · obtain rfl := Option.some.inj (hq.symm.trans hp)
      obtain rfl := Option.some.inj (hq'.symm.trans hp')
      exact follow_effect hm hpid hp hp' ht
  next =>
    obtain rfl := Option.some.inj ht
    exact .none

theorem effect_inv {h h' : Host} (hk : Keeps t i c)
    (hstep : RequestStep limits codes app i c.request a app' r')
    (heff : h.effect i c r' a = some h') : Effect h i c { c with request := r' } h' := by
  cases a with
  | spawnFails error =>
      obtain ⟨hs, hs'⟩ := spawnFails_stage hstep
      simp only [Host.effect] at heff
      split at heff
      next n hpid =>
        obtain ⟨h₁, hexit, hreap⟩ := Option.bind_eq_some_iff.mp heff
        have hnone := hk.unspawned (by rw [Session.stage, hs])
        refine .failed hpid ?_ ?_ hexit hreap
        · simp [Session.held, Session.answers, Session.stage, hs, reaped_unspawned hnone]
        · simp [Session.held, Session.answers, Session.stage, hs']
      next =>
        obtain rfl := Option.some.inj heff
        exact .none
  | _ => exact track_inv hk hstep heff

/-- A step of a request leaves it what it relies on, before the kernel has followed. -/
theorem keeps_request (hk : Keeps t i c) (hready : c.ready t a = true)
    (hstep : RequestStep limits codes app i c.request a app' r') :
    Keeps t i { c with request := r' } := by
  refine hk.goes_on rfl rfl (stage_rank_le hstep) ?_ ?_ ?_
  case refine_1 =>
    intro hrank
    have hnone := hk.unspawned (Nat.le_trans (stage_rank_le hstep) hrank)
    rcases chromium_moves hstep with hsame | ⟨-, -, hs', -⟩ | ⟨p, p', hp, -, -⟩
    · exact hsame.trans hnone
    · rw [Session.stage, hs'] at hrank
      exact absurd hrank (by decide)
    · rw [hnone] at hp
      cases hp
  case refine_2 =>
    intro hreaped
    rcases chromium_moves hstep with hsame | ⟨-, hs, -, -⟩ | ⟨p, p', hp, hp', hm⟩
    · simpa only [Session.reaped, hsame] using hreaped
    · rw [reaped_unspawned (hk.unspawned (by rw [Session.stage, hs]))] at hreaped
      cases hreaped
    · have hchild : p.child = .reaped := by simpa [Session.reaped, hp] using hreaped
      have hchild' : p'.child = .reaped := by
        cases hm with
        | still hc | killpg _ _ hc => exact hc.trans hchild
        | reaps _ _ hc => exact hc
        | exits hrun =>
            rw [hrun] at hchild
            cases hchild
      simp [Session.reaped, hp', hchild']
  case refine_3 =>
    intro n hpid hpre hs'
    obtain rfl := spawn_of_stage hstep (stage_of_preExec hpre) hs'
    -- `spawn` returns without the `setsid` only when the child is dead
    have hdead : t.live? n = none := by
      simpa [Session.ready, hpid, leads_of_preExec hpre] using hready
    exact Table.confined_of_zombie (hk.alone n hpid hpre) hdead

/-! ## Every step -/

/-- What a state of the gateway on its host has: the table accounts for every request,
and no signal has gone astray. -/
structure Inv (s : State Code) : Prop where
  accounts : Accounts s.shared.table s.shared.gateway s.procs
  delivered : ∀ d ∈ s.shared.delivered, d.process.origin = some d.sender

theorem Accounts.exit {n : Nat} (ha : Accounts t gateway sessions)
    (hst : t.step (.exit n) = some t') : Accounts t' gateway sessions :=
  ha.step hst (by simp) (by simp) fun _ _ _ => spares_exit n

/-- A request that has let go of the number of its child can reap it. -/
theorem Accounts.reap {n : Nat} (ha : Accounts t gateway sessions)
    (hst : t.step (.reap n) = some t') (hholds : t.Holds n (some i))
    (hdone : ∀ c, sessions[i]? = some c → c.held = false) : Accounts t' gateway sessions := by
  refine ha.step hst ?_ (by simp) ?_
  · intro h
    exact ha.gateway_ne hholds (Call.reap.inj h)
  · intro j d hd
    apply spares_reap
    intro m hpid hheld
    by_cases hij : j = i
    · subst hij
      rw [hdone d hd] at hheld
      cases hheld
    · exact ha.number_unique hholds hd hij hpid hheld

theorem delivered_killpg {h : Host} {n : Nat} {signal : Signal} (howns : h.table.Owns n i)
    (hd : ∀ d ∈ h.delivered, d.process.origin = some d.sender) :
    ∀ d ∈ (h.killpg i n [signal]).delivered, d.process.origin = some d.sender := by
  intro d hmem
  rcases List.mem_append.mp hmem with hmem | hmem
  · exact hd d hmem
  · obtain ⟨process, hprocess, rfl⟩ : ∃ process ∈ h.table.group n, _ = d := by
      simpa using hmem
    exact howns.origin_of_group hprocess

/-- A step of a request, followed by the kernel. -/
theorem Inv.effect {s : State Code} {h' : Host} {c' : Session Code} (hinv : Inv s)
    (hc : s.procs[i]? = some c) (hk' : Keeps s.shared.table i c')
    (heff : Effect s.shared i c c' h') : Inv { shared := h', procs := s.procs.set i c' } := by
  have hk := hinv.accounts.keeps i c hc
  have hset : Accounts s.shared.table s.shared.gateway (s.procs.set i c') :=
    hinv.accounts.set hc hk'
  have hdone : c'.held = false → ∀ d, (s.procs.set i c')[i]? = some d → d.held = false := by
    intro hheld d hd
    rw [Pool.getElem?_set_of_some hc] at hd
    obtain rfl := Option.some.inj hd
    exact hheld
  cases heff with
  | none => exact ⟨hset, hinv.delivered⟩
  | @killpg n signal hpid hans =>
      exact ⟨hset, delivered_killpg (hk.owns n hpid hans) hinv.delivered⟩
  | exit hcall =>
      obtain ⟨t, ht, rfl⟩ := call_inv hcall
      exact ⟨hset.exit ht, hinv.delivered⟩
  | @reap n _ hpid hheld hnot hcall =>
      obtain ⟨t, ht, rfl⟩ := call_inv hcall
      exact ⟨hset.reap ht (hk.holds n hpid hheld) (hdone hnot), hinv.delivered⟩
  | @failed n _ _ hpid hheld hnot hexit hreap =>
      obtain ⟨t₁, ht₁, rfl⟩ := call_inv hexit
      obtain ⟨t, ht, rfl⟩ := call_inv hreap
      have hholds := (hk.holds n hpid hheld).step ht₁ (by simp)
      exact ⟨(hset.exit ht₁).reap ht hholds (hdone hnot), hinv.delivered⟩

/-- Nothing descends from a request that has not been polled yet. -/
theorem keeps_new (hnew : c.request.isNew = true) (hpid : c.pid = none) (ho : t.Only none i) :
    Keeps t i c := by
  have hstage : c.stage = .early := by rw [Session.stage, isNew_phase hnew]; rfl
  constructor
  case early => exact fun _ => hpid
  case unspawned => exact fun _ => isNew_chromium hnew
  case unforked => exact fun _ => ho
  all_goals
    intro n h
    rw [hpid] at h
    cases h

theorem keeps_fork {n : Nat} (hk : Keeps t i c) (hstage : c.stage = .launching)
    (hpid : c.pid = none) (hgate : t.Holds gateway none)
    (hst : t.step (.fork gateway n (some i)) = some t') :
    Keeps t' i { c with pid := some n, leads := false } := by
  obtain ⟨hholds, halone, howns⟩ := Table.fork_labelled hst hgate (hk.unforked hpid)
  constructor
  case early =>
    intro hs
    rw [Session.stage] at hs hstage
    rw [hstage] at hs
    cases hs
  case unspawned => exact fun hrank => hk.unspawned hrank
  case unforked => exact fun h => by cases h
  case alone =>
    intro m hm _
    obtain rfl := Option.some.inj hm
    exact halone
  case confined =>
    intro m _ _ hpre
    rw [Session.stage] at hstage
    simp [Session.preExec, Session.stage, hstage] at hpre
  case owns =>
    intro m hm _
    obtain rfl := Option.some.inj hm
    exact howns
  case holds =>
    intro m hm _
    obtain rfl := Option.some.inj hm
    exact hholds

theorem keeps_setsid {n : Nat} (hk : Keeps t i c) (hpre : c.preExec = true) (hpid : c.pid = some n)
    (hst : t.step (.setsid n) = some t') : Keeps t' i { c with leads := true } := by
  have hheld := hk.held_of_preExec hpre
  have hholds := hk.holds n hpid hheld
  have hnot : ({ c with leads := true } : Session Code).preExec = false := by
    simp [Session.preExec]
  constructor
  case early => exact hk.early
  case unspawned => exact hk.unspawned
  case unforked =>
    intro h
    rw [show c.pid = none from h] at hpid
    cases hpid
  case alone =>
    intro m _ h
    rw [hnot] at h
    cases h
  case confined => exact fun m _ _ _ => Table.confined_setsid hst (hk.alone n hpid hpre)
  case owns =>
    intro m hm _
    obtain rfl := Option.some.inj (hpid.symm.trans hm)
    exact (hk.owns n hpid (answers_of_held hheld)).step hst hholds.not_founds (by simp)
  case holds =>
    intro m hm _
    obtain rfl := Option.some.inj (hpid.symm.trans hm)
    exact hholds.step hst (by simp)

/-- The kernel lets the other processes touch no request in whose hands a child is. -/
theorem spares_of_permits {s : State Code} (hp : s.shared.permits s.procs call = true)
    (hno : ¬ TakesOver s (.env (.call call))) {c : Session Code} (hc : s.procs[i]? = some c) :
    Spares s.shared.table call i c := by
  obtain ⟨hcall, hall⟩ := Bool.and_eq_true_iff.mp hp
  have hprotects : c.protects call = false := by
    simpa using List.all_eq_true.mp hall c (List.mem_of_getElem? hc)
  constructor
  case label =>
    rintro parent child rfl
    cases hcall
  case reap =>
    rintro n hpid hheld rfl
    simp [Session.protects, hpid, hheld] at hprotects
  case preExec =>
    intro n hpid hpre
    constructor
    · rintro child label rfl
      simp [Session.protects, hpid, hpre] at hprotects
    · rintro rfl
      simp [Session.protects, hpid, hpre] at hprotects
  case founds =>
    intro n hpid hsweep hfounds
    exact hno ⟨i, c, n, call, hc, hpid, hsweep, rfl, hfounds⟩

theorem gateway_not_reaped {h : Host} (hp : h.permits sessions call = true) :
    call ≠ .reap h.gateway := by
  rintro rfl
  simp [Host.permits] at hp

theorem inv_session {s : State Code} {h' : Host} {c c' : Session Code} {b : SessionAction Code}
    (hinv : Inv s) (hc : s.procs[i]? = some c) (hno : ¬ TakesOver s (.act i b))
    (hact : sessionStep limits codes s.shared i c b = some (h', c')) :
    Inv { shared := h', procs := s.procs.set i c' } := by
  have hk := hinv.accounts.keeps i c hc
  cases sessionStep_inv hact with
  | @fork n t hstage hpid ht =>
      refine ⟨hinv.accounts.step_own ht hc (by simp) (by simp [eq_comm]) ?_
        (keeps_fork hk hstage hpid hinv.accounts.gateway ht), hinv.delivered⟩
      intro j d hne hd
      have hkd := hinv.accounts.keeps j d hd
      constructor
      case label => simp [Ne.symm hne]
      case reap => simp
      case preExec =>
        intro m hm hpre
        have hholds := hkd.holds m hm (hkd.held_of_preExec hpre)
        exact ⟨by simp [Ne.symm (hinv.accounts.gateway_ne hholds)], by simp⟩
      case founds => simp [Table.Founds]
  | @setsid n t hpre hpid ht =>
      refine ⟨hinv.accounts.step_own ht hc (by simp) (by simp) ?_ (keeps_setsid hk hpre hpid ht),
        hinv.delivered⟩
      intro j d hne hd
      constructor
      case label => simp
      case reap => simp
      case preExec => simp
      case founds =>
        intro m hm hsweep hfounds
        exact hno ⟨j, d, m, .setsid n, hd, hm, hsweep, by simp [callOf, hc, hpid], hfounds⟩
  | @request a app r' h' hready hreq heff =>
      have hstep := (Server.act_inv hreq).2
      -- where `main` is does not matter to the table
      have hinv' : Inv { s with shared := { s.shared with app := app } } :=
        ⟨hinv.accounts, hinv.delivered⟩
      exact hinv'.effect hc (keeps_request hk hready hstep) (effect_inv hk hstep heff)

theorem inv_step {s s' : State Code} {e : Action Code}
    (h : (machine limits codes).step s e = some s') (hno : ¬ TakesOver s e) (hinv : Inv s) :
    Inv s' := by
  cases e with
  | spawn c =>
      obtain ⟨hfresh, rfl⟩ := Pool.step_spawn.mp h
      obtain ⟨hnew, hpid⟩ := Bool.and_eq_true_iff.mp hfresh
      refine ⟨⟨hinv.accounts.gateway, ?_, ?_⟩, hinv.delivered⟩
      · intro i d hd
        rcases Pool.getElem?_append_cases hd with ⟨rfl, rfl⟩ | hd
        · exact keeps_new hnew (by simpa using hpid) (hinv.accounts.absent _ (Nat.le_refl _))
        · exact hinv.accounts.keeps i d hd
      · intro i hi
        apply hinv.accounts.absent i
        simp only [List.length_append, List.length_singleton] at hi
        omega
  | act i b =>
      obtain ⟨c, h', c', hc, hact, rfl⟩ := Pool.step_act.mp h
      exact inv_session hinv hc hno hact
  | env e =>
      obtain ⟨h', henv, rfl⟩ := Pool.step_env.mp h
      cases e with
      | call call =>
          obtain ⟨hp, henv⟩ := Option.ite_none_right_eq_some.mp henv
          obtain ⟨t, ht, rfl⟩ := call_inv henv
          refine ⟨hinv.accounts.step ht (gateway_not_reaped hp) ?_ ?_, hinv.delivered⟩
          · rintro parent child k rfl
            cases (Bool.and_eq_true_iff.mp hp).1
          · exact fun j d hd => spares_of_permits hp hno hd
      | gateway e =>
          obtain ⟨app, -, rfl⟩ := Option.map_eq_some_iff.mp henv
          exact ⟨hinv.accounts, hinv.delivered⟩

/-! ## Runs -/

theorem inv_init (boot : Boot) : Inv (init limits boot : State Code) where
  accounts := {
    gateway := by
      obtain ⟨p, hp, hpid⟩ := List.mem_map.mp boot.gateway_mem
      exact ⟨p, hp, hpid, boot.origin_none p hp⟩
    keeps := fun i c hc => by cases hc
    absent := by
      intro i _ p hp horigin
      rw [boot.origin_none p hp] at horigin
      cases horigin }
  delivered := fun d hd => by cases hd

/-- Whom the signals reach. In a run in which no process takes over the number of a
reaped child before the last signal to it, every `killpg` of a shutdown reaches
nothing but descendants of the child of its own request. -/
theorem signals_own_group {s : State Code} {as : List (Action Code)} {boot : Boot}
    (hrun : (machine limits codes).run (init limits boot) as = some s)
    (h : Machine.Along (fun s e => ¬ TakesOver s e) (machine limits codes) (init limits boot) as) :
    ∀ d ∈ s.shared.delivered, d.process.origin = some d.sender :=
  (Machine.run_invariant_along (I := Inv) (fun _ _ _ hst hno hinv => inv_step hst hno hinv)
    hrun h (inv_init boot)).delivered

/-- A host with `init` and the gateway, which is process 7. -/
def smallBoot : Boot where
  table := {
    procs := [{ pid := 1, pgid := 1, sid := 0, origin := none, zombie := false },
      { pid := 7, pgid := 7, sid := 1, origin := none, zombie := false }]
    sessions := 2
    nodup := by decide
    sid_lt := by decide }
  gateway := 7
  gateway_mem := by decide
  origin_none := by decide

def twoSessions : Gate.Limits := { maxSessions := 2, maxQueue := 2, maxQueue_lt := by decide }

/-- Request `i` comes in and is admitted. -/
def admitted (i : Nat) : List (Action UInt16) :=
  [.spawn { request := .new true (.ok ()), pid := none, leads := false },
    .act i (.request .check), .act i (.request .check), .act i (.request .check),
    .act i (.request .check), .act i (.request (.gate .start)),
    .act i (.request (.gate .tryAcquire)), .act i (.request .resume)]

/-- Its child is forked with this number. -/
def launched (i n : Nat) : List (Action UInt16) :=
  [.act i (.fork n), .act i .setsid, .act i (.request .spawn)]

/-- The Chromium of request 0 exits during its startup and is reaped. Its number goes
to the child of request 1 before the shutdown of request 0 sends its last SIGKILL. -/
def reusedRun : List (Action UInt16) :=
  [.env (.gateway .browserReady)] ++ admitted 0 ++ launched 0 100 ++
    [.act 0 (.request .exits), .act 0 (.request (.startup (.tryWait "exit status: 1"))),
      .act 0 (.request .resume), .act 0 (.request (.shutdown .tryWait))] ++
    admitted 1 ++ launched 1 100 ++ [.act 0 (.request (.shutdown .sweep))]

/-- The browser of request 1 is killed by the shutdown of request 0. -/
theorem misdelivered_reusedRun :
    ¬ ∀ (limits : Gate.Limits) (codes : Proxy.CloseCodes UInt16) (boot : Boot)
      (s : State UInt16) (as : List (Action UInt16)),
      (machine limits codes).run (init limits boot) as = some s →
      ∀ d ∈ s.shared.delivered, d.process.origin = some d.sender := by
  intro h
  have hrun : ∃ s : State UInt16,
      (machine twoSessions Proxy.plainCodes).run (init twoSessions smallBoot) reusedRun = some s ∧
      s.shared.delivered =
        [{ sender := 0, signal := .sigkill,
           process := { pid := 100, pgid := 100, sid := 3, origin := some 1, zombie := false } }] :=
    ⟨_, rfl, rfl⟩
  obtain ⟨s, hs, hd⟩ := hrun
  have hown := h twoSessions Proxy.plainCodes smallBoot s reusedRun hs _ (by rw [hd]; exact List.mem_cons_self)
  cases hown

/-- A session from its launch to its end, with its Chromium exiting on SIGTERM and a
process of it that does not; meanwhile another session is launched. -/
def stragglerRun : List (Action UInt16) :=
  [.env (.gateway .browserReady)] ++ admitted 0 ++ launched 0 100 ++
    [.env (.call (.fork 100 101 none)), .act 0 (.request (.startup (.tryWait ""))),
      .act 0 (.request (.startup (.readPort true))), .act 0 (.request .resume),
      .act 0 (.request .connect), .act 0 (.request (.upgrade 1 1)),
      .act 0 (.request (.relay (.client .ends))), .act 0 (.request (.relay .pollClient)),
      .act 0 (.request (.relay .sendElapses)), .act 0 (.request .resume),
      .act 0 (.request (.shutdown .tryWait)), .act 0 (.request .exits),
      .act 0 (.request (.shutdown .reaped))] ++
    admitted 1 ++ launched 1 102 ++ [.act 0 (.request (.shutdown .sweep))]

theorem signals_own_group_stragglerRun :
    ∃ s : State UInt16,
      (machine twoSessions Proxy.plainCodes).run (init twoSessions smallBoot) stragglerRun = some s ∧
      s.shared.delivered.length = 3 ∧
      ∀ d ∈ s.shared.delivered, d.process.origin = some d.sender := by
  have hrun : ∃ s : State UInt16,
      (machine twoSessions Proxy.plainCodes).run (init twoSessions smallBoot) stragglerRun = some s ∧
      s.shared.delivered.length = 3 := ⟨_, rfl, rfl⟩
  obtain ⟨s, hs, hlen⟩ := hrun
  exact ⟨s, hs, hlen, signals_own_group hs (by decide)⟩

end Pinokio.Signals
