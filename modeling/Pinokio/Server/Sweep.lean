/-
# Pinokio.Server.Sweep -- what a shutdown leaves of the group of its child

The last SIGKILL of a shutdown asks nothing: it goes out once the child is reaped, and
whatever is in the group by then is reached (`sweep_inv`). So a Chromium whose shutdown ran
to its end had a moment at which its whole group was killed, its leader already reaped,
and after it no signal was sent to that group (`group_swept`). What has left the group by
then, or gets into it later, is not reached.
-/
import Pinokio.Server.Signals

namespace Pinokio.Signals

open Server
open Processes (Proc Table)

variable {Code : Type} {limits : Gate.Limits} {codes : Proxy.CloseCodes Code} {boot : Boot}
  {i : Nat}

/-! ## The steps of a shutdown -/

/-- The shutdown that a request is in. -/
def shutdownOf : Phase Code → Option Shutdown
  | .aborting shutdown _ | .closing shutdown _ | .detached shutdown => some shutdown
  | _ => none

/-- The last SIGKILL of its shutdown was sent. -/
def Swept (r : Request Code) : Prop :=
  ∃ p, r.chromium = some p ∧ (shutdownOf r.phase = some .removeDir ∨ p.teardowns ≠ 0)

/-- A shutdown comes to its sweep with the child reaped, and past it by the sweep alone. -/
theorem shutdownStep_sweeps {p p' : Chromium} {shutdown shutdown' : Shutdown}
    {a : ShutdownAction} (h : shutdownStep p shutdown a = some (p', shutdown')) :
    (shutdown' = .sweep → p'.child = .reaped) ∧
      (shutdown' = .removeDir ∨ p'.teardowns ≠ 0 →
        (shutdown = .removeDir ∨ p.teardowns ≠ 0) ∨ (shutdown = .sweep ∧ a = .sweep)) := by
  unfold shutdownStep at h
  split at h
  next =>
    split at h
    · obtain ⟨rfl, rfl⟩ := Prod.mk.inj (Option.some.inj h)
      exact ⟨nofun, fun hs => Or.inl (Or.inr (hs.resolve_left nofun))⟩
    · split at h
      · obtain ⟨rfl, rfl⟩ := Prod.mk.inj (Option.some.inj h)
        exact ⟨nofun, fun hs => Or.inl (Or.inr (hs.resolve_left nofun))⟩
      · obtain ⟨rfl, rfl⟩ := Prod.mk.inj (Option.some.inj h)
        exact ⟨fun _ => rfl, fun hs => Or.inl (Or.inr (hs.resolve_left nofun))⟩
  next =>
    obtain ⟨-, h⟩ := Option.ite_none_left_eq_some.mp h
    obtain ⟨rfl, rfl⟩ := Prod.mk.inj (Option.some.inj h)
    exact ⟨fun _ => rfl, fun hs => Or.inl (Or.inr (hs.resolve_left nofun))⟩
  next =>
    obtain ⟨rfl, rfl⟩ := Prod.mk.inj (Option.some.inj h)
    exact ⟨nofun, fun hs => Or.inl (Or.inr (hs.resolve_left nofun))⟩
  next =>
    obtain ⟨-, h⟩ := Option.ite_none_left_eq_some.mp h
    obtain ⟨rfl, rfl⟩ := Prod.mk.inj (Option.some.inj h)
    exact ⟨fun _ => rfl, fun hs => Or.inl (Or.inr (hs.resolve_left nofun))⟩
  next =>
    obtain ⟨rfl, rfl⟩ := Prod.mk.inj (Option.some.inj h)
    exact ⟨nofun, fun _ => Or.inr ⟨rfl, rfl⟩⟩
  next =>
    obtain ⟨rfl, rfl⟩ := Prod.mk.inj (Option.some.inj h)
    exact ⟨nofun, fun _ => Or.inl (Or.inl rfl)⟩
  next => cases h

theorem startupStep_teardowns {elapsed : Bool} {p p' : Chromium} {startup startup' : Startup}
    {a : StartupAction} (h : startupStep elapsed p startup a = some (p', startup')) :
    p'.teardowns = p.teardowns := by
  rcases startupStep_chromium h with rfl | ⟨-, rfl⟩
  · rfl
  · rfl

section Request

variable {app app' : AppState} {r r' : Request Code} {a : RequestAction Code}

/-- A request comes past the sweep by the sweep alone. -/
theorem swept_step (h : RequestStep limits codes app i r a app' r') (hs : Swept r') :
    Swept r ∨ (a = .shutdown .sweep ∧ shutdownOf r.phase = some .sweep) := by
  obtain ⟨q, hq, hs⟩ := hs
  -- a shutdown in any of its three places
  have hshutdown : ∀ {p p' : Chromium} {shutdown shutdown' : Shutdown} {b : ShutdownAction},
      a = .shutdown b → shutdownOf r.phase = some shutdown → r.chromium = some p →
      shutdownStep p shutdown b = some (p', shutdown') →
      some shutdown' = some .removeDir ∨ p'.teardowns ≠ 0 →
      Swept r ∨ (a = .shutdown .sweep ∧ shutdownOf r.phase = some .sweep) := by
    intro p p' shutdown shutdown' b ha hp hc hstep hs
    rcases (shutdownStep_sweeps hstep).2 (hs.imp_left Option.some.inj) with (rfl | hne) | ⟨rfl, rfl⟩
    · exact Or.inl ⟨p, hc, Or.inl hp⟩
    · exact Or.inl ⟨p, hc, Or.inr hne⟩
    · exact Or.inr ⟨ha, hp⟩
  cases h with
  | abort b shutdown error p p' shutdown' hp hc h =>
      obtain rfl := Option.some.inj hq
      exact hshutdown rfl (by rw [hp]; rfl) hc h hs
  | close b shutdown reason p p' shutdown' hp hc h =>
      obtain rfl := Option.some.inj hq
      exact hshutdown rfl (by rw [hp]; rfl) hc h hs
  | detach b shutdown p p' shutdown' hp hc h =>
      obtain rfl := Option.some.inj hq
      exact hshutdown rfl (by rw [hp]; rfl) hc h hs
  | spawn hp =>
      obtain rfl := Option.some.inj hq
      rcases hs with hs | hs
      · cases hs
      · exact absurd rfl hs
  | startup b startup elapsed p p' startup' hp hc h =>
      obtain rfl := Option.some.inj hq
      rcases hs with hs | hs
      · cases hs
      · exact Or.inl ⟨p, hc, Or.inr (startupStep_teardowns h ▸ hs)⟩
  | upgradeFails hp | dropSuspended hp =>
      obtain ⟨p, hc, rfl⟩ := Option.map_eq_some_iff.mp hq
      rcases hs with hs | hs
      · cases hs
      · exact Or.inl ⟨p, hc, Or.inr hs⟩
  | exits p p' hc h =>
      obtain rfl := Option.some.inj hq
      obtain ⟨-, h⟩ := Option.ite_none_right_eq_some.mp h
      obtain rfl := Option.some.inj h
      exact Or.inl ⟨p, hc, hs⟩
  | gate | releaseDetached => exact Or.inl ⟨q, hq, hs⟩
  | _ =>
      rcases hs with hs | hs
      · cases hs
      · exact Or.inl ⟨q, hq, Or.inr hs⟩

/-- At its sweep a shutdown has reaped the child. -/
theorem reaped_step (h : RequestStep limits codes app i r a app' r')
    (hr : shutdownOf r.phase = some .sweep → ∃ p, r.chromium = some p ∧ p.child = .reaped) :
    shutdownOf r'.phase = some .sweep → ∃ p, r'.chromium = some p ∧ p.child = .reaped := by
  intro hs
  cases h with
  | abort b shutdown error p p' shutdown' hp hc h | close b shutdown error p p' shutdown' hp hc h
  | detach b shutdown p p' shutdown' hp hc h =>
      exact ⟨p', rfl, (shutdownStep_sweeps h).1 (Option.some.inj hs)⟩
  | exits p p' hc h =>
      obtain ⟨q, hq, hreaped⟩ := hr hs
      obtain rfl := Option.some.inj (hc.symm.trans hq)
      obtain ⟨hrun, -⟩ := Option.ite_none_right_eq_some.mp h
      rw [hreaped] at hrun
      cases hrun
  | gate | releaseDetached => exact hr hs
  | _ => cases hs

/-- Past its sweep a request signals nothing. -/
theorem quiet_step (h : RequestStep limits codes app i r a app' r')
    (hfinished : stageOf r.phase = .finished) {p : Chromium} (hp : r.chromium = some p) :
    ∃ p', r'.chromium = some p' ∧ p'.groupSignals = p.groupSignals := by
  rcases chromium_moves h with hsame | ⟨-, hlaunching, -⟩ | ⟨q, q', hq, hq', hm⟩
  · exact ⟨p, hsame.trans hp, rfl⟩
  · rw [hfinished] at hlaunching
    cases hlaunching
  · obtain rfl := Option.some.inj (hq.symm.trans hp)
    refine ⟨q', hq', ?_⟩
    cases hm with
    | still _ hs | reaps _ _ _ hs | exits _ _ hs => exact hs
    | killpg _ hstage =>
        rw [hfinished] at hstage
        cases hstage

theorem finished_step (h : RequestStep limits codes app i r a app' r')
    (hfinished : stageOf r.phase = .finished) : stageOf r'.phase = .finished := by
  have hrank := stage_rank_le h
  rw [hfinished] at hrank
  cases hs : stageOf r'.phase with
  | finished => rfl
  | _ =>
      rw [hs] at hrank
      exact absurd hrank (by decide)

end Request

/-! ## The sweep -/

/-- All that goes by the group `n` was sent SIGKILL by request `i`. -/
def Reaches (i n : Nat) (h : Host) : Prop :=
  ∀ q ∈ h.table.group n, { sender := i, signal := .sigkill, process := q } ∈ h.delivered

/-- The last SIGKILL asks nothing: whatever is in the group by then is reached. -/
theorem sweep_inv {h h' : Host} {n : Nat} {c c' : Session Code}
    (hact : SessionStep limits codes h i c (.request (.shutdown .sweep)) h' c')
    (hpid : c.pid = some n) (hs : shutdownOf c.request.phase = some .sweep) :
    Reaches i n h' ∧ ∃ p, c.request.chromium = some p ∧
      c'.request.chromium = some (p.killpg .sigkill) ∧
      shutdownOf c'.request.phase = some .removeDir := by
  cases hact with
  | @request _ app r' _ hready hreq heff =>
      have hkill : ∃ p, c.request.chromium = some p ∧
          r'.chromium = some (p.killpg .sigkill) ∧ shutdownOf r'.phase = some .removeDir := by
        cases (Server.act_inv hreq).2 with
        | abort _ shutdown _ p p' _ hp hc hsweep | close _ shutdown _ p p' _ hp hc hsweep
        | detach _ shutdown p p' _ hp hc hsweep =>
            rw [hp] at hs
            obtain rfl := Option.some.inj hs
            obtain ⟨rfl, rfl⟩ := Prod.mk.inj (Option.some.inj hsweep)
            exact ⟨p, hc, rfl, rfl⟩
      obtain ⟨p, hp, hp', hphase⟩ := hkill
      refine ⟨?_, p, hp, hp', hphase⟩
      have hfollow : Host.follow { h with app := app } i n p (p.killpg .sigkill) = some h' := by
        simpa only [Host.effect, Host.track, hpid, hp, hp'] using heff
      obtain ⟨h₁, hcall, rfl⟩ := Option.map_eq_some_iff.mp hfollow
      rw [if_pos (show (p.killpg .sigkill).child = p.child from rfl)] at hcall
      obtain rfl := Option.some.inj hcall
      intro q hq
      have hq' : q ∈ h.table.group n := hq
      simpa [Host.killpg, Chromium.killpg] using Or.inr hq'

/-! ## Runs -/

/-- The run has come past a state in which the child of request `i`, with number `n`, was reaped
and all of its group killed, and in which these signals had been sent to it. -/
def SweptIn (limits : Gate.Limits) (codes : Proxy.CloseCodes Code) (boot : Boot) (i n : Nat)
    (signals : List Signal) (as : List (Action Code)) : Prop :=
  ∃ bs cs t c p, as = bs ++ cs ∧
    (machine limits codes).run (init limits boot) bs = some t ∧ t.procs[i]? = some c ∧
    c.request.chromium = some p ∧ p.child = .reaped ∧ p.groupSignals = signals ∧
    Reaches i n t.shared

theorem SweptIn.append {n : Nat} {signals : List Signal} {as : List (Action Code)}
    (h : SweptIn limits codes boot i n signals as) (es : List (Action Code)) :
    SweptIn limits codes boot i n signals (as ++ es) := by
  obtain ⟨bs, cs, t, c, p, rfl, hrun, hc, hp, hreaped, hsignals, hreaches⟩ := h
  exact ⟨bs, cs ++ es, t, c, p, by rw [List.append_assoc], hrun, hc, hp, hreaped, hsignals,
    hreaches⟩

/-- What a run has of the teardown of one request. -/
structure Teardown (limits : Gate.Limits) (codes : Proxy.CloseCodes Code) (boot : Boot) (i : Nat)
    (as : List (Action Code)) (c : Session Code) : Prop where
  pid : c.request.chromium.isSome = true → c.pid.isSome = true
  reaped : shutdownOf c.request.phase = some .sweep →
    ∃ p, c.request.chromium = some p ∧ p.child = .reaped
  finished : Swept c.request → stageOf c.request.phase = .finished
  swept : Swept c.request → ∃ n p, c.pid = some n ∧ c.request.chromium = some p ∧
    SweptIn limits codes boot i n p.groupSignals as

theorem Teardown.append {as : List (Action Code)} {c : Session Code}
    (h : Teardown limits codes boot i as c) (es : List (Action Code)) :
    Teardown limits codes boot i (as ++ es) c where
  pid := h.pid
  reaped := h.reaped
  finished := h.finished
  swept hs := by
    obtain ⟨n, p, hpid, hp, hswept⟩ := h.swept hs
    exact ⟨n, p, hpid, hp, hswept.append es⟩

theorem teardown_new {as : List (Action Code)} {c : Session Code}
    (h : (program limits codes).fresh c = true) : Teardown limits codes boot i as c := by
  have hnew : c.request.isNew = true := (Bool.and_eq_true_iff.mp h).1
  have hnone := isNew_chromium hnew
  have hno : ¬ Swept c.request := by
    rintro ⟨p, hp, -⟩
    rw [hnone] at hp
    cases hp
  refine ⟨fun hsome => ?_, fun hs => ?_, fun hs => absurd hs hno, fun hs => absurd hs hno⟩
  · rw [hnone] at hsome
    cases hsome
  · rw [isNew_phase hnew] at hs
    cases hs

/-- Its own steps keep it. -/
theorem teardown_step {as : List (Action Code)} {s s' : State Code} {c c' : Session Code}
    {b : SessionAction Code}
    (hrun : (machine limits codes).run (init limits boot) (as ++ [.act i b]) = some s')
    (hc' : s'.procs[i]? = some c') (h : SessionStep limits codes s.shared i c b s'.shared c')
    (hk : Teardown limits codes boot i as c) :
    Teardown limits codes boot i (as ++ [.act i b]) c' := by
  generalize hshared : s'.shared = h' at h
  cases b with
  | fork n =>
      cases h with
      | fork hstage hpid ht =>
          refine ⟨fun _ => rfl, hk.reaped, hk.finished, fun hs => ?_⟩
          obtain ⟨m, p, hm, -⟩ := hk.swept hs
          rw [hpid] at hm
          cases hm
  | setsid =>
      cases h with
      | setsid hpre hpid ht =>
          obtain ⟨hpid, hreaped, hfinished, hswept⟩ := hk.append [.act i .setsid]
          exact ⟨hpid, hreaped, hfinished, hswept⟩
  | request a =>
      have hsession := h
      cases h with
      | @request _ app r' _ hready hreq heff =>
          have hstep := (Server.act_inv hreq).2
          have hpid' : r'.chromium.isSome = true → c.pid.isSome = true := by
            intro hsome
            rcases chromium_moves hstep with hsame | ⟨rfl, -⟩ | ⟨p, -, hp, -⟩
            · exact hk.pid (hsame ▸ hsome)
            · exact Option.isSome_of_any hready
            · exact hk.pid (by rw [hp]; rfl)
          have hnow : Swept r' → stageOf r'.phase = .finished ∧ ∃ n p, c.pid = some n ∧
              r'.chromium = some p ∧
              SweptIn limits codes boot i n p.groupSignals (as ++ [.act i (.request a)]) := by
            intro hs
            rcases swept_step hstep hs with hbefore | ⟨rfl, hsweep⟩
            · obtain ⟨n, p, hn, hp, hswept⟩ := hk.swept hbefore
              have hfinished := hk.finished hbefore
              obtain ⟨p', hp', hsignals⟩ := quiet_step hstep hfinished hp
              exact ⟨finished_step hstep hfinished, n, p', hn, hp', hsignals ▸ hswept.append _⟩
            -- this is the moment
            · obtain ⟨p, hp, hreaped⟩ := hk.reaped hsweep
              obtain ⟨n, hn⟩ := Option.isSome_iff_exists.mp (hk.pid (by rw [hp]; rfl))
              obtain ⟨hreaches, q, hq, hq', hphase⟩ := sweep_inv hsession hn hsweep
              obtain rfl := Option.some.inj (hq.symm.trans hp)
              have hfinished : stageOf r'.phase = .finished := by
                cases hr : r'.phase <;> rw [hr] at hphase <;> cases hphase <;> rfl
              exact ⟨hfinished, n, _, hn, hq', _, [], s', _, _, (List.append_nil _).symm, hrun, hc',
                hq', hreaped, rfl, hshared ▸ hreaches⟩
          exact ⟨hpid', reaped_step hstep hk.reaped, fun hs => (hnow hs).1, fun hs => (hnow hs).2⟩

theorem teardown_run {as : List (Action Code)} {s : State Code}
    (hrun : (machine limits codes).run (init limits boot) as = some s) (i : Nat) :
    ∀ c, s.procs[i]? = some c → Teardown limits codes boot i as c := by
  have hI := Machine.run_history (I := fun as s =>
    (machine limits codes).run (init limits boot) as = some s ∧
      ∀ c, s.procs[i]? = some c → Teardown limits codes boot i as c)
    ?_ hrun ⟨rfl, fun c hc => by cases hc⟩
  · exact hI.2
  · rintro as s e s' hst ⟨hs, hk⟩
    have hs' : (machine limits codes).run (init limits boot) (as ++ [e]) = some s' :=
      (Machine.run_concat_iff _).mpr ⟨s, hs, hst⟩
    refine ⟨hs', fun c' hc' => ?_⟩
    rcases Pool.step_proc hst hc' with ⟨-, hfresh⟩ | ⟨b, c, rfl, hc, hact⟩ | ⟨hsame, -⟩
    · exact teardown_new hfresh
    · exact teardown_step hs' hc' (sessionStep_inv hact) (hk c hc)
    · exact (hk c' hsame).append [e]

/-- What a shutdown leaves. In any run, a Chromium whose shutdown ran to its end had a moment
at which its child was reaped and everything in the group of its child had been sent
SIGKILL; no signal of it came after that. If no process had taken over the number of a reaped
child, all of these processes descended from its child. -/
theorem group_swept {s : State Code} {as : List (Action Code)} {c : Session Code} {p : Chromium}
    (hrun : (machine limits codes).run (init limits boot) as = some s)
    (hc : s.procs[i]? = some c) (hp : c.request.chromium = some p) (hdone : p.teardowns ≠ 0) :
    ∃ n bs cs t d q, c.pid = some n ∧ as = bs ++ cs ∧
      (machine limits codes).run (init limits boot) bs = some t ∧ t.procs[i]? = some d ∧
      d.request.chromium = some q ∧ q.child = .reaped ∧ q.groupSignals = p.groupSignals ∧
      Reaches i n t.shared ∧
      (Machine.Along (fun s e => ¬ TakesOver s e) (machine limits codes) (init limits boot) as →
        ∀ x ∈ t.shared.table.group n, x.origin = some i) := by
  obtain ⟨n, p', hpid, hp', bs, cs, t, d, q, rfl, ht, hd, hq, hreaped, hsignals, hreaches⟩ :=
    (teardown_run hrun i c hc).swept ⟨p, hp, Or.inr hdone⟩
  obtain rfl := Option.some.inj (hp.symm.trans hp')
  refine ⟨n, bs, cs, t, d, q, hpid, rfl, ht, hd, hq, hreaped, hsignals, hreaches,
    fun hno x hx => ?_⟩
  have hinv : Inv t := Machine.run_invariant_along (I := Inv)
    (fun _ _ _ hst hn hI => inv_step hst hn hI) ht ((Machine.along_append ht).mp hno).1
    (inv_init boot)
  exact hinv.delivered _ (hreaches x hx)

/-- The process that does not end on SIGTERM is killed with the rest. -/
theorem group_swept_stragglerRun :
    ∃ (s t : State UInt16) (bs : List (Action UInt16)),
      (machine twoSessions Proxy.plainCodes).run (init twoSessions smallBoot)
        (stragglerRun ++ [.act 0 (.request (.shutdown .removeDir))]) = some s ∧
      (machine twoSessions Proxy.plainCodes).run (init twoSessions smallBoot) bs = some t ∧
      Reaches 0 100 t.shared := by
  have hrun : ∃ (s : State UInt16) (c : Session UInt16) (p : Chromium),
      (machine twoSessions Proxy.plainCodes).run (init twoSessions smallBoot)
        (stragglerRun ++ [.act 0 (.request (.shutdown .removeDir))]) = some s ∧
      s.procs[0]? = some c ∧ c.pid = some 100 ∧ c.request.chromium = some p ∧ p.teardowns = 1 :=
    ⟨_, _, _, rfl, rfl, rfl, rfl, rfl⟩
  obtain ⟨s, c, p, hs, hc, hpid, hp, hdone⟩ := hrun
  obtain ⟨n, bs, cs, t, d, q, hn, -, ht, -, -, -, -, hreaches, -⟩ :=
    group_swept hs hc hp (by rw [hdone]; decide)
  obtain rfl := Option.some.inj (hn.symm.trans hpid)
  exact ⟨s, t, bs, hs, ht, hreaches⟩

end Pinokio.Signals
