/-
# Pinokio.Server.Children -- the children of the gateway in the process table

`process_cap` counts what the requests know of their Chromiums. `children_capped` says it of
the kernel's table: the children that are not reaped are processes of that table from their
fork on, each with a number of its own, and there are never more than `max_sessions` of them,
where no Chromium was severed from its request and no number of a reaped child taken over.
-/
import Pinokio.Server.Cap
import Pinokio.Server.Signals

namespace Pinokio.Signals

open Server
open Processes (Call Proc Table)

variable {Code : Type} {limits : Gate.Limits} {codes : Proxy.CloseCodes Code}
  {s s' : State Code} {as : List (Action Code)} {boot : Boot}

/-- The numbers of the children that are forked and not reaped, and that a request has in
its hands. -/
def children (s : State Code) : List Nat :=
  s.procs.filterMap fun c => if c.held then c.pid else none

theorem mem_children {n : Nat} :
    n ∈ children s ↔ ∃ (i : Nat) (c : Session Code), s.procs[i]? = some c ∧ c.held = true ∧
      c.pid = some n := by
  rw [children, List.mem_filterMap]
  constructor
  · rintro ⟨c, hc, h⟩
    obtain ⟨i, hi⟩ := List.getElem?_of_mem hc
    obtain ⟨hheld, hpid⟩ := Option.ite_none_right_eq_some.mp h
    exact ⟨i, c, hi, hheld, hpid⟩
  · rintro ⟨i, c, hc, hheld, hpid⟩
    exact ⟨c, List.mem_of_getElem? hc, Option.ite_none_right_eq_some.mpr ⟨hheld, hpid⟩⟩

/-! ## Numbers -/

/-- Each number that is held is held by one request. -/
theorem children_nodup (hinv : Inv s) : (children s).Nodup := by
  refine List.pairwise_filterMap.mpr (List.pairwise_iff_getElem.mpr ?_)
  intro i j hi hj hlt n hn m hm
  obtain ⟨hheld, hpid⟩ := Option.ite_none_right_eq_some.mp hn
  obtain ⟨hheld', hpid'⟩ := Option.ite_none_right_eq_some.mp hm
  have hholds := (hinv.accounts.keeps i _ (List.getElem?_eq_getElem hi)).holds n hpid hheld
  exact (hinv.accounts.number_unique hholds (List.getElem?_eq_getElem hj) (Nat.ne_of_gt hlt)
    hpid' hheld').symm

/-- A Chromium has a child with a number. -/
def Launched (s : State Code) : Prop :=
  ∀ (i : Nat) (c : Session Code), s.procs[i]? = some c → c.request.chromium.isSome = true →
    c.pid.isSome = true

theorem launched_step {e : Action Code} (h : (machine limits codes).step s e = some s')
    (hl : Launched s) : Launched s' := by
  intro i
  apply Pool.step_forall h _ _ (hl i)
  · intro c hfresh hsome
    rw [isNew_chromium (Bool.and_eq_true_iff.mp hfresh).1] at hsome
    cases hsome
  · intro b c c' _ hact hc hold hsome
    generalize s'.shared = h' at hact
    cases sessionStep_inv hact with
    | fork hstage hpid ht => rfl
    | setsid hpre hpid ht => exact hold hsome
    | @request a app r' h' hready hreq heff =>
        show c.pid.isSome = true
        rcases chromium_moves (Server.act_inv hreq).2 with hsame | ⟨rfl, -⟩ | ⟨p, p', hp, -, -⟩
        · exact hold (hsame ▸ hsome)
        · -- `spawn` does not return before there is a child
          cases hpid : c.pid with
          | none => simp [Session.ready, hpid] at hready
          | some n => rfl
        · exact hold (by simp [hp])

theorem launched_run (hrun : (machine limits codes).run (init limits boot) as = some s) :
    Launched s :=
  Machine.run_invariant (I := Launched) (fun _ _ _ hst hl => launched_step hst hl) hrun
    fun _ _ hc => by cases hc

/-! ## Permits -/

theorem getElem?_gatewayOf {i : Nat} {c : Session Code} (hc : s.procs[i]? = some c) :
    (gatewayOf s).procs[i]? = some c.request := by
  simp [gatewayOf, Pool.State.map, hc]

/-- Who launches a child or may still signal it has been admitted. -/
theorem admitted_of_answers {c : Session Code} (h : c.answers = true)
    (hd : c.request.phase.isDetached = false) : c.request.phase.admitted = true := by
  cases hp : c.request.phase with
  | detached shutdown =>
      rw [hp] at hd
      cases hd
  | launching | starting | aborting | connecting | upgrading | relaying | closing | releasing => rfl
  | _ => simp [Session.answers, Session.stage, hp, stageOf] at h

theorem signals_of_unreaped {p : Chromium} {shutdown : Shutdown} (hk : ShutdownKeeps p shutdown)
    (hne : p.child ≠ .reaped) : shutdown.signals = true := by
  cases shutdown with
  | removeDir => exact absurd hk.2.1 hne
  | finished => exact absurd (tornDown_inv hk).1 hne
  | _ => rfl

/-- A request that still answers for its Chromium has the child in its hands until that is
reaped. -/
theorem held_of_unreaped {c : Session Code} {p : Chromium}
    (hk : c.request.phase.Keeps c.request.chromium) (hp : c.request.chromium = some p)
    (hne : p.child ≠ .reaped) : c.held = true := by
  have hanswers : c.answers = true := by
    rw [hp] at hk
    cases hphase : c.request.phase with
    | starting | connecting | upgrading | relaying =>
        simp [Session.answers, Session.stage, hphase, stageOf]
    | aborting shutdown | closing shutdown | detached shutdown =>
        rw [hphase] at hk
        obtain ⟨q, hq, hkeeps⟩ := hk
        obtain rfl := Option.some.inj hq
        simp [Session.answers, Session.stage, hphase, stageOf, signals_of_unreaped hkeeps hne]
    | releasing | ended =>
        rw [hphase] at hk
        exact absurd (tornDown_inv (hk p rfl)).1 hne
    | _ =>
        rw [hphase] at hk
        cases hk
  simp [Session.held, hanswers, Session.reaped, hp, hne]

/-! ## The cap -/

/-- The process cap, in the table of the kernel. Along every run in which no Chromium is
severed from its request and no process takes over the number of a reaped child, the children
that are not reaped are different processes of the table, at most `max_sessions` at any time,
and every Chromium whose child is not reaped has one of them. -/
theorem children_capped (hrun : (machine limits codes).run (init limits boot) as = some s)
    (hown : Machine.Along (fun s e => ¬ TakesOver s e) (machine limits codes)
      (init limits boot) as)
    (hsevers : Machine.Along (fun s e => ¬ Severs s e) (Server.machine limits codes)
      (Server.init limits) (as.filterMap gatewayAction)) :
    (children s).Nodup ∧ (∀ n ∈ children s, ∃ i, s.shared.table.Holds n (some i)) ∧
      (children s).length ≤ limits.maxSessions ∧
      ∀ (i : Nat) (c : Session Code) (p : Chromium), s.procs[i]? = some c →
        c.request.chromium = some p → p.child ≠ .reaped → ∃ n ∈ children s, c.pid = some n := by
  have hinv : Inv s := Machine.run_invariant_along (I := Inv)
    (fun _ _ _ hst hno hinv => inv_step hst hno hinv) hrun hown (inv_init boot)
  have hgateway : (Server.machine limits codes).run (Server.init limits)
      (as.filterMap gatewayAction) = some (gatewayOf s) := gateway_run hrun
  have hdetached : ∀ (i : Nat) (c : Session Code), s.procs[i]? = some c →
      c.request.phase.isDetached = false := fun i c hc =>
    Machine.run_invariant_along (I := NotDetachedAt i)
      (fun _ _ _ hst hno hk => notDetachedAt_step hst hno hk) hgateway hsevers
      (fun _ hr => by cases hr) _ (getElem?_gatewayOf hc)
  refine ⟨children_nodup hinv, ?_, ?_, ?_⟩
  · intro n hn
    obtain ⟨i, c, hc, hheld, hpid⟩ := mem_children.mp hn
    exact ⟨i, (hinv.accounts.keeps i c hc).holds n hpid hheld⟩
  · calc (children s).length
        = s.procs.countP (fun c => (if c.held then c.pid else none).isSome) :=
          List.length_filterMap_eq_countP
      _ ≤ s.procs.countP (Gate.Call.ownsPermit ∘ Request.call ∘ Session.request) := by
          apply List.countP_mono_left
          intro c hc hsome
          obtain ⟨i, hi⟩ := List.getElem?_of_mem hc
          have hheld : c.held = true := by
            by_contra hno
            rw [if_neg hno] at hsome
            cases hsome
          -- the child is launched or may be signalled, and its request has the permit
          have hadmitted := admitted_of_answers (answers_of_held hheld) (hdetached i c hi)
          have hholding := holdingAt_run i hgateway _ (getElem?_gatewayOf hi) hadmitted
          show c.request.call.ownsPermit = true
          rw [hholding]
          rfl
      _ = Gate.owned (gateOf (gatewayOf s)) := by
          rw [← Function.comp_assoc, ← List.countP_map, ← List.countP_map]
          rfl
      _ ≤ limits.maxSessions := owned_le ⟨_, hgateway⟩
  · intro i c p hc hp hne
    have hkeeps := keepsAt_run hgateway
      (Machine.along_mono (fun t e hno hi => hno ⟨i, Or.inl hi⟩) hsevers) _ (getElem?_gatewayOf hc)
    obtain ⟨n, hpid⟩ := Option.isSome_iff_exists.mp (launched_run hrun i c hc (by simp [hp]))
    exact ⟨n, mem_children.mpr ⟨i, c, hc, held_of_unreaped hkeeps hp hne, hpid⟩, hpid⟩

/-- Two requests, each with its child. -/
def twoChildrenRun : List (Action UInt16) :=
  [.env (.gateway .browserReady)] ++ admitted 0 ++ launched 0 100 ++ admitted 1 ++ launched 1 102

theorem children_capped_twoChildrenRun :
    ∃ s : State UInt16,
      (machine twoSessions Proxy.plainCodes).run (init twoSessions smallBoot) twoChildrenRun =
        some s ∧
      children s = [100, 102] ∧ (children s).length ≤ 2 ∧
      ∀ n ∈ children s, ∃ i, s.shared.table.Holds n (some i) := by
  have hrun : ∃ s : State UInt16,
      (machine twoSessions Proxy.plainCodes).run (init twoSessions smallBoot) twoChildrenRun =
        some s ∧ children s = [100, 102] := ⟨_, rfl, rfl⟩
  obtain ⟨s, hs, hchildren⟩ := hrun
  have hnone : ∀ e ∈ twoChildrenRun.filterMap gatewayAction, isInterruption e ≠ true := by decide
  have hsevers : Machine.Along (fun s e => ¬ Severs s e)
      (Server.machine twoSessions Proxy.plainCodes) (Server.init twoSessions)
      (twoChildrenRun.filterMap gatewayAction) :=
    Machine.along_of_forall (fun e he s hs => hnone e he (isInterruption_of_severs hs)) _
  obtain ⟨-, hthere, hcap, -⟩ := children_capped hs (by decide) hsevers
  exact ⟨s, hs, hchildren, hcap, hthere⟩

end Pinokio.Signals
