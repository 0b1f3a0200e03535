/-
# Pinokio.Server.Refused -- what a refused request leaves

Every admission step comes before the upgrade. So a client that is refused was refused for a
cause (`refusal_cause`), not one message of it went to a Chromium or came from one, and
nothing of the request stays behind: no permit, no place in the queue, no Chromium
(`refused_clean`). What it had launched was torn down before the response.
-/
import Pinokio.Server.Refusal
import Pinokio.Server.SessionRelay
import Pinokio.Server.Capacity

namespace Pinokio.Server

variable {Code : Type} {limits : Gate.Limits} {codes : Proxy.CloseCodes Code}

/-- The request is refused, or will be as soon as its permit is dropped. -/
def Phase.refusing : Phase Code → Bool
  | releasing (.refused _) | ended (.refused _) => true
  | _ => false

/-- The Chromium of a request, if it had one, is torn down. -/
def Cleared (c : Option Chromium) : Prop := ∀ p, c = some p → p.tornDown = true

/-- Up to the launch there is no Chromium, and up to the upgrade no relay. -/
theorem clean_of_early {r : Request Code} {bs : List (Proxy.Action Code)} {phase : Phase Code}
    (hp : r.phase = phase) (hk : r.phase.Keeps r.chromium ∨ r.phase.Lost r.chromium)
    (hrelayed : r.phase.Relayed codes bs) (hlost : ∀ c, ¬ phase.Lost c)
    (hnone : ∀ c, phase.Keeps c → c = none) (hnil : phase.Relayed codes bs → bs = []) :
    bs = [] ∧ Cleared r.chromium := by
  rw [hp] at hk hrelayed
  refine ⟨hnil hrelayed, fun p hsome => ?_⟩
  rw [hnone _ (hk.resolve_right (hlost _))] at hsome
  cases hsome

/-- A request comes to its refusal with nothing relayed and its Chromium torn down. -/
theorem clean_step {s s' : AppState} {i : Nat} {r r' : Request Code} {a : RequestAction Code}
    {bs : List (Proxy.Action Code)} (h : RequestStep limits codes s i r a s' r')
    (hk : r.phase.Keeps r.chromium ∨ r.phase.Lost r.chromium)
    (hrelayed : r.phase.Relayed codes bs)
    (hc : r.phase.refusing = true → bs = [] ∧ Cleared r.chromium) :
    r'.phase.refusing = true → bs = [] ∧ Cleared r'.chromium := by
  intro hr
  cases h with
  | unauthorized hp | shuttingDown hp | browserInstalling hp | invalidLaunchOptions _ hp
  | refused _ hp | spawnFails _ hp =>
      exact clean_of_early (r := r) hp hk hrelayed (fun _ => id) (fun _ => id) id
  | aborted error hp =>
      rw [hp] at hk hrelayed
      obtain ⟨p, hsome, htorn⟩ := hk.resolve_right id
      refine ⟨hrelayed, fun q hq => ?_⟩
      obtain rfl := Option.some.inj (hsome.symm.trans hq)
      exact htorn
  | release ending g c hp h =>
      cases ending with
      | refused error => exact hc (by rw [hp]; rfl)
      | _ => cases hr
  | exits p p' hsome h =>
      have hreaped := (tornDown_inv ((hc hr).2 p hsome)).1
      rw [(exits_inv h).1] at hreaped
      cases hreaped
  | gate a g c hp hne h =>
      rw [show ({ r with call := c } : Request Code).phase = r.phase from rfl, hp] at hr
      cases hr
  | releaseDetached shutdown g c hp h =>
      rw [show ({ r with call := c } : Request Code).phase = r.phase from rfl, hp] at hr
      cases hr
  | _ => cases hr

theorem clean_run {s : State Code} {as : List (Action Code)} {i : Nat}
    (hrun : (machine limits codes).run (init limits) as = some s) :
    ∀ r, s.procs[i]? = some r → r.phase.refusing = true →
      relayActions i as = [] ∧ Cleared r.chromium := by
  have hI := Machine.run_history (M := machine limits codes) (I := fun as s =>
    (machine limits codes).run (init limits) as = some s ∧
      ∀ r, s.procs[i]? = some r → r.phase.refusing = true →
        relayActions i as = [] ∧ Cleared r.chromium)
    ?_ hrun ⟨rfl, fun r hr => by cases hr⟩
  · exact hI.2
  · rintro as s e s' hst ⟨hs, hclean⟩
    refine ⟨(Machine.run_concat_iff _).mpr ⟨s, hs, hst⟩, fun r' hr' hrefusing => ?_⟩
    rw [relayActions_concat]
    rcases Pool.step_proc hst hr' with ⟨-, hfresh⟩ | ⟨a, r, rfl, hr, hact⟩ | ⟨hr, hne⟩
    · rw [isNew_phase hfresh] at hrefusing
      cases hrefusing
    · have hstep := (act_inv hact).2
      obtain ⟨hnil, hcleared⟩ := clean_step hstep (accounted_reachable ⟨as, hs⟩ hr).1
        (relayed_of_run hs hr) (hclean r hr) hrefusing
      refine ⟨?_, hcleared⟩
      cases a with
      | relay b =>
          -- a relay step is none on the way to a refusal
          obtain ⟨_, relay', -, -, -, hp'⟩ := relay_inv hstep
          rw [hp'] at hrefusing
          cases hrefusing
      | _ => rw [hnil]; rfl
    · rw [relayAction_of_ne hne, Option.toList_none, List.append_nil]
      exact hclean r' hr hrefusing

/-- A refusal is clean. Whoever is refused, in whatever run: there was a cause for it at an
instant of the run; none of its steps was one of a relay; its Chromium, if it had one, is
torn down; and it holds no permit and no place in the queue. -/
theorem refused_clean {s : State Code} {as : List (Action Code)} {i : Nat} {r : Request Code}
    {error : GatewayError} (hrun : (machine limits codes).run (init limits) as = some s)
    (hr : s.procs[i]? = some r) (hp : r.phase = .ended (.refused error)) :
    (∃ t ∈ (machine limits codes).trace (init limits) as, ∃ q, t.procs[i]? = some q ∧
      Cause limits t.shared q error) ∧
    relayActions i as = [] ∧ (∀ p, r.chromium = some p → p.tornDown = true) ∧
    r.engaged = false := by
  obtain ⟨hnil, hcleared⟩ := clean_run hrun r hr (by rw [hp]; rfl)
  have hplaces := places_reachable ⟨as, hrun⟩ hr
  rw [hp] at hplaces
  exact ⟨refusal_cause hrun hr hp, hnil, hcleared, not_engaged hplaces⟩

/-- The Chromium of request 0 does not write its port file in time. -/
def failedLaunchRun : List (Action UInt16) :=
  launchRun ++
    [.act 0 (.startup (.readPort false)), .act 0 .startupElapses,
      .act 0 (.startup .checkDeadline), .act 0 .resume, .act 0 (.shutdown .tryWait),
      .act 0 .exits, .act 0 (.shutdown .reaped), .act 0 (.shutdown .sweep),
      .act 0 (.shutdown .removeDir), .act 0 .resume, .act 0 .dropPermit]

theorem refused_clean_failedLaunchRun :
    ∃ (s : State UInt16) (r : Request UInt16) (p : Chromium),
      (machine oneSession Proxy.plainCodes).run (init oneSession) failedLaunchRun = some s ∧
      s.procs[0]? = some r ∧ r.chromium = some p ∧ p.tornDown = true ∧ r.engaged = false := by
  have hrun : ∃ (s : State UInt16) (r : Request UInt16) (p : Chromium) (error : GatewayError),
      (machine oneSession Proxy.plainCodes).run (init oneSession) failedLaunchRun = some s ∧
      s.procs[0]? = some r ∧ r.phase = .ended (.refused error) ∧ r.chromium = some p :=
    ⟨_, _, _, _, rfl, rfl, rfl, rfl⟩
  obtain ⟨s, r, p, error, hs, hr, hp, hc⟩ := hrun
  obtain ⟨-, -, hcleared, hengaged⟩ := refused_clean hs hr hp
  exact ⟨s, r, p, hs, hr, hc, hcleared p hc, hengaged⟩

end Pinokio.Server
