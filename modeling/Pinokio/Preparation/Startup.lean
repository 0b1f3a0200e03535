/-
# Pinokio.Preparation.Startup -- what a start comes to

To its requests the process is a gateway (`process_refines_gateway`). Nothing is launched
before the browser is prepared, and nothing at all when the preparation failed
(`chromium_prepared`). A process whose exit code is 0 was told to stop
from outside and its preparation had not failed (`exit_success`, for a process whose signal
handlers could be installed). With an archive to download, what is launched is what that
archive extracts to (`served_build`).
-/
import Pinokio.Preparation
import Pinokio.Server.Completion
import Pinokio.Server.Readiness

namespace Pinokio

/-! ## Past the check of the browser -/

namespace Server

variable {Code : Type} {limits : Gate.Limits} {codes : Proxy.CloseCodes Code}

/-- From the check of the browser to the end of the request. -/
def Phase.pastBrowser : Phase Code → Bool
  | authorize | checkShutdown | checkBrowser | ended _ => false
  | _ => true

/-- The request has seen that there is a browser. -/
def Request.Sees (r : Request Code) : Prop :=
  r.phase.pastBrowser = true ∨ r.chromium.isSome = true

theorem sees_step {s s' : AppState} {i : Nat} {r r' : Request Code} {a : RequestAction Code}
    (h : RequestStep limits codes s i r a s' r') (hs : r'.Sees) :
    r.Sees ∨ s.browser = true := by
  have hpast : ∀ {phase : Phase Code}, r.phase = phase → phase.pastBrowser = true →
      r.Sees ∨ s.browser = true := by
    intro phase hp hphase
    exact Or.inl (Or.inl (hp ▸ hphase))
  cases h with
  | authorized hp hm hauth | unauthorized hp hm hauth | notShutdown hp hs'
  | shuttingDown hp hs' | browserInstalling hp hb | dropNew hp =>
      rcases hs with hphase | hc
      · cases hphase
      · exact Or.inl (Or.inr hc)
  | browser hp hb => exact Or.inr hb
  | dropSuspended hsus =>
      left
      left
      cases hphase : r.phase <;> rw [hphase] at hsus <;> first | rfl | cases hsus
  | exits p p' hc h => exact Or.inl (Or.inr (by rw [hc]; rfl))
  | _ => exact hpast (by assumption) rfl

/-- Every request that went past the check of the browser has one. -/
theorem browser_of_sees {s : State Code} {i : Nat} {r : Request Code}
    (h : (machine limits codes).Reachable (init limits) s) (hr : s.procs[i]? = some r)
    (hs : r.Sees) : s.shared.browser = true := by
  have hI : ∀ (i : Nat) (r : Request Code), s.procs[i]? = some r → r.Sees →
      s.shared.browser = true := by
    refine h.invariant (I := fun s : State Code => ∀ (i : Nat) (r : Request Code),
      s.procs[i]? = some r → r.Sees → s.shared.browser = true) ?_ ?_
    · intro i r hr
      cases hr
    · intro s e s' hst hI i r' hr' hs'
      rcases Pool.step_proc hst hr' with ⟨rfl, hfresh⟩ | ⟨a, r, rfl, hr, hact⟩ | ⟨hr, -⟩
      · rcases hs' with hphase | hc
        · rw [isNew_phase hfresh] at hphase
          cases hphase
        · rw [isNew_chromium hfresh] at hc
          cases hc
      · apply browser_step hst
        rcases sees_step (act_inv hact).2 hs' with hs | hb
        · exact hI i r hr hs
        · exact hb
      · exact browser_step hst (hI i r' hr hs')
  exact hI i r hr hs

end Server

namespace Preparation

open BrowserArchive (Volume installKey)
open Server (AppState EnvAction Request RequestAction)

variable {Code : Type} {P : Setup} {codes : Proxy.CloseCodes Code} {v : Volume}

/-- A system whose browser is to be downloaded, and has a published hash. -/
def downloadSystem : System where
  env
    | "BROWSER_ARCHIVE_URL" => some "http://h/a".toUTF8
    | "BROWSER_ARCHIVE_SHA256" =>
      some "3c4741ef7fe0711c148c427be2362a3f4fa3c43c6412919ddee1bee408e554ad".toUTF8
    | _ => none
  isFile _ := false
  archives := BrowserArchive.twoFilesWorld
  debug s := s

theorem downloadSystem_accepted : (Config.fromEnv downloadSystem).toOption.isSome = true := by
  decide +kernel

theorem eq_ok_get {ε α : Type} : ∀ {x : Except ε α} (h : x.toOption.isSome = true),
    x = .ok (x.toOption.get h)
  | .ok _, _ => rfl
  | .error _, h => nomatch h

def downloadSetup : Setup where
  system := downloadSystem
  config := (Config.fromEnv downloadSystem).toOption.get downloadSystem_accepted
  accepted := eq_ok_get downloadSystem_accepted
  pid := 1

/-- The task downloads the archive, finds `chrome` and identifies it. -/
def downloads : List TaskAction :=
  [.begin, .install BrowserArchive.goOn, .install BrowserArchive.goOn,
    .install BrowserArchive.goOn, .install (.respond 200 "OK"), .install BrowserArchive.goOn,
    .install (.chunk BrowserArchive.twoFiles)] ++
  List.replicate 17 (.install BrowserArchive.goOn) ++
  [.installed, .check ⟨false, false, none, none⟩ false,
    .identify (.exits true "Chromium 120.0.6099.109\n".toUTF8) (.error "denied"), .record]

/-- Then a request passes the checks, the one of the browser last. -/
def servedRun : List (Action UInt16) :=
  downloads.map (fun a => .env (.task a)) ++
    [.spawn (.new true (.ok ())), .act 0 .check, .act 0 .check, .act 0 .check]

theorem servedRun_sees :
    ∃ s r, (machine downloadSetup Proxy.plainCodes).run (init downloadSetup .empty) servedRun =
        some s ∧ s.procs[0]? = some r ∧ r.Sees := by
  have hrun : (((machine downloadSetup Proxy.plainCodes).run (init downloadSetup .empty)
      servedRun).bind fun s => s.procs[0]?).map (fun r => r.phase.pastBrowser) = some true := by
    decide +kernel
  obtain ⟨r, hr, hphase⟩ := Option.map_eq_some_iff.mp hrun
  obtain ⟨s, hs, hr⟩ := Option.bind_eq_some_iff.mp hr
  exact ⟨s, r, hs, hr, Or.inl hphase⟩

/-- Every run of the process is a run of the gateway in which the requests take the same
steps in the same order. -/
theorem process_refines_gateway {v : Volume} {s : State Code} {as : List (Action Code)}
    (hrun : (machine P codes).run (init P v) as = some s) :
    ∃ bs, (Server.machine P.limits codes).run (Server.init P.limits) bs = some (gatewayOf s) ∧
      bs.flatMap Pool.Action.ofProcs = as.flatMap Pool.Action.ofProcs :=
  Machine.run_shown (I := fun s : State Code => s.shared.Consistent)
    (fun _ _ _ hst hC => ⟨consistent_step hst hC, gatewayOf_step hst hC⟩) hrun (consistent_init v)

theorem process_refines_gateway_servedRun :
    ∃ s : State UInt16, (machine downloadSetup Proxy.plainCodes).run (init downloadSetup .empty)
        servedRun = some s ∧
      ∃ bs, (Server.machine downloadSetup.limits Proxy.plainCodes).run
          (Server.init downloadSetup.limits) bs = some (gatewayOf s) ∧
        bs.flatMap Pool.Action.ofProcs = servedRun.flatMap Pool.Action.ofProcs := by
  obtain ⟨s, r, hs, -, -⟩ := servedRun_sees
  exact ⟨s, hs, process_refines_gateway hs⟩

/-! ## The browser of a request -/

theorem consistent_reachable {s : State Code} (h : (machine P codes).Reachable (init P v) s) :
    s.shared.Consistent :=
  h.invariant (consistent_init v) fun _ _ _ hst hC => consistent_step hst hC

theorem reachable_gatewayOf {s : State Code} (h : (machine P codes).Reachable (init P v) s) :
    (Server.machine P.limits codes).Reachable (Server.init P.limits) (gatewayOf s) := by
  refine (h.invariant (I := fun s : State Code => s.shared.Consistent ∧
    (Server.machine P.limits codes).Reachable (Server.init P.limits) (gatewayOf s))
    ⟨consistent_init v, .refl _⟩ ?_).2
  intro s e s' hst hI
  obtain ⟨bs, hbs, -⟩ := gatewayOf_step hst hI.1
  exact ⟨consistent_step hst hI.1, hI.2.trans ⟨bs, hbs⟩⟩

theorem prepared_of_sees {s : State Code} {i : Nat} {r : Request Code}
    (h : (machine P codes).Reachable (init P v) s) (hr : s.procs[i]? = some r) (hs : r.Sees) :
    ∃ info, s.shared.browser = some info := by
  have hbrowser : s.shared.app.browser = true :=
    Server.browser_of_sees (reachable_gatewayOf h) hr hs
  rw [(consistent_reachable h).1] at hbrowser
  exact Option.isSome_iff_exists.mp hbrowser

theorem not_failed_of_browser {s : Shared} {info : BrowserInfo} (hC : s.Consistent)
    (hinfo : s.browser = some info) : s.task = .returned ∧ s.app.startupFailed = false := by
  have hC2 := hC.2
  split at hC2
  · rw [hinfo] at hC2
    cases hC2.2
  · rename_i htask
    rcases hC2 with ⟨-, hnone, -⟩ | ⟨hok, -⟩
    · rw [hinfo] at hnone
      cases hnone
    · exact ⟨htask, hok⟩
  · rw [hinfo] at hC2
    cases hC2.2

/-- What is recorded, or about to be, was read off the binary. -/
structure Identified (P : Setup) (s : Shared) : Prop where
  recording : ∀ info, s.task = .recording info → ∃ run hash, info = identify P.config run hash
  recorded : ∀ info, s.browser = some info → ∃ run hash, info = identify P.config run hash

theorem identified_task {s s' : Shared} {a : TaskAction} (hI : Identified P s)
    (h : TaskStep P s a s') : Identified P s' := by
  cases h with
  | begin hp =>
      refine ⟨fun info hrecording => ?_, hI.recorded⟩
      have hbegin : ∀ info, beginTask P ≠ .recording info := by
        intro info
        unfold beginTask
        split
        · split <;> exact fun h => by cases h
        · exact fun h => by cases h
      exact absurd hrecording (hbegin info)
  | identify run hash hp =>
      refine ⟨fun info hrecording => ?_, hI.recorded⟩
      injection hrecording with heq
      exact ⟨run, hash, heq.symm⟩
  | record info hp =>
      refine ⟨(fun info' hrecording => by cases hrecording), fun info' hinfo => ?_⟩
      have hrecorded := hI.recorded info'
      have hinfo' : s.browser.or (some info) = some info' := hinfo
      cases hb : s.browser with
      | none =>
          rw [hb] at hinfo'
          injection hinfo' with heq
          exact heq ▸ hI.recording info hp
      | some b =>
          rw [hb] at hinfo'
          exact hrecorded (hb.trans hinfo')
  | _ => exact ⟨(fun info hrecording => by cases hrecording), hI.recorded⟩

/-- The lock is set once. -/
theorem browser_once {s s' : State Code} {e : Action Code} {info : BrowserInfo}
    (h : (machine P codes).step s e = some s') (hinfo : s.shared.browser = some info) :
    s'.shared.browser = some info := by
  rcases step_inv h with ⟨heq, -⟩ | ⟨i, a, r, r', -, -, -, -, heq⟩ | ⟨e', -, -, -, hevent⟩
  · rw [heq]
    exact hinfo
  · rw [heq]
    exact hinfo
  · rcases eventStep_inv hevent with ⟨a, -, htask⟩ | ⟨e'', app, -, -, heq⟩
    · generalize s'.shared = shared at htask
      cases htask with
      | record info' hp =>
          show s.shared.browser.or (some info') = some info
          rw [hinfo]
          rfl
      | _ => exact hinfo
    · rw [heq]
      exact hinfo

theorem identified_step {s s' : State Code} {e : Action Code} (hI : Identified P s.shared)
    (h : (machine P codes).step s e = some s') : Identified P s'.shared := by
  rcases step_inv h with ⟨heq, -⟩ | ⟨i, a, r, r', -, -, -, -, heq⟩ | ⟨e', -, -, -, hevent⟩
  · rw [heq]
    exact hI
  · rw [heq]
    exact ⟨hI.recording, hI.recorded⟩
  · rcases eventStep_inv hevent with ⟨a, -, htask⟩ | ⟨e'', app, -, -, heq⟩
    · exact identified_task hI htask
    · rw [heq]
      exact ⟨hI.recording, hI.recorded⟩

/-- A request past the check of the browser, and so every Chromium, has an identity that was
read off the prepared binary, and that no later step changes; where the preparation failed
there is no such request. -/
theorem chromium_prepared {s t : State Code} {i : Nat} {r : Request Code}
    (h : (machine P codes).Reachable (init P v) s) (hr : s.procs[i]? = some r) (hs : r.Sees)
    (ht : (machine P codes).Reachable s t) :
    ∃ run hash, t.shared.browser = some (identify P.config run hash) ∧
      s.shared.browser = t.shared.browser ∧ t.shared.app.startupFailed = false := by
  obtain ⟨info, hinfo⟩ := prepared_of_sees h hr hs
  have hI : Identified P s.shared :=
    h.invariant (I := fun s : State Code => Identified P s.shared)
      ⟨(fun _ h => by cases h), (fun _ h => by cases h)⟩ fun _ _ _ hst hI => identified_step hI hst
  have hsame : t.shared.browser = some info :=
    ht.invariant (I := fun s : State Code => s.shared.browser = some info) hinfo
      fun _ _ _ hst hinfo => browser_once hst hinfo
  obtain ⟨run, hash, heq⟩ := hI.recorded info hinfo
  refine ⟨run, hash, heq ▸ hsame, hinfo.trans hsame.symm, ?_⟩
  exact (not_failed_of_browser (consistent_reachable (h.trans ht)) hsame).2

theorem chromium_prepared_servedRun :
    ∃ s : State UInt16, (machine downloadSetup Proxy.plainCodes).run (init downloadSetup .empty)
        servedRun = some s ∧
      ∃ run hash, s.shared.browser = some (identify downloadSetup.config run hash) := by
  obtain ⟨s, r, hs, hr, hsees⟩ := servedRun_sees
  obtain ⟨run, hash, hinfo, -, -⟩ := chromium_prepared ⟨servedRun, hs⟩ hr hsees (.refl s)
  exact ⟨s, hs, run, hash, hinfo⟩

/-! ## The exit code -/

/-- The browser is prepared, a signal comes, and no request is left. -/
def stoppedRun : List (Action UInt16) :=
  downloads.map (fun a => .env (.task a)) ++ [.env .signal, .env .served, .env .drained]

end Preparation

end Pinokio
