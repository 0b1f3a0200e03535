/-
# Pinokio.Server.Completion -- whether the shutdown comes to its end

After the signal `main` waits for the connections that axum serves, with no limit, and then
for the tracked sessions, with one. `shutdown_completes_iff` is that the server can bring
this to its end by itself exactly while no request waits for its Chromium to take the
connect; with one that does, it stays where it is. `shutdown_succeeds_iff` is that it can
do so with exit code 0 exactly if, in addition, no session is blocked in a send and the
browser was prepared. A request is led out of `ws_handler` one after the other: up to the
gate by the cancelled token, past it by the way that every admission has
(`Ending.Ahead`); then the sessions are closed one after the other.
-/
import Pinokio.Server.Capacity
import Pinokio.Server.Drain
import Pinokio.Server.NoAdmission

namespace Pinokio.Server

variable {Code : Type} {limits : Gate.Limits} {codes : Proxy.CloseCodes Code}

/-! ## The end of the shutdown, by the server alone -/

/-- Steps of the server alone lead to the exit of the process. -/
def Completes (limits : Gate.Limits) (codes : Proxy.CloseCodes Code) (s : State Code) : Prop :=
  ∃ as s', Machine.Along Unaided (machine limits codes) s as ∧
    (machine limits codes).run s as = some s' ∧ s'.shared.main.isExited = true

/-- They lead to exit code 0. -/
def Succeeds (limits : Gate.Limits) (codes : Proxy.CloseCodes Code) (s : State Code) : Prop :=
  ∃ as s', Machine.Along Unaided (machine limits codes) s as ∧
    (machine limits codes).run s as = some s' ∧ s'.shared.main = .exited true

/-! ## Out of the handler -/

/-- Steps of the server for request `i` alone lead it to its end. -/
def LedOut (limits : Gate.Limits) (codes : Proxy.CloseCodes Code) (i : Nat)
    (s : State Code) : Prop :=
  ∃ as s' r, Machine.Along (UnaidedBy i) (machine limits codes) s as ∧
    (machine limits codes).run s as = some s' ∧ s'.procs[i]? = some r ∧
    ∃ ending, r.phase = .ended ending

theorem LedOut.of_run {s t : State Code} {i : Nat} {as : List (Action Code)}
    (hAlong : Machine.Along (UnaidedBy i) (machine limits codes) s as)
    (hrun : (machine limits codes).run s as = some t) (h : LedOut limits codes i t) :
    LedOut limits codes i s := by
  obtain ⟨bs, s', r, hAlong', hrun', hended⟩ := h
  exact ⟨as ++ bs, s', r, (Machine.along_append hrun).mpr ⟨hAlong, hAlong'⟩,
    (Machine.run_append_iff _).mpr ⟨t, hrun, hrun'⟩, hended⟩

theorem ledOut_of_ended {s : State Code} {i : Nat} {r : Request Code} {ending : Ending}
    (hr : s.procs[i]? = some r) (hp : r.phase = .ended ending) : LedOut limits codes i s :=
  ⟨[], s, r, trivial, rfl, hr, ending, hp⟩

/-- One step of the request that touches nothing else, and then the way out. -/
theorem LedOut.head {s : State Code} {i : Nat} {r : Request Code} (r' : Request Code)
    {a : RequestAction Code} (hmain : s.shared.main.isExited = false) (hr : s.procs[i]? = some r)
    (ha : r.unaided a = true)
    (hstep : requestStep limits codes s.shared i r a = some (s.shared, r'))
    (h : ∀ t : State Code, t.shared = s.shared → t.procs[i]? = some r' →
      LedOut limits codes i t) : LedOut limits codes i s := by
  have hmove : (machine limits codes).step s (.act i a) =
      some { shared := s.shared, procs := s.procs.set i r' } := by
    refine Pool.step_act.mpr ⟨r, s.shared, r', hr, ?_, rfl⟩
    simp [program, hmain, hstep]
  have hAlong : Machine.Along (UnaidedBy i) (machine limits codes) s [.act i a] :=
    Machine.along_cons_of_step ⟨a, r, rfl, hr, ha⟩ hmove trivial
  exact .of_run hAlong ((Machine.run_singleton _).mpr hmove)
    (h _ rfl (Pool.getElem?_set_of_some hr r'))

theorem ledOut_of_check {s : State Code} {i : Nat} {r : Request Code} (r' : Request Code)
    (hmain : s.shared.main.isExited = false) (hr : s.procs[i]? = some r)
    (hcheck : checkStep s.shared r = some r')
    (h : ∀ t : State Code, t.shared = s.shared → t.procs[i]? = some r' →
      LedOut limits codes i t) : LedOut limits codes i s :=
  .head r' hmain hr (a := .check) rfl (by simp [requestStep, hcheck]) h

theorem ledOut_of_ahead {s : State Code} {i : Nat} {r : Request Code}
    (hmain : s.shared.main.isExited = false) (hr : s.procs[i]? = some r)
    (ha : Ending.Ahead r) : LedOut limits codes i s := by
  obtain ⟨as, s', r', hAlong, hrun, hr', ⟨error, hphase⟩, -⟩ := exists_over_of_ahead hmain hr ha
  exact ⟨as, s', r', hAlong, hrun, hr', .refused error, hphase⟩

/-- In the gate a request comes to its refusal, or to a permit and on from there. -/
theorem ledOut_of_acquiring {s : State Code} {i : Nat} {r : Request Code}
    (hmain : s.shared.main.isExited = false) (hr : s.procs[i]? = some r)
    (hp : r.phase = .acquiring) (hc : r.call ≠ .released) : LedOut limits codes i s := by
  obtain ⟨as, t, c, hAlong, hrun, ht, hne, hend⟩ :=
    exists_returning_run limits codes hmain hr hp hc
  have hmain' : t.shared.main.isExited = false := by
    rw [(unaidedBy_frame hr hrun hAlong).1]
    exact hmain
  refine .of_run hAlong hrun ?_
  cases c with
  | holding =>
      refine ledOut_of_ahead hmain' ht (ahead_of_holding rfl ?_ ?_ ?_)
      all_goals
        simp only [hp]
        trivial
  | returned error =>
      exact .head (Request.refuse { r with call := .returned error } error) hmain' ht
        (a := .resume) rfl (by simp [requestStep, resumeStep, hp])
        fun _ _ hr => ledOut_of_ended hr rfl
  | dropped =>
      exact .head { r with call := .dropped, phase := .ended .dropped } hmain' ht
        (a := .resume) rfl (by simp [requestStep, resumeStep, hp])
        fun _ _ hr => ledOut_of_ended hr rfl
  | released => exact absurd rfl hne
  | _ => rcases hend with hend | hend <;> cases hend

theorem ledOut_of_parseLaunch {s : State Code} {i : Nat} {r : Request Code}
    (hmain : s.shared.main.isExited = false) (hr : s.procs[i]? = some r)
    (hp : r.phase = .parseLaunch) (hc : r.call ≠ .released) : LedOut limits codes i s := by
  cases hl : r.launchOptions with
  | ok =>
      exact ledOut_of_check { r with phase := .acquiring } hmain hr
        (by simp [checkStep, hp, hl]) fun t ht hr =>
          ledOut_of_acquiring (by rw [ht]; exact hmain) hr rfl hc
  | error reason =>
      exact ledOut_of_check (r.refuse (.invalidLaunchOptions reason)) hmain hr
        (by simp [checkStep, hp, hl]) fun _ _ hr => ledOut_of_ended hr rfl

/-- A request that does not wait for the connect can be led out of the handler. -/
theorem ledOut_of_inHandler {s : State Code} {i : Nat} {r : Request Code}
    (h : (machine limits codes).Reachable (init limits) s)
    (hmain : s.shared.main.isExited = false) (hs : s.shared.shutdown = true)
    (hr : s.procs[i]? = some r) (hin : r.phase.inHandler = true)
    (hconnects : r.phase.connects = false) : LedOut limits codes i s := by
  have hplaces := places_reachable h hr
  have hequipped := equippedAt_reachable i h r hr
  have hidle : r.call = .idle → r.call ≠ .released := by
    intro hc
    rw [hc]
    exact fun h => by cases h
  cases hp : r.phase with
  | checkShutdown =>
      exact ledOut_of_check (r.refuse .shuttingDown) hmain hr
        (by simp [checkStep, hp, hs]) fun _ _ hr => ledOut_of_ended hr rfl
  | checkBrowser =>
      rw [hp] at hplaces
      cases hb : s.shared.browser with
      | true =>
          exact ledOut_of_check { r with phase := .parseLaunch } hmain hr
            (by simp [checkStep, hp, hb]) fun t ht hr =>
              ledOut_of_parseLaunch (by rw [ht]; exact hmain) hr rfl (hidle hplaces)
      | false =>
          exact ledOut_of_check (r.refuse .browserInstalling) hmain hr
            (by simp [checkStep, hp, hb]) fun _ _ hr => ledOut_of_ended hr rfl
  | parseLaunch =>
      rw [hp] at hplaces
      exact ledOut_of_parseLaunch hmain hr hp (hidle hplaces)
  | acquiring =>
      rw [hp] at hplaces
      exact ledOut_of_acquiring hmain hr hp hplaces
  | launching | starting | aborting =>
      rw [hp] at hplaces
      exact ledOut_of_ahead hmain hr
        (ahead_of_holding hplaces (by rw [hp]; rfl) hconnects hequipped)
  | connecting =>
      rw [hp] at hconnects
      cases hconnects
  | releasing ending =>
      rw [hp] at hin hplaces
      cases ending with
      | refused error =>
          exact ledOut_of_ahead hmain hr
            (ahead_of_holding hplaces (by rw [hp]; rfl) hconnects hequipped)
      | _ => cases hin
  | _ =>
      rw [hp] at hin
      cases hin

/-- A step of a request leaves `main` alone. -/
theorem main_of_act {s s' : AppState} {i : Nat} {r r' : Request Code} {a : RequestAction Code}
    (h : (program limits codes).act s i r a = some (s', r')) : s'.main = s.main := by
  rcases (act_inv h).2.call_cases with ⟨rfl, -⟩ | ⟨b, -, heq⟩
  · rfl
  · rw [heq]

/-- Past the signal the token is cancelled. -/
theorem shutdown_of_stopping {s : State Code}
    (h : (machine limits codes).Reachable (init limits) s) :
    s.shared.main = .stopping → s.shared.shutdown = true := by
  refine h.invariant (I := fun s : State Code =>
    s.shared.main = .stopping → s.shared.shutdown = true) (fun hm => by cases hm) ?_
  intro s e s' hst hI hmain'
  by_cases hmain : s.shared.main = .stopping
  · exact shutdown_step hst (hI hmain)
  · -- only the signal leads there
    cases e with
    | spawn r =>
        obtain ⟨-, rfl⟩ := Pool.step_spawn.mp hst
        exact absurd hmain' hmain
    | act i a =>
        obtain ⟨r, shared, r', hr, hact, rfl⟩ := Pool.step_act.mp hst
        exact absurd ((main_of_act hact).symm.trans hmain') hmain
    | env e =>
        obtain ⟨shared, henv, rfl⟩ := Pool.step_env.mp hst
        obtain ⟨-, henv⟩ := Option.ite_none_left_eq_some.mp henv
        cases e with
        | signal =>
            obtain ⟨-, henv⟩ := Option.ite_none_right_eq_some.mp henv
            cases henv
            rfl
        | browserReady | browserFails =>
            obtain ⟨-, henv⟩ := Option.ite_none_left_eq_some.mp henv
            cases henv
            exact absurd hmain' hmain
        | graceElapses =>
            simp only [envStep] at henv
            split at henv
            all_goals cases henv
            all_goals exact absurd hmain' hmain
        | served | serveFails | drained | drainElapses =>
            obtain ⟨-, henv⟩ := Option.ite_none_right_eq_some.mp henv
            cases henv
            cases hmain'

theorem inHandler_of_connects {phase : Phase Code} (h : phase.connects = true) :
    phase.inHandler = true := by
  cases phase <;> first | rfl | cases h

theorem not_exited {s : State Code} {m : Main} (h : s.shared.main = m) (hm : m.isExited = false) :
    s.shared.main.isExited = false := by
  rw [h]
  exact hm

/-- While no request waits for the connect, all requests can be led out of the handler; then
`main` goes on to wait for the sessions. -/
theorem exists_draining {s : State Code} (h : (machine limits codes).Reachable (init limits) s)
    (hmain : s.shared.main = .stopping) (hno : ∀ r ∈ s.procs, r.phase.connects = false) :
    ∃ as t, Machine.Along Unaided (machine limits codes) s as ∧
      (machine limits codes).run s as = some t ∧ t.shared.main = .draining ∧
      t.shared.startupFailed = s.shared.startupFailed ∧
      ∀ r ∈ t.procs, r ∈ s.procs ∨ ∃ ending, r.phase = .ended ending := by
  obtain ⟨as, t, hAlong, hrun, ⟨ht, hsettles⟩, hnone⟩ :=
    exists_settled limits codes (s := s) (fun r => r.phase.inHandler)
      (fun r => ∃ ending, r.phase = .ended ending)
      (fun r ⟨ending, hphase⟩ => by rw [hphase]; rfl)
      (fun t i r ht hsettles hr hmem hin => by
        have hstopping : t.shared.main = .stopping := by rw [hsettles.shared]; exact hmain
        exact ledOut_of_inHandler ht (not_exited hstopping rfl) (shutdown_of_stopping ht hstopping)
          hr hin (hno r hmem)) h
  have hstopping : t.shared.main = .stopping := by rw [hsettles.shared]; exact hmain
  have hserved : (machine limits codes).step t (.env .served) =
      some { t with shared := { t.shared with main := .draining } } := by
    refine Pool.step_env.mpr ⟨_, ?_, rfl⟩
    show (if t.shared.main.isExited = true then none
      else if t.shared.main = .stopping ∧ ∀ r ∈ t.procs, r.phase.inHandler = false then _
      else none) = _
    rw [if_neg (by rw [hstopping]; exact Bool.false_ne_true), if_pos ⟨hstopping, hnone⟩]
  have hunaided : Unaided t (.env .served) := rfl
  refine ⟨as ++ [.env .served], { t with shared := { t.shared with main := .draining } },
    (Machine.along_append hrun).mpr ⟨hAlong, ?_⟩,
    (Machine.run_concat_iff _).mpr ⟨t, hrun, hserved⟩, rfl, ?_, hsettles.procs⟩
  · exact Machine.along_cons_of_step hunaided hserved trivial
  · show t.shared.startupFailed = s.shared.startupFailed
    rw [hsettles.shared]

/-! ## The end of the shutdown -/

/-- `main` waits for the sessions for so long and no longer. -/
theorem completes_of_no_connects {s : State Code}
    (h : (machine limits codes).Reachable (init limits) s) (hmain : s.shared.main = .stopping)
    (hno : ∀ r ∈ s.procs, r.phase.connects = false) : Completes limits codes s := by
  obtain ⟨as, t, hAlong, hrun, hdraining, -, -⟩ := exists_draining h hmain hno
  have hdrain : (machine limits codes).step t (.env .drainElapses) =
      some { t with shared := { t.shared with main := .exited false } } := by
    refine Pool.step_env.mpr ⟨_, ?_, rfl⟩
    show (if t.shared.main.isExited = true then none
      else if t.shared.main = .draining then _ else none) = _
    rw [if_neg (by rw [hdraining]; exact Bool.false_ne_true), if_pos hdraining]
  have hunaided : Unaided t (.env .drainElapses) := rfl
  exact ⟨as ++ [.env .drainElapses], _, (Machine.along_append hrun).mpr
    ⟨hAlong, Machine.along_cons_of_step hunaided hdrain trivial⟩,
    (Machine.run_concat_iff _).mpr ⟨t, hrun, hdrain⟩, rfl⟩

theorem connects_unaided {s s' : AppState} {i : Nat} {r r' : Request Code}
    {a : RequestAction Code} (h : RequestStep limits codes s i r a s' r')
    (ha : r.unaided a = true) (hr : r.phase.connects = true) : r'.phase.connects = true := by
  have hout : ∀ {p : Phase Code}, r.phase = p → p.connects = false → False := by
    intro p hp hno
    rw [hp, hno] at hr
    cases hr
  cases a with
  | check => cases h <;> exact (hout ‹r.phase = _› rfl).elim
  | gate b => cases h with | gate _ g c hp hne h => exact (hout hp rfl).elim
  | relay b => cases h with | relay _ relay relay' hp hcancel h => exact (hout hp rfl).elim
  | exits => cases h with | exits p p' hc h => exact hr
  | _ => exact connects_step h ha hr

/-- A request that waits for the connect waits on, and `main` with it. -/
theorem connect_waits_step {s s' : State Code} {e : Action Code}
    (h : (machine limits codes).step s e = some s') (hun : Unaided s e)
    (hw : s.shared.main = .stopping ∧ ∃ r ∈ s.procs, r.phase.connects = true) :
    s'.shared.main = .stopping ∧ ∃ r ∈ s'.procs, r.phase.connects = true := by
  obtain ⟨hmain, r, hr, hc⟩ := hw
  constructor
  · cases e with
    | spawn q => exact hun.elim
    | act j a =>
        obtain ⟨c, shared, c', -, hact, rfl⟩ := Pool.step_act.mp h
        exact (main_of_act hact).trans hmain
    | env e =>
        obtain ⟨shared, henv, rfl⟩ := Pool.step_env.mp h
        obtain ⟨-, henv⟩ := Option.ite_none_left_eq_some.mp henv
        cases e with
        | graceElapses =>
            simp only [envStep, hmain] at henv
            cases henv
            rfl
        | served =>
            obtain ⟨⟨-, hnone⟩, -⟩ := Option.ite_none_right_eq_some.mp henv
            have hout := hnone r hr
            rw [inHandler_of_connects hc] at hout
            cases hout
        | drained =>
            obtain ⟨⟨hdraining, -⟩, -⟩ := Option.ite_none_right_eq_some.mp henv
            rw [hmain] at hdraining
            cases hdraining
        | drainElapses =>
            obtain ⟨hdraining, -⟩ := Option.ite_none_right_eq_some.mp henv
            rw [hmain] at hdraining
            cases hdraining
        | browserReady | browserFails | signal | serveFails => cases hun
  · obtain ⟨i, hi⟩ := List.mem_iff_getElem?.mp hr
    obtain ⟨q, hq, hqc⟩ := unaided_keeps connects_unaided h hun ⟨r, hi, hc⟩
    exact ⟨q, List.mem_of_getElem? hq, hqc⟩

theorem stopping_of_connects {s s' : State Code} {as : List (Action Code)}
    (hrun : (machine limits codes).run s as = some s')
    (hAlong : Machine.Along Unaided (machine limits codes) s as)
    (hmain : s.shared.main = .stopping) {r : Request Code} (hr : r ∈ s.procs)
    (hc : r.phase.connects = true) : s'.shared.main = .stopping := by
  have hstays := Machine.run_invariant_along (P := Unaided) (I := fun t : State Code =>
    t.shared.main = .stopping ∧ ∃ r ∈ t.procs, r.phase.connects = true)
    (fun _ _ _ hst hun hw => connect_waits_step hst hun hw) hrun hAlong ⟨hmain, r, hr, hc⟩
  exact hstays.1

/-- After the signal, the server comes to its exit by itself exactly while no request waits
for its Chromium to take the connect. -/
theorem shutdown_completes_iff {s : State Code}
    (h : (machine limits codes).Reachable (init limits) s) (hmain : s.shared.main = .stopping) :
    Completes limits codes s ↔ ∀ r ∈ s.procs, r.phase.connects = false := by
  constructor
  · rintro ⟨as, s', hAlong, hrun, hexit⟩ r hr
    refine Bool.eq_false_iff.mpr fun hc => ?_
    rw [stopping_of_connects hrun hAlong hmain hr hc] at hexit
    cases hexit
  · exact completes_of_no_connects h hmain

/-- The signal finds one request, in its launch or in its connect. -/
theorem shutdown_completes_iff_launchRun :
    (∃ s : State UInt16, (machine oneSession Proxy.plainCodes).run (init oneSession)
        (launchRun ++ [.env .signal]) = some s ∧ Completes oneSession Proxy.plainCodes s) ∧
      ∃ s : State UInt16, (machine oneSession Proxy.plainCodes).run (init oneSession)
        (connectingRun ++ [.env .signal]) = some s ∧ ¬ Completes oneSession Proxy.plainCodes s := by
  constructor
  · have hrun : ∃ s : State UInt16, (machine oneSession Proxy.plainCodes).run (init oneSession)
        (launchRun ++ [.env .signal]) = some s ∧ s.shared.main = .stopping ∧
        s.procs = [launchedRequest] := ⟨_, rfl, rfl, rfl⟩
    obtain ⟨s, hs, hmain, hprocs⟩ := hrun
    refine ⟨s, hs, (shutdown_completes_iff ⟨_, hs⟩ hmain).mpr fun r hr => ?_⟩
    rw [hprocs] at hr
    rw [List.mem_singleton.mp hr]
    rfl
  · have hrun : ∃ s : State UInt16, ∃ r, (machine oneSession Proxy.plainCodes).run
        (init oneSession) (connectingRun ++ [.env .signal]) = some s ∧
        s.shared.main = .stopping ∧ s.procs = [r] ∧ r.phase.connects = true :=
      ⟨_, _, rfl, rfl, rfl, rfl⟩
    obtain ⟨s, r, hs, hmain, hprocs, hc⟩ := hrun
    refine ⟨s, hs, fun hcompletes => ?_⟩
    have hno := (shutdown_completes_iff ⟨_, hs⟩ hmain).mp hcompletes r (by simp [hprocs])
    rw [hc] at hno
    cases hno

/-! ## Exit code 0 -/

/-- `main` comes to exit code 0 past an empty tracker and its look at `startup_failed`. -/
theorem drained_of_exit {s s' : AppState} {requests : List (Request Code)} {e : EnvAction}
    (hm : s.main.isExited = false) (h : envStep s requests e = some s')
    (hexit : s'.main = .exited true) : e = .drained ∧ s.startupFailed = false := by
  have hsame : s'.main = s.main → e = .drained ∧ s.startupFailed = false := by
    intro heq
    rw [← heq, hexit] at hm
    cases hm
  cases e with
  | browserReady | browserFails =>
      obtain ⟨-, h⟩ := Option.ite_none_left_eq_some.mp h
      cases h
      exact hsame rfl
  | graceElapses =>
      simp only [envStep] at h
      split at h
      all_goals cases h
      all_goals exact hsame rfl
  | signal | served | serveFails | drainElapses =>
      obtain ⟨-, h⟩ := Option.ite_none_right_eq_some.mp h
      cases h
      cases hexit
  | drained =>
      obtain ⟨-, h⟩ := Option.ite_none_right_eq_some.mp h
      cases h
      have hcode : (!s.startupFailed) = true := by
        injection hexit
      exact ⟨rfl, by simpa using hcode⟩

/-- The step that ends the process with exit code 0. -/
theorem step_of_exit {s s' : State Code} {e : Action Code}
    (h : (machine limits codes).step s e = some s') (hne : s.shared.main ≠ .exited true)
    (hexit : s'.shared.main = .exited true) :
    e = .env .drained ∧ s.shared.startupFailed = false := by
  cases e with
  | spawn r =>
      obtain ⟨-, rfl⟩ := Pool.step_spawn.mp h
      exact absurd hexit hne
  | act i a =>
      obtain ⟨r, shared, r', hr, hact, rfl⟩ := Pool.step_act.mp h
      exact absurd ((main_of_act hact).symm.trans hexit) hne
  | env e =>
      obtain ⟨shared, henv, rfl⟩ := Pool.step_env.mp h
      obtain ⟨hm, henv⟩ := Option.ite_none_left_eq_some.mp henv
      obtain ⟨rfl, hfailed⟩ := drained_of_exit (by simpa using hm) henv hexit
      exact ⟨rfl, hfailed⟩

/-- A failed preparation is not forgotten. -/
theorem failed_step {s s' : State Code} {e : Action Code}
    (h : (machine limits codes).step s e = some s') (hf : s.shared.startupFailed = true) :
    s'.shared.startupFailed = true := by
  cases e with
  | spawn r =>
      obtain ⟨-, rfl⟩ := Pool.step_spawn.mp h
      exact hf
  | act i a =>
      obtain ⟨r, shared, r', hr, hact, rfl⟩ := Pool.step_act.mp h
      rcases (act_inv hact).2.call_cases with ⟨rfl, -⟩ | ⟨b, -, heq⟩
      · exact hf
      · show shared.startupFailed = true
        rw [heq]
        exact hf
  | env e =>
      obtain ⟨shared, henv, rfl⟩ := Pool.step_env.mp h
      obtain ⟨-, henv⟩ := Option.ite_none_left_eq_some.mp henv
      cases e with
      | browserReady | browserFails =>
          obtain ⟨-, henv⟩ := Option.ite_none_left_eq_some.mp henv
          cases henv
          first | exact hf | rfl
      | graceElapses =>
          simp only [envStep] at henv
          split at henv
          all_goals cases henv
          all_goals exact hf
      | signal | served | serveFails | drained | drainElapses =>
          obtain ⟨-, henv⟩ := Option.ite_none_right_eq_some.mp henv
          cases henv
          exact hf

theorem failed_waits_step {s s' : State Code} {e : Action Code}
    (h : (machine limits codes).step s e = some s') (hne : s.shared.main ≠ .exited true)
    (hf : s.shared.startupFailed = true) :
    s'.shared.main ≠ .exited true ∧ s'.shared.startupFailed = true := by
  refine ⟨fun hexit => ?_, failed_step h hf⟩
  rw [(step_of_exit h hne hexit).2] at hf
  cases hf

/-- While `main` drains the sessions no request is in the handler. -/
theorem served_of_draining {s : State Code}
    (h : (machine limits codes).Reachable (init limits) s) :
    s.shared.main = .draining → ∀ r ∈ s.procs, r.phase.inHandler = false := by
  refine h.invariant (I := fun s : State Code =>
    s.shared.main = .draining → ∀ r ∈ s.procs, r.phase.inHandler = false)
    (fun hm => by cases hm) ?_
  intro s e s' hst hI hmain'
  have hexited : s.shared.main.isExited = false := by
    refine Bool.eq_false_iff.mpr fun hm => ?_
    have hm' := (exited_step hst hm).1
    rw [hmain'] at hm'
    cases hm'
  have hearly : ¬ ExitsEarly s e := by
    rintro ⟨rfl, -⟩
    have hm' := (drained_inv hst).1
    rw [hmain'] at hm'
    cases hm'
  have hawaited : Awaited s := by
    intro r hr
    cases hm : s.shared.main with
    | serving | stopping => trivial
    | draining => exact hI hm r hr
    | exited success =>
        rw [hm] at hexited
        cases hexited
  intro r hr
  have hserved := awaited_step hst hearly hawaited r hr
  rw [hmain'] at hserved
  exact hserved

/-- A session that is blocked stays so, and keeps `main` from exit code 0. -/
theorem blocked_waits_step {s s' : State Code} {e : Action Code} {i : Nat}
    (h : (machine limits codes).step s e = some s') (hun : Unaided s e)
    (hw : s.shared.main ≠ .exited true ∧
      ∃ r, s.procs[i]? = some r ∧ r.phase.blocked = true ∧ r.call = .holding) :
    s'.shared.main ≠ .exited true ∧
      ∃ r, s'.procs[i]? = some r ∧ r.phase.blocked = true ∧ r.call = .holding := by
  obtain ⟨hne, hblocked⟩ := hw
  constructor
  · intro hexit
    obtain ⟨rfl, -⟩ := step_of_exit h hne hexit
    obtain ⟨r, hr, hb, -⟩ := hblocked
    rw [not_drained_of_blocked (List.mem_of_getElem? hr) hb] at h
    cases h
  · exact unaided_keeps
      (fun hs ha hb => blocked_step hs (not_frees_of_unaided ha i i) hb) h hun hblocked

/-- The sessions of a drain that are not blocked can be closed, and `main` returns. -/
theorem succeeds_of_draining {s : State Code}
    (h : (machine limits codes).Reachable (init limits) s) (hmain : s.shared.main = .draining)
    (hfailed : s.shared.startupFailed = false) (hfree : ∀ r ∈ s.procs, r.phase.blocked = false) :
    Succeeds limits codes s := by
  obtain ⟨as, t, hAlong, hrun, ⟨-, hsettles⟩, hnone⟩ :=
    exists_settled limits codes (s := s) (fun r => r.phase.tracked)
      Request.closed (fun r ⟨⟨reason, hphase⟩, _⟩ => by rw [hphase]; rfl)
      (fun t i r ht hsettles hr hmem htracked => by
        have hdraining : t.shared.main = .draining := by rw [hsettles.shared]; exact hmain
        obtain ⟨as, s', -, hAlong, hrun, q, hq, hclosed⟩ :=
          exists_closing_run limits codes (not_exited hdraining rfl) hr
            (closable_reachable ht hr htracked (hfree r hmem))
        exact ⟨as, s', q, hAlong, hrun, hq, hclosed⟩) h
  have hdraining : t.shared.main = .draining := by rw [hsettles.shared]; exact hmain
  have hprepared : t.shared.startupFailed = false := by rw [hsettles.shared]; exact hfailed
  have hdrained : (machine limits codes).step t (.env .drained) =
      some { t with shared := { t.shared with main := .exited true } } := by
    refine Pool.step_env.mpr ⟨_, ?_, rfl⟩
    show (if t.shared.main.isExited = true then none
      else if t.shared.main = .draining ∧ ∀ r ∈ t.procs, r.phase.tracked = false then
        some { t.shared with main := .exited !t.shared.startupFailed } else none) = _
    rw [if_neg (by rw [hdraining]; exact Bool.false_ne_true), if_pos ⟨hdraining, hnone⟩, hprepared]
    rfl
  have hunaided : Unaided t (.env .drained) := rfl
  exact ⟨as ++ [.env .drained], _, (Machine.along_append hrun).mpr
    ⟨hAlong, Machine.along_cons_of_step hunaided hdrained trivial⟩,
    (Machine.run_concat_iff _).mpr ⟨t, hrun, hdrained⟩, rfl⟩

theorem Succeeds.of_run {s t : State Code} {as : List (Action Code)}
    (hAlong : Machine.Along Unaided (machine limits codes) s as)
    (hrun : (machine limits codes).run s as = some t) (h : Succeeds limits codes t) :
    Succeeds limits codes s := by
  obtain ⟨bs, s', hAlong', hrun', hexit⟩ := h
  exact ⟨as ++ bs, s', (Machine.along_append hrun).mpr ⟨hAlong, hAlong'⟩,
    (Machine.run_append_iff _).mpr ⟨t, hrun, hrun'⟩, hexit⟩

/-- Between the signal and its exit, the server comes to exit code 0 by itself exactly if its
preparation has not failed, no request waits for its Chromium to take the connect and no
session is blocked in a send to a peer that does not read. -/
theorem shutdown_succeeds_iff {s : State Code}
    (h : (machine limits codes).Reachable (init limits) s)
    (hmain : s.shared.main = .stopping ∨ s.shared.main = .draining) :
    Succeeds limits codes s ↔ s.shared.startupFailed = false ∧
      ∀ r ∈ s.procs, r.phase.connects = false ∧ r.phase.blocked = false := by
  have hne : s.shared.main ≠ .exited true := by
    rcases hmain with hm | hm
    · rw [hm]
      exact fun h => by cases h
    · rw [hm]
      exact fun h => by cases h
  constructor
  · rintro ⟨as, s', hAlong, hrun, hexit⟩
    refine ⟨Bool.eq_false_iff.mpr fun hfailed => ?_, fun r hr => ⟨?_, ?_⟩⟩
    · have hkept := Machine.run_invariant (I := fun t : State Code =>
        t.shared.main ≠ .exited true ∧ t.shared.startupFailed = true)
        (fun _ _ _ hst ht => failed_waits_step hst ht.1 ht.2) hrun ⟨hne, hfailed⟩
      exact hkept.1 hexit
    · rcases hmain with hm | hm
      · refine Bool.eq_false_iff.mpr fun hc => ?_
        rw [stopping_of_connects hrun hAlong hm hr hc] at hexit
        cases hexit
      · refine Bool.eq_false_iff.mpr fun hc => ?_
        have hserved := served_of_draining h hm r hr
        rw [inHandler_of_connects hc] at hserved
        cases hserved
    · refine Bool.eq_false_iff.mpr fun hb => ?_
      obtain ⟨i, hi⟩ := List.mem_iff_getElem?.mp hr
      have hcall : r.call = .holding := by
        obtain ⟨bs, hbs⟩ := h
        exact holdingAt_run i hbs r hi (admitted_of_tracked (tracked_of_blocked hb))
      have hkept := Machine.run_invariant_along (P := Unaided) (I := fun t : State Code =>
        t.shared.main ≠ .exited true ∧
          ∃ r, t.procs[i]? = some r ∧ r.phase.blocked = true ∧ r.call = .holding)
        (fun _ _ _ hst hun hw => blocked_waits_step hst hun hw) hrun hAlong
        ⟨hne, r, hi, hb, hcall⟩
      exact hkept.1 hexit
  · rintro ⟨hfailed, hall⟩
    rcases hmain with hm | hm
    · obtain ⟨as, t, hAlong, hrun, hdraining, hprepared, hprocs⟩ :=
        exists_draining h hm fun r hr => (hall r hr).1
      refine .of_run hAlong hrun (succeeds_of_draining (h.trans ⟨as, hrun⟩) hdraining
        (hprepared.trans hfailed) fun r hr => ?_)
      rcases hprocs r hr with hmem | ⟨ending, hphase⟩
      · exact (hall r hmem).2
      · rw [hphase]
        rfl
    · exact succeeds_of_draining h hm hfailed fun r hr => (hall r hr).2

/-- The signal finds one session: its client can be sent to, or its Chromium does not read. -/
theorem shutdown_succeeds_iff_activeRun :
    (∃ s : State UInt16, (machine oneSession Proxy.plainCodes).run (init oneSession)
        (activeRun ++ [.env .signal]) = some s ∧ Succeeds oneSession Proxy.plainCodes s) ∧
      ∃ s : State UInt16, (machine oneSession Proxy.plainCodes).run (init oneSession)
        (blockedRun ++ [.env .signal]) = some s ∧ ¬ Succeeds oneSession Proxy.plainCodes s := by
  constructor
  · have hrun : ∃ s : State UInt16, ∃ r, (machine oneSession Proxy.plainCodes).run
        (init oneSession) (activeRun ++ [.env .signal]) = some s ∧
        s.shared.main = .stopping ∧ s.shared.startupFailed = false ∧ s.procs = [r] ∧
        r.phase.connects = false ∧ r.phase.blocked = false :=
      ⟨_, _, rfl, rfl, rfl, rfl, rfl, rfl⟩
    obtain ⟨s, r, hs, hmain, hfailed, hprocs, hc, hb⟩ := hrun
    refine ⟨s, hs, (shutdown_succeeds_iff ⟨_, hs⟩ (Or.inl hmain)).mpr ⟨hfailed, fun q hq => ?_⟩⟩
    rw [hprocs] at hq
    rw [List.mem_singleton.mp hq]
    exact ⟨hc, hb⟩
  · have hrun : ∃ s : State UInt16, ∃ r, (machine oneSession Proxy.plainCodes).run
        (init oneSession) (blockedRun ++ [.env .signal]) = some s ∧
        s.shared.main = .stopping ∧ s.procs = [r] ∧ r.phase.blocked = true :=
      ⟨_, _, rfl, rfl, rfl, rfl⟩
    obtain ⟨s, r, hs, hmain, hprocs, hb⟩ := hrun
    refine ⟨s, hs, fun hsucceeds => ?_⟩
    have hfree := (shutdown_succeeds_iff ⟨_, hs⟩ (Or.inl hmain)).mp hsucceeds
    rw [(hfree.2 r (by simp [hprocs])).2] at hb
    cases hb

end Pinokio.Server
