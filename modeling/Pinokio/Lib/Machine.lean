/-
# Pinokio.Lib.Machine -- machines with explicit actions, their runs and their invariants

A machine answers an action in a state with the next state, or refuses it. All
nondeterminism (scheduling, timers, peers, failures) is in the choice of the
actions, so a run is the list of the actions taken and a concrete run can be
evaluated. The rules here are the ones every development over such a machine
needs: runs compose, an inductive invariant holds in every reachable state, a
condition can be required of every step of a run, and a forward simulation
carries runs of one machine to runs of another.
-/
import Mathlib.Data.List.Basic
import Mathlib.Data.List.Induction
import Mathlib.Data.Option.Basic

universe u v w x

/-- A machine over states `σ` and actions `α`; `none` means that the action is
not enabled. -/
structure Machine (σ : Type u) (α : Type v) where
  step : σ → α → Option σ

namespace Machine

variable {σ : Type u} {α : Type v} {τ : Type w} {β : Type x}
variable (M : Machine σ α)

/-! ## Runs -/

/-- The state after a list of actions, when every one of them is enabled in turn. -/
def run : σ → List α → Option σ
  | s, [] => some s
  | s, a :: as => (M.step s a).bind fun s' => run s' as

/-- The states a run passes through, the first one included; the list stops
where an action is refused. -/
def trace : σ → List α → List σ
  | s, [] => [s]
  | s, a :: as =>
    match M.step s a with
    | some s' => s :: trace s' as
    | none => [s]

/-- Some run leads from `s₀` to `s`. -/
def Reachable (s₀ s : σ) : Prop := ∃ as, M.run s₀ as = some s

@[simp] theorem run_nil (s : σ) : M.run s [] = some s := rfl

theorem run_cons (s : σ) (a : α) (as : List α) :
    M.run s (a :: as) = (M.step s a).bind fun s' => M.run s' as := rfl

theorem run_cons_iff {s u : σ} {a : α} {as : List α} :
    M.run s (a :: as) = some u ↔ ∃ t, M.step s a = some t ∧ M.run t as = some u := by
  simp [run_cons, Option.bind_eq_some_iff]

theorem run_append_iff {s u : σ} {as bs : List α} :
    M.run s (as ++ bs) = some u ↔ ∃ t, M.run s as = some t ∧ M.run t bs = some u := by
  induction as generalizing s with
  | nil => simp
  | cons a as ih =>
    simp only [List.cons_append, run_cons_iff, ih]
    constructor
    · rintro ⟨t, ht, v, hv, hu⟩
      exact ⟨v, ⟨t, ht, hv⟩, hu⟩
    · rintro ⟨v, ⟨t, ht, hv⟩, hu⟩
      exact ⟨t, ht, v, hv, hu⟩

theorem run_singleton {s u : σ} {a : α} : M.run s [a] = some u ↔ M.step s a = some u := by
  simp [run_cons_iff]

theorem run_concat_iff {s u : σ} {as : List α} {a : α} :
    M.run s (as ++ [a]) = some u ↔ ∃ t, M.run s as = some t ∧ M.step t a = some u := by
  simp [run_append_iff, run_singleton]

variable {M}

theorem Reachable.refl (s : σ) : M.Reachable s s := ⟨[], rfl⟩

theorem Reachable.trans {s t u : σ} (h : M.Reachable s t) (h' : M.Reachable t u) :
    M.Reachable s u := by
  obtain ⟨as, has⟩ := h
  obtain ⟨bs, hbs⟩ := h'
  exact ⟨as ++ bs, M.run_append_iff.mpr ⟨t, has, hbs⟩⟩

theorem Reachable.tail {s t u : σ} {a : α} (h : M.Reachable s t) (h' : M.step t a = some u) :
    M.Reachable s u :=
  h.trans ⟨[a], M.run_singleton.mpr h'⟩

/-! ## Repeating one action -/

/-- Some number of steps of one action leads from `s` to `s'`. -/
def Repeats (M : Machine σ α) (a : α) (s s' : σ) : Prop :=
  ∃ n, M.run s (List.replicate n a) = some s'

theorem Repeats.refl (a : α) (s : σ) : M.Repeats a s s := ⟨0, rfl⟩

theorem Repeats.head {a : α} {s t u : σ} (hst : M.step s a = some t) (h : M.Repeats a t u) :
    M.Repeats a s u := by
  obtain ⟨n, hn⟩ := h
  refine ⟨n + 1, ?_⟩
  rw [List.replicate_succ]
  exact M.run_cons_iff.mpr ⟨t, hst, hn⟩

theorem Repeats.trans {a : α} {s t u : σ} (h : M.Repeats a s t) (h' : M.Repeats a t u) :
    M.Repeats a s u := by
  obtain ⟨n, hn⟩ := h
  obtain ⟨m, hm⟩ := h'
  refine ⟨n + m, ?_⟩
  rw [List.replicate_add]
  exact M.run_append_iff.mpr ⟨t, hn, hm⟩

/-! ## Invariants -/

/-- What every enabled step preserves, every run preserves. -/
theorem run_invariant {I : σ → Prop}
    (hstep : ∀ s a s', M.step s a = some s' → I s → I s')
    {s s' : σ} {as : List α} (hrun : M.run s as = some s') (hs : I s) : I s' := by
  induction as generalizing s with
  | nil => simpa using (Option.some.inj hrun) ▸ hs
  | cons a as ih =>
    obtain ⟨t, hst, ht⟩ := M.run_cons_iff.mp hrun
    exact ih ht (hstep _ _ _ hst hs)

/-- The invariant rule for reachable states. -/
theorem Reachable.invariant {I : σ → Prop} {s₀ s : σ} (h : M.Reachable s₀ s) (h₀ : I s₀)
    (hstep : ∀ s a s', M.step s a = some s' → I s → I s') : I s := by
  obtain ⟨as, has⟩ := h
  exact run_invariant hstep has h₀

/-- The same for an invariant that speaks of the actions that led to the state, too. -/
theorem run_history {I : List α → σ → Prop} {s₀ s : σ} {as : List α}
    (hstep : ∀ as s a s', M.step s a = some s' → I as s → I (as ++ [a]) s')
    (hrun : M.run s₀ as = some s) (h₀ : I [] s₀) : I as s := by
  induction as using List.reverseRecOn generalizing s with
  | nil =>
    obtain rfl : s₀ = s := Option.some.inj hrun
    exact h₀
  | append_singleton as a ih =>
    obtain ⟨t, ht, hst⟩ := M.run_concat_iff.mp hrun
    exact hstep as t a s hst (ih ht)

/-- Every state a run passes through is reachable from its start. -/
theorem reachable_of_mem_trace {s t : σ} {as : List α} (h : t ∈ M.trace s as) :
    M.Reachable s t := by
  induction as generalizing s with
  | nil =>
    obtain rfl : t = s := by simpa [trace] using h
    exact Reachable.refl t
  | cons a as ih =>
    cases hst : M.step s a with
    | none =>
      obtain rfl : t = s := by simpa [trace, hst] using h
      exact Reachable.refl t
    | some s' =>
      rcases List.mem_cons.mp (by simpa [trace, hst] using h) with rfl | h
      · exact Reachable.refl t
      · exact (Reachable.tail (Reachable.refl s) hst).trans (ih h)

theorem trace_concat {s t u : σ} {as : List α} {a : α} (hrun : M.run s as = some t)
    (hst : M.step t a = some u) : M.trace s (as ++ [a]) = M.trace s as ++ [u] := by
  induction as generalizing s with
  | nil =>
    obtain rfl : s = t := Option.some.inj hrun
    simp [trace, hst]
  | cons b as ih =>
    obtain ⟨v, hv, htail⟩ := M.run_cons_iff.mp hrun
    simp [trace, hv, ih htail]

theorem mem_trace_of_run {s t : σ} {as : List α} (hrun : M.run s as = some t) :
    t ∈ M.trace s as := by
  induction as generalizing s with
  | nil =>
    obtain rfl : s = t := Option.some.inj hrun
    simp [trace]
  | cons a as ih =>
    obtain ⟨u, hst, ht⟩ := M.run_cons_iff.mp hrun
    simp [trace, hst, ih ht]

/-- A state that a run passes through splits the run. -/
theorem exists_split_of_mem_trace {s t u : σ} {as : List α} (hrun : M.run s as = some u)
    (ht : t ∈ M.trace s as) :
    ∃ bs cs, as = bs ++ cs ∧ M.run s bs = some t ∧ M.run t cs = some u := by
  induction as generalizing s with
  | nil =>
    obtain rfl : t = s := by simpa [trace] using ht
    exact ⟨[], [], rfl, rfl, hrun⟩
  | cons a as ih =>
    obtain ⟨v, hst, hv⟩ := M.run_cons_iff.mp hrun
    rcases List.mem_cons.mp (by simpa [trace, hst] using ht) with rfl | ht
    · exact ⟨[], a :: as, rfl, rfl, hrun⟩
    · obtain ⟨bs, cs, rfl, hbs, hcs⟩ := ih hv ht
      exact ⟨a :: bs, cs, rfl, M.run_cons_iff.mpr ⟨v, hst, hbs⟩, hcs⟩

/-- A run into a set of states from outside has a step that enters it. -/
theorem exists_entry {P : σ → Prop} {s s' : σ} {as : List α} (hrun : M.run s as = some s')
    (hs : ¬ P s) (hs' : P s') :
    ∃ bs a cs t u, as = bs ++ a :: cs ∧ M.run s bs = some t ∧ M.step t a = some u ∧
      M.run u cs = some s' ∧ ¬ P t ∧ P u := by
  induction as generalizing s with
  | nil => exact absurd (Option.some.inj hrun ▸ hs') hs
  | cons a as ih =>
    obtain ⟨u, hst, hu⟩ := M.run_cons_iff.mp hrun
    by_cases hPu : P u
    · exact ⟨[], a, as, s, u, rfl, rfl, hst, hu, hs, hPu⟩
    · obtain ⟨bs, b, cs, t, v, rfl, ht, htv, hv, hPt, hPv⟩ := ih hu hPu
      exact ⟨a :: bs, b, cs, t, v, rfl, M.run_cons_iff.mpr ⟨u, hst, ht⟩, htv, hv, hPt, hPv⟩

/-! ## Conditions on every step of a run -/

/-- `P` holds of every step of the run of `as` from `s`: of the state before
the step and the action taken in it. -/
def Along (P : σ → α → Prop) : (M : Machine σ α) → σ → List α → Prop
  | _, _, [] => True
  | M, s, a :: as => P s a ∧ ∀ s', M.step s a = some s' → Along P M s' as

theorem along_cons {P : σ → α → Prop} {s s' : σ} {a : α} {as : List α}
    (h : Along P M s (a :: as)) (hst : M.step s a = some s') : P s a ∧ Along P M s' as :=
  ⟨h.1, h.2 s' hst⟩

theorem along_cons_of_step {P : σ → α → Prop} {s t : σ} {a : α} {as : List α} (hP : P s a)
    (hst : M.step s a = some t) (h : Along P M t as) : Along P M s (a :: as) :=
  ⟨hP, fun _ hs' => Option.some.inj (hst.symm.trans hs') ▸ h⟩

theorem along_of_forall {P : σ → α → Prop} {as : List α} (h : ∀ a ∈ as, ∀ s, P s a) (s : σ) :
    Along P M s as := by
  induction as generalizing s with
  | nil => trivial
  | cons a as ih =>
    exact ⟨h a List.mem_cons_self s, fun t _ => ih (fun b hb => h b (List.mem_cons_of_mem a hb)) t⟩

theorem along_mono {P Q : σ → α → Prop} (h : ∀ s a, P s a → Q s a) {s : σ} {as : List α}
    (hP : Along P M s as) : Along Q M s as := by
  induction as generalizing s with
  | nil => trivial
  | cons a as ih => exact ⟨h s a hP.1, fun t ht => ih (hP.2 t ht)⟩

/-- A condition that can be tested can be tested along a run. -/
instance decidableAlong {P : σ → α → Prop} [∀ s a, Decidable (P s a)] (M : Machine σ α) :
    (s : σ) → (as : List α) → Decidable (Along P M s as)
  | _, [] => isTrue trivial
  | s, a :: as =>
    match h : M.step s a with
    | none =>
      decidable_of_iff (P s a)
        ⟨fun hP => ⟨hP, fun t ht => by rw [h] at ht; cases ht⟩, fun hA => hA.1⟩
    | some t =>
      have := decidableAlong (P := P) M t as
      decidable_of_iff (P s a ∧ Along P M t as)
        ⟨fun hA => along_cons_of_step hA.1 h hA.2, fun hA => along_cons hA h⟩

theorem along_append {P : σ → α → Prop} {s t : σ} {as bs : List α}
    (hrun : M.run s as = some t) :
    Along P M s (as ++ bs) ↔ Along P M s as ∧ Along P M t bs := by
  induction as generalizing s with
  | nil =>
    obtain rfl := Option.some.inj hrun
    exact ⟨fun h => ⟨trivial, h⟩, fun h => h.2⟩
  | cons a as ih =>
    obtain ⟨u, hst, hu⟩ := M.run_cons_iff.mp hrun
    constructor
    · intro h
      obtain ⟨hP, hrest⟩ := along_cons h hst
      exact ⟨along_cons_of_step hP hst ((ih hu).mp hrest).1, ((ih hu).mp hrest).2⟩
    · rintro ⟨h, hbs⟩
      obtain ⟨hP, hrest⟩ := along_cons h hst
      exact along_cons_of_step hP hst ((ih hu).mpr ⟨hrest, hbs⟩)

/-- The run rule with a condition on the steps: what every step that meets the
condition preserves, every run whose steps all meet it preserves. -/
theorem run_invariant_along {I : σ → Prop} {P : σ → α → Prop}
    (hstep : ∀ s a s', M.step s a = some s' → P s a → I s → I s')
    {s s' : σ} {as : List α} (hrun : M.run s as = some s') (hP : Along P M s as)
    (hs : I s) : I s' := by
  induction as generalizing s with
  | nil => simpa using (Option.some.inj hrun) ▸ hs
  | cons a as ih =>
    obtain ⟨t, hst, ht⟩ := M.run_cons_iff.mp hrun
    obtain ⟨hPa, hPas⟩ := along_cons hP hst
    exact ih ht hPas (hstep _ _ _ hst hPa hs)

/-- The same for facts about the past: `I h s` says something about the state `s` and the
list `h` of the states passed up to it. -/
theorem run_trace_invariant_along {I : List σ → σ → Prop} {P : σ → α → Prop}
    (hstep : ∀ h s a s', M.step s a = some s' → P s a → s ∈ h → I h s → I (h ++ [s']) s')
    {s₀ s : σ} {as : List α} (hrun : M.run s₀ as = some s) (hP : Along P M s₀ as)
    (h₀ : I [s₀] s₀) : I (M.trace s₀ as) s := by
  induction as using List.reverseRecOn generalizing s with
  | nil =>
    obtain rfl : s₀ = s := Option.some.inj hrun
    exact h₀
  | append_singleton as a ih =>
    obtain ⟨t, ht, hst⟩ := M.run_concat_iff.mp hrun
    obtain ⟨hPas, hPa⟩ := (along_append ht).mp hP
    rw [trace_concat ht hst]
    exact hstep _ _ _ _ hst hPa.1 (mem_trace_of_run ht) (ih ht hPas)

/-- The rule for facts about the past without a condition. -/
theorem run_trace_invariant {I : List σ → σ → Prop} {s₀ s : σ} {as : List α}
    (hstep : ∀ h s a s', M.step s a = some s' → s ∈ h → I h s → I (h ++ [s']) s')
    (hrun : M.run s₀ as = some s) (h₀ : I [s₀] s₀) : I (M.trace s₀ as) s :=
  run_trace_invariant_along (P := fun _ _ => True) (fun h s a s' hst _ => hstep h s a s' hst) hrun
    (along_of_forall (fun _ _ _ => trivial) s₀) h₀

/-- The progress rule: if a state is done or has a step of a kind that keeps the invariant and
brings it nearer, then such steps bring it to where it is done, no more of them than it was
away. -/
theorem exists_run_of_rank {I : σ → Prop} {P : σ → α → Prop} (Done : σ → Prop) (rank : σ → Nat)
    (hstep : ∀ s, I s → Done s ∨
      ∃ a s', P s a ∧ M.step s a = some s' ∧ I s' ∧ rank s' < rank s)
    {s : σ} (hs : I s) :
    ∃ as s', as.length ≤ rank s ∧ Along P M s as ∧ M.run s as = some s' ∧ I s' ∧ Done s' := by
  induction hn : rank s using Nat.strongRecOn generalizing s with
  | ind n ih =>
    rcases hstep s hs with hdone | ⟨a, t, hP, hst, ht, hlt⟩
    · exact ⟨[], s, Nat.zero_le _, trivial, rfl, hs, hdone⟩
    · obtain ⟨as, s', hlen, hAlong, hrun, hend⟩ := ih (rank t) (hn ▸ hlt) ht rfl
      refine ⟨a :: as, s', ?_, along_cons_of_step hP hst hAlong,
        M.run_cons_iff.mpr ⟨t, hst, hrun⟩, hend⟩
      rw [List.length_cons]
      omega

/-- A run that does not meet a condition has a first step that breaks it. -/
theorem exists_break_of_not_along {P : σ → α → Prop} {s s' : σ} {as : List α}
    (hrun : M.run s as = some s') (h : ¬ Along P M s as) :
    ∃ bs a cs t u, as = bs ++ a :: cs ∧ M.run s bs = some t ∧ Along P M s bs ∧ ¬ P t a ∧
      M.step t a = some u ∧ M.run u cs = some s' := by
  induction as generalizing s with
  | nil => exact absurd trivial h
  | cons a as ih =>
    obtain ⟨t, hst, ht⟩ := M.run_cons_iff.mp hrun
    by_cases hP : P s a
    · have hrest : ¬ Along P M t as := fun hAs => h (along_cons_of_step hP hst hAs)
      obtain ⟨bs, b, cs, u, v, rfl, hbs, hPbs, hb, huv, hv⟩ := ih ht hrest
      exact ⟨a :: bs, b, cs, u, v, rfl, M.run_cons_iff.mpr ⟨t, hst, hbs⟩,
        along_cons_of_step hP hst hPbs, hb, huv, hv⟩
    · exact ⟨[], a, as, s, t, rfl, rfl, trivial, hP, hst, ht⟩

/-! ## What a run shows -/

/-- What the actions of a run show, in order, where `a` taken in `s` shows `f s a`. -/
def observed {γ : Type*} (f : σ → α → List γ) : σ → List α → List γ
  | _, [] => []
  | s, a :: as =>
    f s a ++
      match M.step s a with
      | some s' => observed f s' as
      | none => []

theorem observed_cons {γ : Type*} (f : σ → α → List γ) {s t : σ} {a : α} (as : List α)
    (h : M.step s a = some t) : M.observed f s (a :: as) = f s a ++ M.observed f t as := by
  simp only [observed, h]

/-! ## Simulations -/

/-- A forward simulation along an abstraction function: each step of `M` from a
state that meets the invariant `I` is a run, possibly empty, of `N`. -/
structure Simulates (M : Machine σ α) (N : Machine τ β) (I : σ → Prop) (abs : σ → τ) : Prop where
  preserved : ∀ s a s', M.step s a = some s' → I s → I s'
  matched : ∀ s a s', M.step s a = some s' → I s → N.Reachable (abs s) (abs s')

/-- A simulation carries reachable states to reachable states. -/
theorem Simulates.reachable {N : Machine τ β} {I : σ → Prop} {abs : σ → τ}
    (h : Simulates M N I abs) {s s' : σ} (hs : I s) (hr : M.Reachable s s') :
    N.Reachable (abs s) (abs s') := by
  obtain ⟨as, has⟩ := hr
  induction as generalizing s with
  | nil => simpa using (Option.some.inj has) ▸ Reachable.refl (abs s)
  | cons a as ih =>
    obtain ⟨t, hst, ht⟩ := M.run_cons_iff.mp has
    exact (h.matched _ _ _ hst hs).trans (ih (h.preserved _ _ _ hst hs) ht)

/-- The run rule for a simulation that keeps what the actions show. -/
theorem run_shown {γ : Type*} {N : Machine τ β} {I : σ → Prop} {abs : σ → τ}
    {shown : α → List γ} {shown' : β → List γ}
    (hstep : ∀ s a s', M.step s a = some s' → I s →
      I s' ∧ ∃ bs, N.run (abs s) bs = some (abs s') ∧ bs.flatMap shown' = shown a)
    {s s' : σ} {as : List α} (hrun : M.run s as = some s') (hs : I s) :
    ∃ bs, N.run (abs s) bs = some (abs s') ∧ bs.flatMap shown' = as.flatMap shown := by
  induction as generalizing s with
  | nil =>
    obtain rfl : s = s' := Option.some.inj hrun
    exact ⟨[], rfl, rfl⟩
  | cons a as ih =>
    obtain ⟨t, hst, ht⟩ := M.run_cons_iff.mp hrun
    obtain ⟨hI, bs, hbs, hshown⟩ := hstep _ _ _ hst hs
    obtain ⟨cs, hcs, hshown'⟩ := ih ht hI
    refine ⟨bs ++ cs, N.run_append_iff.mpr ⟨_, hbs, hcs⟩, ?_⟩
    rw [List.flatMap_append, List.flatMap_cons, hshown, hshown']

end Machine
