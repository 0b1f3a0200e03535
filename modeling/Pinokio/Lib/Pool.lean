/-
# Pinokio.Lib.Pool -- interleaved processes over a shared state

A `Program` says what one process does to the shared state in one atomic step,
how new processes look and what the environment may do. Its pool interleaves
any number of processes: each action names the process that moves. The pool is
a `Machine`, so runs and invariants come from there. Added here are the facts
about a list of processes in which one entry is replaced: what the others keep
(the frame) and how the number of processes with a property changes.
-/
import Pinokio.Lib.Machine
import Mathlib.Algebra.Order.Group.Nat
import Mathlib.Data.Finset.Card
import Mathlib.Data.Finset.Range
import Mathlib.Data.List.Basic
import Mathlib.Data.List.Induction

universe u v w x

/-- What one process does: `act` is one atomic step of the process with a given
index, `env` a step of the environment, `fresh` the states a process may start in. -/
structure Program (S : Type u) (L : Type v) (A : Type w) (E : Type x) where
  act : S → Nat → L → A → Option (S × L)
  env : S → List L → E → Option S
  fresh : L → Bool

namespace Pool

variable {S : Type u} {L : Type v} {A : Type w} {E : Type x}

/-- The shared state and the processes, each named by its position. -/
structure State (S : Type u) (L : Type v) where
  shared : S
  procs : List L

/-- A process is added, moves, or the environment moves. -/
inductive Action (L : Type v) (A : Type w) (E : Type x) where
  | spawn (c : L)
  | act (i : Nat) (a : A)
  | env (e : E)
  deriving DecidableEq, Repr

/-- What the processes do in an action. -/
def Action.ofProcs : Action L A E → List (L ⊕ Nat × A)
  | .spawn c => [.inl c]
  | .act i a => [.inr (i, a)]
  | .env _ => []

/-- One atomic step of the interleaving. -/
def step (P : Program S L A E) (s : State S L) : Action L A E → Option (State S L)
  | .spawn c => if P.fresh c then some { s with procs := s.procs ++ [c] } else none
  | .act i a =>
    (s.procs[i]?).bind fun c =>
      (P.act s.shared i c a).map fun r => { shared := r.1, procs := s.procs.set i r.2 }
  | .env e => (P.env s.shared s.procs e).map fun shared => { s with shared }

/-- The interleaving of any number of processes of a program. -/
def machine (P : Program S L A E) : Machine (State S L) (Action L A E) := ⟨step P⟩

variable {P : Program S L A E} {s s' : State S L}

theorem step_spawn {c : L} :
    (machine P).step s (.spawn c) = some s' ↔
      P.fresh c = true ∧ s' = { s with procs := s.procs ++ [c] } := by
  simp only [machine, step]
  by_cases hc : P.fresh c = true
  · simp only [hc, if_true, Option.some.injEq, true_and]
    exact eq_comm
  · simp [hc]

theorem step_act {i : Nat} {a : A} :
    (machine P).step s (.act i a) = some s' ↔
      ∃ c shared c', s.procs[i]? = some c ∧ P.act s.shared i c a = some (shared, c') ∧
        s' = { shared, procs := s.procs.set i c' } := by
  simp only [machine, step, Option.bind_eq_some_iff, Option.map_eq_some_iff, Prod.exists]
  constructor
  · rintro ⟨c, hc, shared, c', hact, rfl⟩
    exact ⟨c, shared, c', hc, hact, rfl⟩
  · rintro ⟨c, shared, c', hc, hact, rfl⟩
    exact ⟨c, hc, shared, c', hact, rfl⟩

theorem step_env {e : E} :
    (machine P).step s (.env e) = some s' ↔
      ∃ shared, P.env s.shared s.procs e = some shared ∧ s' = { s with shared } := by
  simp only [machine, step, Option.map_eq_some_iff]
  constructor
  · rintro ⟨shared, henv, rfl⟩
    exact ⟨shared, henv, rfl⟩
  · rintro ⟨shared, henv, rfl⟩
    exact ⟨shared, henv, rfl⟩

/-! ## One entry replaced -/

section Frame

variable {l : List L} {i j : Nat} {c c' d : L}

/-- Reading the pool after process `i` moved: its own new state, or another
process as it was. -/
theorem getElem?_set_cases (h : (l.set i c')[j]? = some d) :
    (j = i ∧ d = c') ∨ (j ≠ i ∧ l[j]? = some d) := by
  by_cases hij : i = j
  · subst hij
    rw [List.getElem?_set_self'] at h
    cases hl : l[i]? with
    | none => simp [hl] at h
    | some _ => exact Or.inl ⟨rfl, by simpa [hl, eq_comm] using h⟩
  · rw [List.getElem?_set_ne hij] at h
    exact Or.inr ⟨fun hji => hij hji.symm, h⟩

theorem getElem?_set_of_some (h : l[i]? = some c) (c' : L) : (l.set i c')[i]? = some c' := by
  have hi : i < l.length := (List.getElem?_eq_some_iff.mp h).1
  simp [hi]

/-- Reading the pool after a process was added. -/
theorem getElem?_append_cases (h : (l ++ [c])[j]? = some d) :
    (j = l.length ∧ d = c) ∨ l[j]? = some d := by
  rcases lt_trichotomy j l.length with hj | rfl | hj
  · rw [List.getElem?_append_left hj] at h
    exact Or.inr h
  · rw [List.getElem?_concat_length] at h
    exact Or.inl ⟨rfl, (Option.some.inj h).symm⟩
  · have hlen : (l ++ [c]).length ≤ j := by simp; omega
    rw [List.getElem?_eq_none hlen] at h
    cases h

/-- Where a process of the pool comes from in one step: it was just added, it moved,
or it is as it was. -/
theorem step_proc {e : Action L A E} (h : (machine P).step s e = some s')
    (hd : s'.procs[i]? = some d) :
    (e = .spawn d ∧ P.fresh d = true) ∨
      (∃ a c, e = .act i a ∧ s.procs[i]? = some c ∧
        P.act s.shared i c a = some (s'.shared, d)) ∨
      (s.procs[i]? = some d ∧ ∀ a, e ≠ .act i a) := by
  cases e with
  | spawn c =>
      obtain ⟨hfresh, rfl⟩ := step_spawn.mp h
      rcases getElem?_append_cases hd with ⟨-, rfl⟩ | hd
      · exact Or.inl ⟨rfl, hfresh⟩
      · exact Or.inr (Or.inr ⟨hd, fun a ha => by cases ha⟩)
  | act j a =>
      obtain ⟨c, shared, c', hc, hact, rfl⟩ := step_act.mp h
      rcases getElem?_set_cases hd with ⟨rfl, rfl⟩ | ⟨hne, hd⟩
      · exact Or.inr (Or.inl ⟨a, c, rfl, hc, hact⟩)
      · refine Or.inr (Or.inr ⟨hd, fun b hb => hne ?_⟩)
        cases hb
        rfl
  | env e =>
      obtain ⟨shared, henv, rfl⟩ := step_env.mp h
      exact Or.inr (Or.inr ⟨hd, fun a ha => by cases ha⟩)

/-- What becomes of a process of the pool in one step: it moves, or it stays as it is. -/
theorem step_proc_next {e : Action L A E} (h : (machine P).step s e = some s')
    (hc : s.procs[i]? = some c) :
    (∃ a c', e = .act i a ∧ P.act s.shared i c a = some (s'.shared, c') ∧
        s'.procs[i]? = some c') ∨
      (s'.procs[i]? = some c ∧ ∀ a, e ≠ .act i a) := by
  have hi : i < s.procs.length := (List.getElem?_eq_some_iff.mp hc).1
  have hd : ∃ d, s'.procs[i]? = some d := by
    have hlen : s.procs.length ≤ s'.procs.length := by
      cases e with
      | spawn c =>
          obtain ⟨-, rfl⟩ := step_spawn.mp h
          simp
      | act j a =>
          obtain ⟨_, _, _, -, -, rfl⟩ := step_act.mp h
          simp
      | env e =>
          obtain ⟨_, -, rfl⟩ := step_env.mp h
          exact Nat.le_refl _
    exact ⟨_, List.getElem?_eq_getElem (lt_of_lt_of_le hi hlen)⟩
  obtain ⟨d, hd⟩ := hd
  rcases step_proc h hd with ⟨rfl, -⟩ | ⟨a, c₀, rfl, hc₀, hact⟩ | ⟨hsame, hne⟩
  · obtain ⟨-, rfl⟩ := step_spawn.mp h
    rw [List.getElem?_append_left hi] at hd
    exact Or.inr ⟨by rw [List.getElem?_append_left hi]; exact hc, fun a ha => by cases ha⟩
  · obtain rfl := Option.some.inj (hc₀.symm.trans hc)
    exact Or.inl ⟨a, d, rfl, hact, hd⟩
  · obtain rfl := Option.some.inj (hsame.symm.trans hc)
    exact Or.inr ⟨hd, hne⟩

/-- A property that a new process has and that its own steps keep. -/
theorem step_forall {K : L → Prop} {e : Action L A E} (h : (machine P).step s e = some s')
    (hfresh : ∀ d, P.fresh d = true → K d)
    (hact : ∀ a c d, e = .act i a → P.act s.shared i c a = some (s'.shared, d) →
      s.procs[i]? = some c → K c → K d)
    (hK : ∀ c, s.procs[i]? = some c → K c) : ∀ d, s'.procs[i]? = some d → K d := by
  intro d hd
  rcases step_proc h hd with ⟨-, hnew⟩ | ⟨a, c, he, hc, hmove⟩ | ⟨hsame, -⟩
  · exact hfresh d hnew
  · exact hact a c d he hmove hc (hK c hc)
  · exact hK d hsame

/-- A process that is there stays there, with a property that its own steps keep. -/
theorem step_exists {K : L → Prop} {e : Action L A E} (h : (machine P).step s e = some s')
    (hact : ∀ a c d, e = .act i a → P.act s.shared i c a = some (s'.shared, d) →
      s.procs[i]? = some c → K c → K d)
    (hK : ∃ c, s.procs[i]? = some c ∧ K c) : ∃ d, s'.procs[i]? = some d ∧ K d := by
  obtain ⟨c, hc, hKc⟩ := hK
  rcases step_proc_next h hc with ⟨a, d, he, hmove, hd⟩ | ⟨hsame, -⟩
  · exact ⟨d, hd, hact a c d he hmove hc hKc⟩
  · exact ⟨c, hsame, hKc⟩

/-- The process that an action adds. -/
def Action.arrival : Action L A E → Option L
  | .spawn c => some c
  | _ => none

/-- The processes that a run adds, in order. -/
def arrivals (as : List (Action L A E)) : List L := as.filterMap Action.arrival

theorem arrivals_cons (e : Action L A E) (as : List (Action L A E)) :
    arrivals (e :: as) = e.arrival.toList ++ arrivals as := by
  cases e <;> rfl

theorem arrivals_concat (as : List (Action L A E)) (e : Action L A E) :
    arrivals (as ++ [e]) = arrivals as ++ e.arrival.toList := by
  rw [arrivals, List.filterMap_append]
  cases e <;> rfl

/-- In a pool that was empty, each process is what became of the arrival in its place, by steps
that keep the relation `R` to it. -/
theorem run_arrivals {R : L → L → Prop} (hfresh : ∀ c, P.fresh c = true → R c c)
    (hact : ∀ s i c d a s' d', R c d → P.act s i d a = some (s', d') → R c d') {s₀ : S}
    {as : List (Action L A E)}
    (hrun : (machine P).run { shared := s₀, procs := [] } as = some s) :
    s.procs.length = (arrivals as).length ∧
      ∀ (i : Nat) (d : L), s.procs[i]? = some d → ∃ c, (arrivals as)[i]? = some c ∧ R c d := by
  refine Machine.run_history (I := fun as (s : State S L) =>
    s.procs.length = (arrivals as).length ∧
      ∀ (i : Nat) (d : L), s.procs[i]? = some d → ∃ c, (arrivals as)[i]? = some c ∧ R c d)
    ?_ hrun ⟨rfl, fun i d hd => by cases hd⟩
  rintro as s e s' hst ⟨hlen, hR⟩
  have hlen' : s'.procs.length = (arrivals (as ++ [e])).length := by
    rw [arrivals_concat, List.length_append, ← hlen]
    cases e with
    | spawn c =>
        obtain ⟨-, rfl⟩ := step_spawn.mp hst
        exact List.length_append
    | act j a =>
        obtain ⟨_, _, _, -, -, rfl⟩ := step_act.mp hst
        exact List.length_set
    | env e =>
        obtain ⟨_, -, rfl⟩ := step_env.mp hst
        rfl
  have hold : ∀ (i : Nat) (d : L), (∃ c, (arrivals as)[i]? = some c ∧ R c d) →
      ∃ c, (arrivals (as ++ [e]))[i]? = some c ∧ R c d := by
    rintro i d ⟨c, hc, hcd⟩
    refine ⟨c, ?_, hcd⟩
    rw [arrivals_concat, List.getElem?_append_left (List.getElem?_eq_some_iff.mp hc).1]
    exact hc
  refine ⟨hlen', fun i d hd => ?_⟩
  rcases step_proc hst hd with ⟨rfl, hnew⟩ | ⟨a, d₀, rfl, hd₀, hmove⟩ | ⟨hsame, -⟩
  · obtain ⟨-, rfl⟩ := step_spawn.mp hst
    rcases getElem?_append_cases hd with ⟨rfl, -⟩ | hd
    · refine ⟨d, ?_, hfresh d hnew⟩
      rw [arrivals_concat, hlen]
      exact List.getElem?_concat_length
    · exact hold i d (hR i d hd)
  · obtain ⟨c, hc, hcd⟩ := hR i d₀ hd₀
    exact hold i d ⟨c, hc, hact _ _ _ _ _ _ _ hcd hmove⟩
  · exact hold i d (hR i d hsame)

/-- The number of processes with a property, before and after one of them moved. -/
theorem countP_set_balance (p : L → Bool) (h : l[i]? = some c) (c' : L) :
    (l.set i c').countP p + (if p c then 1 else 0) = l.countP p + (if p c' then 1 else 0) := by
  obtain ⟨hi, rfl⟩ := List.getElem?_eq_some_iff.mp h
  rw [List.countP_set hi]
  have hpos : (if p l[i] = true then 1 else 0) ≤ l.countP p := by
    split
    · exact List.countP_pos_iff.mpr ⟨l[i], List.getElem_mem hi, by assumption⟩
    · exact Nat.zero_le _
  omega

/-- A process with a property is counted. -/
theorem countP_pos_of_getElem? {p : L → Bool} (h : l[i]? = some c) (hp : p c = true) :
    0 < l.countP p := by
  exact List.countP_pos_iff.mpr ⟨c, List.mem_of_getElem? h, hp⟩

/-- The processes with a property, counted by their positions. -/
theorem card_filter_range (p : L → Bool) (l : List L) :
    ((Finset.range l.length).filter fun i => (l[i]?).any p = true).card = l.countP p := by
  induction l using List.reverseRecOn with
  | nil => rfl
  | append_singleton l c ih =>
      have hold : ((Finset.range l.length).filter fun i => ((l ++ [c])[i]?).any p = true)
          = (Finset.range l.length).filter fun i => (l[i]?).any p = true := by
        refine Finset.filter_congr fun i hi => ?_
        rw [List.getElem?_append_left (Finset.mem_range.mp hi)]
      have hlast : ((l ++ [c])[l.length]?).any p = p c := by simp
      rw [List.length_append, List.length_singleton, Finset.range_add_one, Finset.filter_insert,
        hold, List.countP_append, hlast]
      by_cases hc : p c = true
      · rw [if_pos hc, Finset.card_insert_of_notMem (by simp), ih]
        simp [hc]
      · rw [if_neg hc, ih]
        simp [hc]

/-- If each process with a property can be led to where it is without it, while all others
stay as they are, then all of them can, one after the other. -/
theorem exists_clear {Q : State S L → Action L A E → Prop} {I : State S L → Prop} (p : L → Bool)
    (hlead : ∀ s i c, I s → s.procs[i]? = some c → p c = true →
      ∃ as s' c', Machine.Along Q (machine P) s as ∧ (machine P).run s as = some s' ∧
        s'.procs = s.procs.set i c' ∧ p c' = false ∧ I s')
    (hI : I s) :
    ∃ as s', Machine.Along Q (machine P) s as ∧ (machine P).run s as = some s' ∧ I s' ∧
      ∀ c ∈ s'.procs, p c = false := by
  induction hn : s.procs.countP p generalizing s with
  | zero =>
      refine ⟨[], s, trivial, rfl, hI, fun c hc => ?_⟩
      simpa using List.countP_eq_zero.mp hn c hc
  | succ n ih =>
      obtain ⟨c, hc, hp⟩ : ∃ c ∈ s.procs, p c = true :=
        List.countP_pos_iff.mp (hn ▸ Nat.succ_pos n)
      obtain ⟨i, hi⟩ := List.mem_iff_getElem?.mp hc
      obtain ⟨as, t, c', hAlong, hrun, hprocs, hp', hI'⟩ := hlead s i c hI hi hp
      have hcount : t.procs.countP p = n := by
        have hbalance := countP_set_balance p hi c'
        rw [← hprocs, hn, if_pos hp, if_neg (by simp [hp'])] at hbalance
        exact Nat.succ.inj hbalance
      obtain ⟨bs, s', hAlong', hrun', hend⟩ := ih hI' hcount
      exact ⟨as ++ bs, s', (Machine.along_append hrun).mpr ⟨hAlong, hAlong'⟩,
        (Machine.run_append_iff _).mpr ⟨t, hrun, hrun'⟩, hend⟩

/-- A step of process `i` that `Q` allows it. -/
def Own (Q : L → A → Prop) (i : Nat) (s : State S L) (e : Action L A E) : Prop :=
  ∃ a c, e = .act i a ∧ s.procs[i]? = some c ∧ Q c a

/-- The progress rule for one process: if wherever it is not done it has an allowed step
that keeps the invariant and brings it nearer, then such steps of its own bring it to where
it is done, no more of them than it was away. -/
theorem exists_own_run (P : Program S L A E) {Q : L → A → Prop} {I : S → L → Prop}
    (Done : S → L → Prop) (rank : S → L → Nat)
    (hstep : ∀ x c, I x c → Done x c ∨ ∃ a y d, Q c a ∧ P.act x i c a = some (y, d) ∧ I y d ∧
      rank y d < rank x c)
    (hc : s.procs[i]? = some c) (hI : I s.shared c) :
    ∃ as s' d, as.length ≤ rank s.shared c ∧ Machine.Along (Own Q i) (machine P) s as ∧
      (machine P).run s as = some s' ∧ s'.procs[i]? = some d ∧ I s'.shared d ∧
      Done s'.shared d := by
  have hprogress := Machine.exists_run_of_rank (M := machine P) (P := Own Q i)
    (I := fun t : State S L => ∃ d, t.procs[i]? = some d ∧ I t.shared d)
    (fun t : State S L => ∃ d, t.procs[i]? = some d ∧ Done t.shared d)
    (fun t : State S L => (t.procs[i]?.map (rank t.shared)).getD 0) ?_ ⟨c, hc, hI⟩
  · obtain ⟨as, s', hlen, hAlong, hrun, ⟨d, hd, hId⟩, d', hd', hdone⟩ := hprogress
    obtain rfl := Option.some.inj (hd.symm.trans hd')
    exact ⟨as, s', d, by simpa [hc] using hlen, hAlong, hrun, hd, hId, hdone⟩
  · rintro t ⟨d, hd, hId⟩
    rcases hstep t.shared d hId with hdone | ⟨a, y, d', hQ, hact, hId', hlt⟩
    · exact Or.inl ⟨d, hd, hdone⟩
    · have hd' : (t.procs.set i d')[i]? = some d' := getElem?_set_of_some hd d'
      exact Or.inr ⟨.act i a, _, ⟨a, d, rfl, hd, hQ⟩,
        step_act.mpr ⟨d, y, d', hd, hact, rfl⟩, ⟨d', hd', hId'⟩, by simpa [hd, hd'] using hlt⟩

end Frame

/-! ## Projections -/

universe u' v' w' x'

variable {T : Type u'} {M : Type v'} {B : Type w'} {F : Type x'}

/-- What a part of the shared state and of each process is. -/
def State.map (f : S → T) (g : L → M) (s : State S L) : State T M :=
  { shared := f s.shared, procs := s.procs.map g }

/-- Seen through `f` and `g`, each step of `P` is one step of `Q` or none. -/
structure Projects (P : Program S L A E) (Q : Program T M B F) (f : S → T) (g : L → M) :
    Prop where
  fresh : ∀ c, P.fresh c = true → Q.fresh (g c) = true
  act : ∀ s i c a s' c', P.act s i c a = some (s', c') →
    (f s' = f s ∧ g c' = g c) ∨ ∃ b, Q.act (f s) i (g c) b = some (f s', g c')
  env : ∀ s l e s', P.env s l e = some s' →
    f s' = f s ∨ ∃ e', Q.env (f s) (l.map g) e' = some (f s')

theorem map_set_of_eq {g : L → M} {l : List L} {i : Nat} {c c' : L} (h : l[i]? = some c)
    (hg : g c' = g c) : (l.set i c').map g = l.map g := by
  obtain ⟨hi, rfl⟩ := List.getElem?_eq_some_iff.mp h
  rw [List.map_set, hg, ← List.getElem_map g (h := by simpa using hi), List.set_getElem_self]

/-- A pool whose steps project simulates the pool it projects to. -/
theorem Projects.simulates {P : Program S L A E} {Q : Program T M B F} {f : S → T} {g : L → M}
    (h : Projects P Q f g) :
    Machine.Simulates (machine P) (machine Q) (fun _ => True) (State.map f g) where
  preserved _ _ _ _ _ := trivial
  matched s a s' hst _ := by
    cases a with
    | spawn c =>
        obtain ⟨hc, rfl⟩ := step_spawn.mp hst
        refine (Machine.Reachable.refl _).tail (a := .spawn (g c)) (step_spawn.mpr ⟨h.fresh c hc, ?_⟩)
        simp [State.map]
    | act i a =>
        obtain ⟨c, shared, c', hc, hact, rfl⟩ := step_act.mp hst
        have hgc : (s.procs.map g)[i]? = some (g c) := by simp [hc]
        rcases h.act _ _ _ _ _ _ hact with ⟨hf, hg⟩ | ⟨b, hb⟩
        · have heq : State.map f g { shared, procs := s.procs.set i c' } = State.map f g s := by
            simp only [State.map, hf, map_set_of_eq hc hg]
          rw [heq]
          exact Machine.Reachable.refl _
        · refine (Machine.Reachable.refl _).tail (a := .act i b)
            (step_act.mpr ⟨g c, f shared, g c', hgc, hb, ?_⟩)
          simp [State.map, List.map_set]
    | env e =>
        obtain ⟨shared, henv, rfl⟩ := step_env.mp hst
        rcases h.env _ _ _ _ henv with hf | ⟨e', he'⟩
        · have heq : State.map f g { s with shared } = State.map f g s := by
            simp only [State.map, hf]
          rw [heq]
          exact Machine.Reachable.refl _
        · exact (Machine.Reachable.refl _).tail (a := .env e')
            (step_env.mpr ⟨f shared, he', rfl⟩)

end Pool
