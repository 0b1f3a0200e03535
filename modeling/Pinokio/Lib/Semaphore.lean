/-
# Pinokio.Lib.Semaphore -- a counting semaphore with a first-in first-out queue

Permits are either available, assigned to a waiter that has not collected its
permit yet, or owned by somebody outside of this structure. A released permit
goes to the oldest waiter; only when nobody waits does it become available. A
waiter whose wait is abandoned leaves the queue, and gives an assigned permit
back the way a release does.

`Wf` is the invariant of the queue, `free` the number of permits that nobody
owns, and `Ahead i j` the order in which two waiters will be served.
-/
import Mathlib.Data.List.Nodup
import Mathlib.Data.List.Basic

universe u

/-- A semaphore whose waiters are named by `ι`, the oldest waiter first. -/
structure Semaphore (ι : Type u) where
  permits : Nat
  waiters : List ι
  assigned : List ι
  deriving DecidableEq, Repr

namespace Semaphore

variable {ι : Type u}

def new (n : Nat) : Semaphore ι := { permits := n, waiters := [], assigned := [] }

/-- Takes an available permit, without ever waiting. -/
def tryAcquire (s : Semaphore ι) : Option (Semaphore ι) :=
  if 0 < s.permits then some { s with permits := s.permits - 1 } else none

/-- Gives a permit back: to the oldest waiter, or to everybody. -/
def release (s : Semaphore ι) : Semaphore ι :=
  match s.waiters with
  | [] => { s with permits := s.permits + 1 }
  | w :: ws => { s with waiters := ws, assigned := w :: s.assigned }

variable [DecidableEq ι]

/-- One poll of the wait of `i`: collects the permit assigned to it, or takes an
available one, or joins the queue. The flag says whether a permit was obtained. -/
def poll (s : Semaphore ι) (i : ι) : Semaphore ι × Bool :=
  if i ∈ s.assigned then ({ s with assigned := s.assigned.erase i }, true)
  else if i ∈ s.waiters then (s, false)
  else if 0 < s.permits then ({ s with permits := s.permits - 1 }, true)
  else ({ s with waiters := s.waiters ++ [i] }, false)

/-- Abandons the wait of `i`. -/
def cancel (s : Semaphore ι) (i : ι) : Semaphore ι :=
  if i ∈ s.assigned then release { s with assigned := s.assigned.erase i }
  else { s with waiters := s.waiters.erase i }

/-- The wait of `i` is in the queue, or over but not collected. -/
def Pending (s : Semaphore ι) (i : ι) : Prop := i ∈ s.waiters ∨ i ∈ s.assigned

/-- The permits that nobody owns. -/
def free (s : Semaphore ι) : Nat := s.permits + s.assigned.length

/-- Nobody waits twice, and nobody waits while a permit is available. -/
structure Wf (s : Semaphore ι) : Prop where
  nodup : (s.waiters ++ s.assigned).Nodup
  idle : 0 < s.permits → s.waiters = []

/-! ## What each operation can do -/

omit [DecidableEq ι] in
theorem tryAcquire_eq_some {s s' : Semaphore ι} :
    s.tryAcquire = some s' ↔ 0 < s.permits ∧ s' = { s with permits := s.permits - 1 } := by
  unfold tryAcquire
  by_cases hp : 0 < s.permits
  · simp only [hp, if_true, Option.some.injEq, true_and]
    exact eq_comm
  · simp [hp]

omit [DecidableEq ι] in
theorem tryAcquire_eq_none {s : Semaphore ι} : s.tryAcquire = none ↔ s.permits = 0 := by
  unfold tryAcquire
  by_cases hp : 0 < s.permits
  · simp only [hp, if_true, reduceCtorEq, false_iff]
    omega
  · simp only [hp, if_false, true_iff]
    omega

omit [DecidableEq ι] in
theorem release_cases (s : Semaphore ι) :
    (s.waiters = [] ∧ s.release = { s with permits := s.permits + 1 }) ∨
    ∃ w ws, s.waiters = w :: ws ∧
      s.release = { s with waiters := ws, assigned := w :: s.assigned } := by
  cases hw : s.waiters with
  | nil => exact Or.inl ⟨rfl, by simp [release, hw]⟩
  | cons w ws => exact Or.inr ⟨w, ws, rfl, by simp [release, hw]⟩

theorem poll_cases (s : Semaphore ι) (i : ι) :
    (i ∈ s.assigned ∧ s.poll i = ({ s with assigned := s.assigned.erase i }, true)) ∨
    (i ∉ s.assigned ∧ i ∈ s.waiters ∧ s.poll i = (s, false)) ∨
    (¬ s.Pending i ∧ 0 < s.permits ∧ s.poll i = ({ s with permits := s.permits - 1 }, true)) ∨
    (¬ s.Pending i ∧ s.permits = 0 ∧ s.poll i = ({ s with waiters := s.waiters ++ [i] }, false)) := by
  by_cases ha : i ∈ s.assigned
  · exact Or.inl ⟨ha, by simp [poll, ha]⟩
  by_cases hw : i ∈ s.waiters
  · exact Or.inr (Or.inl ⟨ha, hw, by simp [poll, ha, hw]⟩)
  have hpend : ¬ s.Pending i := by simp [Pending, ha, hw]
  by_cases hp : 0 < s.permits
  · exact Or.inr (Or.inr (Or.inl ⟨hpend, hp, by simp [poll, ha, hw, hp]⟩))
  · exact Or.inr (Or.inr (Or.inr ⟨hpend, by omega, by simp [poll, ha, hw, hp]⟩))

theorem cancel_cases (s : Semaphore ι) (i : ι) :
    (i ∈ s.assigned ∧ s.cancel i = release { s with assigned := s.assigned.erase i }) ∨
    (i ∉ s.assigned ∧ s.cancel i = { s with waiters := s.waiters.erase i }) := by
  by_cases ha : i ∈ s.assigned
  · exact Or.inl ⟨ha, by simp [cancel, ha]⟩
  · exact Or.inr ⟨ha, by simp [cancel, ha]⟩

/-! ## The queue stays well formed -/

omit [DecidableEq ι] in
theorem wf_new (n : Nat) : (new n : Semaphore ι).Wf := ⟨by simp [new], fun _ => rfl⟩

omit [DecidableEq ι] in
theorem Wf.tryAcquire {s s' : Semaphore ι} (h : s.Wf) (hs : s.tryAcquire = some s') : s'.Wf := by
  obtain ⟨hp, rfl⟩ := tryAcquire_eq_some.mp hs
  exact ⟨h.nodup, fun _ => h.idle hp⟩

omit [DecidableEq ι] in
theorem Wf.release {s : Semaphore ι} (h : s.Wf) : s.release.Wf := by
  rcases s.release_cases with ⟨hw, heq⟩ | ⟨w, ws, hw, heq⟩
  · rw [heq]
    exact ⟨h.nodup, fun _ => hw⟩
  · rw [heq]
    have hnodup : (w :: (ws ++ s.assigned)).Nodup := by simpa [hw] using h.nodup
    refine ⟨List.nodup_middle.mpr hnodup, ?_⟩
    intro hp
    have := h.idle hp
    rw [hw] at this
    cases this

/-- Collecting an assigned permit keeps the queue well formed. -/
theorem Wf.collect {s : Semaphore ι} (h : s.Wf) (i : ι) :
    Wf { s with assigned := s.assigned.erase i } :=
  ⟨h.nodup.sublist (List.erase_sublist.append_left _), h.idle⟩

theorem Wf.poll {s : Semaphore ι} (h : s.Wf) (i : ι) : (s.poll i).1.Wf := by
  rcases s.poll_cases i with ⟨-, heq⟩ | ⟨-, -, heq⟩ | ⟨-, hp, heq⟩ | ⟨hpend, hp, heq⟩
  · rw [heq]
    exact h.collect i
  · rw [heq]
    exact h
  · rw [heq]
    exact ⟨h.nodup, fun _ => h.idle hp⟩
  · rw [heq]
    refine ⟨?_, fun hp' => absurd hp' (by simp [hp])⟩
    have hi : i ∉ s.waiters ++ s.assigned := by simpa [Pending] using hpend
    simpa using List.nodup_middle.mpr (List.nodup_cons.mpr ⟨hi, h.nodup⟩)

theorem Wf.cancel {s : Semaphore ι} (h : s.Wf) (i : ι) : (s.cancel i).Wf := by
  rcases s.cancel_cases i with ⟨-, heq⟩ | ⟨-, heq⟩
  · rw [heq]
    exact (h.collect i).release
  · rw [heq]
    refine ⟨h.nodup.sublist (List.erase_sublist.append_right _), ?_⟩
    intro hp
    simp [h.idle hp]

/-! ## Every operation accounts for the permits -/

omit [DecidableEq ι] in
@[simp] theorem free_new (n : Nat) : (new n : Semaphore ι).free = n := rfl

omit [DecidableEq ι] in
theorem free_tryAcquire {s s' : Semaphore ι} (h : s.tryAcquire = some s') :
    s'.free + 1 = s.free := by
  obtain ⟨hp, rfl⟩ := tryAcquire_eq_some.mp h
  simp only [free]
  omega

omit [DecidableEq ι] in
@[simp] theorem free_release (s : Semaphore ι) : s.release.free = s.free + 1 := by
  rcases s.release_cases with ⟨-, heq⟩ | ⟨w, ws, -, heq⟩ <;> rw [heq] <;>
    simp only [free, List.length_cons] <;> omega

theorem free_collect {s : Semaphore ι} {i : ι} (h : i ∈ s.assigned) :
    free { s with assigned := s.assigned.erase i } + 1 = s.free := by
  have := List.length_pos_of_mem h
  simp only [free, List.length_erase_of_mem h]
  omega

theorem free_poll (s : Semaphore ι) (i : ι) :
    (s.poll i).1.free + (if (s.poll i).2 then 1 else 0) = s.free := by
  rcases s.poll_cases i with ⟨ha, heq⟩ | ⟨-, -, heq⟩ | ⟨-, hp, heq⟩ | ⟨-, -, heq⟩ <;> rw [heq]
  · simpa using free_collect ha
  · simp
  · simp only [free, if_true]
    omega
  · simp [free]

@[simp] theorem free_cancel (s : Semaphore ι) (i : ι) : (s.cancel i).free = s.free := by
  rcases s.cancel_cases i with ⟨ha, heq⟩ | ⟨-, heq⟩ <;> rw [heq]
  · rw [free_release, free_collect ha]
  · rfl

/-! ## Who is pending -/

omit [DecidableEq ι] in
@[simp] theorem pending_release (s : Semaphore ι) (j : ι) :
    s.release.Pending j ↔ s.Pending j := by
  rcases s.release_cases with ⟨-, heq⟩ | ⟨w, ws, hw, heq⟩ <;> rw [heq]
  · rfl
  · simp only [Pending, hw, List.mem_cons]
    tauto

theorem pending_collect_of_ne {s : Semaphore ι} {i j : ι} (hne : j ≠ i) :
    Pending { s with assigned := s.assigned.erase i } j ↔ s.Pending j := by
  simp [Pending, List.mem_erase_of_ne hne]

theorem not_pending_collect {s : Semaphore ι} (h : s.Wf) {i : ι} (ha : i ∈ s.assigned) :
    ¬ Pending { s with assigned := s.assigned.erase i } i := by
  have hnodup := List.nodup_append.mp h.nodup
  rintro (hw | he)
  · exact hnodup.2.2 i hw i ha rfl
  · exact hnodup.2.1.not_mem_erase he

theorem pending_poll_of_ne {s : Semaphore ι} {i j : ι} (hne : j ≠ i) :
    (s.poll i).1.Pending j ↔ s.Pending j := by
  rcases s.poll_cases i with ⟨-, heq⟩ | ⟨-, -, heq⟩ | ⟨-, -, heq⟩ | ⟨-, -, heq⟩ <;> rw [heq]
  · exact pending_collect_of_ne hne
  · rfl
  · simp [Pending, hne]

theorem not_pending_poll {s : Semaphore ι} (h : s.Wf) {i : ι} (hready : (s.poll i).2 = true) :
    ¬ (s.poll i).1.Pending i := by
  rcases s.poll_cases i with ⟨ha, heq⟩ | ⟨-, -, heq⟩ | ⟨hpend, -, heq⟩ | ⟨-, -, heq⟩ <;>
    rw [heq] at hready ⊢
  · exact not_pending_collect h ha
  · cases hready
  · exact hpend
  · cases hready

theorem pending_cancel_of_ne {s : Semaphore ι} {i j : ι} (hne : j ≠ i) :
    (s.cancel i).Pending j ↔ s.Pending j := by
  rcases s.cancel_cases i with ⟨-, heq⟩ | ⟨-, heq⟩ <;> rw [heq]
  · rw [pending_release, pending_collect_of_ne hne]
  · simp [Pending, List.mem_erase_of_ne hne]

theorem not_pending_cancel {s : Semaphore ι} (h : s.Wf) (i : ι) : ¬ (s.cancel i).Pending i := by
  rcases s.cancel_cases i with ⟨ha, heq⟩ | ⟨ha, heq⟩ <;> rw [heq]
  · rw [pending_release]
    exact not_pending_collect h ha
  · rintro (hw | he)
    · exact (List.nodup_append.mp h.nodup).1.not_mem_erase hw
    · exact ha he

/-! ## An assigned permit stays assigned until its waiter moves -/

omit [DecidableEq ι] in
/-- A release takes the oldest waiter out of the queue, if there is one. -/
theorem waiters_release (s : Semaphore ι) : s.release.waiters = s.waiters.tail := by
  rcases s.release_cases with ⟨hw, heq⟩ | ⟨w, ws, hw, heq⟩ <;> rw [heq]
  · simp [hw]
  · rw [hw, List.tail_cons]

omit [DecidableEq ι] in
/-- The permit of a release is assigned to the oldest waiter, if there is one. -/
theorem mem_assigned_release_iff {s : Semaphore ι} {i : ι} :
    i ∈ s.release.assigned ↔ i ∈ s.assigned ∨ s.waiters.head? = some i := by
  rcases s.release_cases with ⟨hw, heq⟩ | ⟨w, ws, hw, heq⟩ <;> rw [heq, hw]
  · simp
  · rw [List.mem_cons, List.head?_cons, Option.some_inj, or_comm, eq_comm]

omit [DecidableEq ι] in
theorem mem_assigned_release {s : Semaphore ι} {i : ι} (h : i ∈ s.assigned) :
    i ∈ s.release.assigned :=
  mem_assigned_release_iff.mpr (Or.inl h)

theorem mem_assigned_poll_of_ne {s : Semaphore ι} {i j : ι} (hne : j ≠ i)
    (h : j ∈ s.assigned) : j ∈ (s.poll i).1.assigned := by
  rcases s.poll_cases i with ⟨-, heq⟩ | ⟨-, -, heq⟩ | ⟨-, -, heq⟩ | ⟨-, -, heq⟩ <;> rw [heq]
  · exact (List.mem_erase_of_ne hne).mpr h
  all_goals exact h

theorem mem_assigned_cancel_of_ne {s : Semaphore ι} {i j : ι} (hne : j ≠ i)
    (h : j ∈ s.assigned) : j ∈ (s.cancel i).assigned := by
  rcases s.cancel_cases i with ⟨-, heq⟩ | ⟨-, heq⟩ <;> rw [heq]
  · exact mem_assigned_release ((List.mem_erase_of_ne hne).mpr h)
  · exact h

theorem poll_of_mem_assigned {s : Semaphore ι} {i : ι} (h : i ∈ s.assigned) :
    (s.poll i).2 = true := by
  simp [poll, h]

/-! ## First in, first out -/

/-- `i` comes before any occurrence of `j`. -/
def Ahead (i j : ι) (l : List ι) : Prop := ∃ l₁ l₂, l = l₁ ++ i :: l₂ ∧ j ∉ l₁

omit [DecidableEq ι] in
theorem Ahead.mem {i j : ι} {l : List ι} (h : Ahead i j l) : i ∈ l := by
  obtain ⟨l₁, l₂, rfl, -⟩ := h
  simp

omit [DecidableEq ι] in
theorem Ahead.append {i j : ι} {l : List ι} (h : Ahead i j l) (m : List ι) :
    Ahead i j (l ++ m) := by
  obtain ⟨l₁, l₂, rfl, hj⟩ := h
  exact ⟨l₁, l₂ ++ m, by simp, hj⟩

omit [DecidableEq ι] in
/-- Behind the head, the order stays as it was. -/
theorem Ahead.tail {i j w : ι} {ws : List ι} (h : Ahead i j (w :: ws)) (hw : w ≠ i) :
    w ≠ j ∧ Ahead i j ws := by
  obtain ⟨l₁, l₂, heq, hj⟩ := h
  cases l₁ with
  | nil => exact absurd (List.cons.inj heq).1 hw
  | cons x l₁ =>
    obtain ⟨rfl, rfl⟩ := List.cons.inj heq
    simp only [List.mem_cons, not_or] at hj
    exact ⟨Ne.symm hj.1, l₁, l₂, rfl, hj.2⟩

theorem Ahead.erase {i j k : ι} {l : List ι} (h : Ahead i j l) (hk : k ≠ i) :
    Ahead i j (l.erase k) := by
  obtain ⟨l₁, l₂, rfl, hj⟩ := h
  by_cases hmem : k ∈ l₁
  · exact ⟨l₁.erase k, l₂, List.erase_append_left _ hmem, fun h => hj (List.mem_of_mem_erase h)⟩
  · refine ⟨l₁, l₂.erase k, ?_, hj⟩
    rw [List.erase_append_right _ hmem, List.erase_cons_tail (by simpa using Ne.symm hk)]

/-- `j` is not served before `i`: it has no permit assigned, and either `i` is
parked ahead of it or neither is parked. -/
def Precedes (s : Semaphore ι) (i j : ι) : Prop :=
  j ∉ s.assigned ∧ (Ahead i j s.waiters ∨ (i ∉ s.waiters ∧ j ∉ s.waiters))

omit [DecidableEq ι] in
/-- Whoever is not pending is preceded by everybody else. -/
theorem precedes_of_not_pending {s : Semaphore ι} (i : ι) {j : ι} (h : ¬ s.Pending j) :
    s.Precedes i j := by
  simp only [Pending, not_or] at h
  refine ⟨h.2, ?_⟩
  by_cases hi : i ∈ s.waiters
  · obtain ⟨l₁, l₂, heq⟩ := List.append_of_mem hi
    exact Or.inl ⟨l₁, l₂, heq, fun hj => h.1 (by rw [heq]; simp [hj])⟩
  · exact Or.inr ⟨hi, h.1⟩

omit [DecidableEq ι] in
/-- Who is pending behind `i` is parked behind it. -/
theorem Precedes.mem_waiters {s : Semaphore ι} {i j : ι} (h : s.Precedes i j)
    (hj : s.Pending j) : i ∈ s.waiters := by
  rcases h.2 with hahead | ⟨-, hnot⟩
  · exact hahead.mem
  · exact absurd (hj.resolve_right h.1) hnot

/-- A release serves `i` or leaves it ahead. -/
theorem Precedes.release {s : Semaphore ι} {i j : ι} (h : s.Precedes i j) :
    i ∈ s.release.assigned ∨ s.release.Precedes i j := by
  obtain ⟨hj, horder⟩ := h
  rcases s.release_cases with ⟨-, heq⟩ | ⟨w, ws, hw, heq⟩ <;> rw [heq]
  · exact Or.inr ⟨hj, horder⟩
  · by_cases hwi : w = i
    · exact Or.inl (by simp [hwi])
    · rw [hw] at horder
      right
      rcases horder with hahead | ⟨hi, hj'⟩
      · obtain ⟨hwj, htail⟩ := hahead.tail hwi
        exact ⟨by simp [hj, Ne.symm hwj], Or.inl htail⟩
      · simp only [List.mem_cons, not_or] at hi hj'
        exact ⟨by simp [hj, hj'.1], Or.inr ⟨hi.2, hj'.2⟩⟩

theorem Precedes.collect {s : Semaphore ι} {i j : ι} (h : s.Precedes i j) (k : ι) :
    Precedes { s with assigned := s.assigned.erase k } i j :=
  ⟨fun hj => h.1 (List.mem_of_mem_erase hj), h.2⟩

/-- A poll of a third wait does not change who is first. -/
theorem Precedes.poll_of_ne {s : Semaphore ι} {i j k : ι} (h : s.Precedes i j) (hi : k ≠ i)
    (hj : k ≠ j) : (s.poll k).1.Precedes i j := by
  rcases s.poll_cases k with ⟨-, heq⟩ | ⟨-, -, heq⟩ | ⟨-, -, heq⟩ | ⟨-, -, heq⟩ <;> rw [heq]
  · exact h.collect k
  · exact h
  · exact h
  · refine ⟨h.1, ?_⟩
    rcases h.2 with hahead | ⟨hi', hj'⟩
    · exact Or.inl (hahead.append _)
    · exact Or.inr ⟨by simp [hi', Ne.symm hi], by simp [hj', Ne.symm hj]⟩

/-- Polled without success, `i` is parked ahead of `j`. -/
theorem Precedes.poll_first {s : Semaphore ι} {i j : ι} (h : s.Precedes i j)
    (hready : (s.poll i).2 = false) : (s.poll i).1.Precedes i j := by
  rcases s.poll_cases i with ⟨-, heq⟩ | ⟨-, -, heq⟩ | ⟨-, -, heq⟩ | ⟨hpend, -, heq⟩ <;>
    rw [heq] at hready ⊢
  · cases hready
  · exact h
  · cases hready
  · refine ⟨h.1, Or.inl ?_⟩
    rcases h.2 with hahead | ⟨-, hj⟩
    · exact hahead.append _
    · exact ⟨s.waiters, [], rfl, hj⟩

/-- With `i` parked, a poll of `j` obtains nothing and stays behind. -/
theorem Precedes.poll_second {s : Semaphore ι} (hwf : s.Wf) {i j : ι} (h : s.Precedes i j)
    (hi : i ∈ s.waiters) : (s.poll j).2 = false ∧ (s.poll j).1.Precedes i j := by
  have hahead : Ahead i j s.waiters := h.2.resolve_right fun hnot => hnot.1 hi
  rcases s.poll_cases j with ⟨ha, -⟩ | ⟨-, -, heq⟩ | ⟨-, hp, -⟩ | ⟨-, -, heq⟩
  · exact absurd ha h.1
  · rw [heq]
    exact ⟨rfl, h⟩
  · rw [hwf.idle hp] at hi
    cases hi
  · rw [heq]
    exact ⟨rfl, h.1, Or.inl (hahead.append _)⟩

theorem Precedes.cancel {s : Semaphore ι} {i j k : ι} (h : s.Precedes i j) (hk : k ≠ i) :
    i ∈ (s.cancel k).assigned ∨ (s.cancel k).Precedes i j := by
  rcases s.cancel_cases k with ⟨-, heq⟩ | ⟨-, heq⟩ <;> rw [heq]
  · exact (h.collect k).release
  · refine Or.inr ⟨h.1, ?_⟩
    rcases h.2 with hahead | ⟨hi, hj⟩
    · exact Or.inl (hahead.erase hk)
    · exact Or.inr ⟨fun hmem => hi (List.mem_of_mem_erase hmem),
        fun hmem => hj (List.mem_of_mem_erase hmem)⟩

/-! ## Places in the queue -/

/-- How many wait ahead of `i`. -/
def place (s : Semaphore ι) (i : ι) : Nat := s.waiters.idxOf i

/-- Between `s` and `s'` a permit went to the oldest waiter. -/
def handsOver (s s' : Semaphore ι) : Bool := s.waiters.head?.any fun w => decide (w ∈ s'.assigned)

/-- `i` waits on, and one place further on if a permit was handed over. -/
def Advances (s s' : Semaphore ι) (i : ι) : Prop :=
  i ∈ s'.waiters ∧ s'.place i + (s.handsOver s').toNat ≤ s.place i

/-- Nobody in the queue has a permit already. -/
theorem Wf.handsOver_eq_false {s s' : Semaphore ι} (h : s.Wf)
    (hsub : ∀ w ∈ s'.assigned, w ∈ s.assigned) : s.handsOver s' = false := by
  unfold handsOver
  cases hw : s.waiters with
  | nil => rfl
  | cons w ws =>
    have hnot : w ∉ s.assigned := by
      have hnodup := h.nodup
      rw [hw, List.cons_append, List.nodup_cons] at hnodup
      exact fun ha => hnodup.1 (List.mem_append_right _ ha)
    simpa using fun ha => hnot (hsub w ha)

/-- Who waits has a place that nobody behind takes away. -/
theorem Advances.of_append {s s' : Semaphore ι} {i : ι} (h : s.Wf) (hi : i ∈ s.waiters)
    (hsub : ∀ w ∈ s'.assigned, w ∈ s.assigned) {l : List ι} (hl : s'.waiters = s.waiters ++ l) :
    s.Advances s' i := by
  refine ⟨by rw [hl]; exact List.mem_append_left l hi, ?_⟩
  rw [h.handsOver_eq_false hsub, place, place, hl, List.idxOf_append_of_mem hi]
  exact Nat.le_refl _

theorem Wf.advances_poll {s : Semaphore ι} {i : ι} (h : s.Wf) (hi : i ∈ s.waiters) (k : ι) :
    s.Advances (s.poll k).1 i := by
  rcases s.poll_cases k with ⟨-, heq⟩ | ⟨-, -, heq⟩ | ⟨-, -, heq⟩ | ⟨-, -, heq⟩ <;> rw [heq]
  · exact .of_append h hi (fun w hw => List.mem_of_mem_erase hw) (List.append_nil _).symm
  · exact .of_append h hi (fun w hw => hw) (List.append_nil _).symm
  · exact .of_append h hi (fun w hw => hw) (List.append_nil _).symm
  · exact .of_append h hi (fun w hw => hw) rfl

/-- A release serves the oldest waiter, and everybody else is one place further on. -/
theorem advances_release {s : Semaphore ι} {i : ι} (hi : i ∈ s.waiters) :
    i ∈ s.release.assigned ∨ s.Advances s.release i := by
  rcases s.release_cases with ⟨hnil, -⟩ | ⟨w, ws, hw, heq⟩
  · rw [hnil] at hi
    cases hi
  · rw [heq]
    by_cases hwi : w = i
    · exact Or.inl (by simp [hwi])
    · have htail : i ∈ ws := by
        rw [hw] at hi
        exact (List.mem_cons.mp hi).resolve_left (Ne.symm hwi)
      refine Or.inr ⟨htail, ?_⟩
      simp only [handsOver, place, hw, List.head?_cons, Option.any_some, List.mem_cons, true_or,
        decide_true, Bool.toNat_true, List.idxOf_cons_ne _ hwi]
      exact Nat.le_refl _

/-- Who leaves the queue takes nobody's place further back. -/
theorem idxOf_erase_le {i k : ι} (l : List ι) (hk : k ≠ i) : (l.erase k).idxOf i ≤ l.idxOf i := by
  induction l with
  | nil => exact Nat.le_refl _
  | cons x xs ih =>
    by_cases hxk : x = k
    · subst hxk
      rw [List.erase_cons_head, List.idxOf_cons_ne _ hk]
      exact Nat.le_succ _
    · rw [List.erase_cons_tail (by simpa using hxk)]
      by_cases hxi : x = i
      · subst hxi
        rw [List.idxOf_cons_self]
        exact Nat.zero_le _
      · rw [List.idxOf_cons_ne _ hxi, List.idxOf_cons_ne _ hxi]
        exact Nat.succ_le_succ ih

theorem Wf.advances_cancel {s : Semaphore ι} {i k : ι} (h : s.Wf) (hi : i ∈ s.waiters)
    (hk : k ≠ i) : i ∈ (s.cancel k).assigned ∨ s.Advances (s.cancel k) i := by
  rcases s.cancel_cases k with ⟨ha, heq⟩ | ⟨ha, heq⟩ <;> rw [heq]
  · exact advances_release (s := { s with assigned := s.assigned.erase k }) hi
  · right
    refine ⟨(List.mem_erase_of_ne (Ne.symm hk)).mpr hi, ?_⟩
    have hnone : s.handsOver { s with waiters := s.waiters.erase k } = false :=
      h.handsOver_eq_false fun w hw => hw
    rw [hnone]
    exact idxOf_erase_le s.waiters hk

end Semaphore
