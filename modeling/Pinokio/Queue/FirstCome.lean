/-
# Pinokio.Queue.FirstCome -- the gate is a waiting room

What the gate is for: `max_sessions` seats, a call that has a permit sits, handed to it or
collected, and the calls parked in the semaphore stand in line. `roomOf` reads this off a
state of the gate; that the result is a room at all is what the invariant of the gate says.

Most steps of a call do not show in the room: the counter, the timers, the two drops at the
end of a call. A poll shows only where it takes a permit or parks; one that collects a
permit does not, its call sits already. `room_run` carries the simulation over a run, and
the order and the balance of the room become facts about permits: `served_in_order`,
`permit_once`. The room itself lets somebody who left come back; that no call does is
shown of the calls (`HasStood`, `HasSat`).

The line is that of the parked calls. A call joins it with its first poll, not with its slot
in the counter, and what can happen in between is the matter of `Pinokio.Queue.Fairness`.
-/
import Pinokio.Lib.WaitingRoom
import Pinokio.Queue.Waiting

namespace Pinokio.Gate

open Pool (getElem?_set_cases getElem?_set_of_some getElem?_append_cases card_filter_range)
open WaitingRoom (Event)

variable {limits : Limits}

/-! ## The room of a state -/

/-- Call `i` owns a permit. -/
def owns (s : State) (i : Nat) : Bool := (s.procs[i]?).any Call.ownsPermit

/-- The calls that own a permit or have been handed one. -/
def seated (s : State) : Finset Nat :=
  s.shared.semaphore.assigned.toFinset ∪
    (Finset.range s.procs.length).filter fun i => owns s i = true

theorem owns_iff {s : State} {i : Nat} :
    owns s i = true ↔ ∃ c, s.procs[i]? = some c ∧ c.ownsPermit = true := by
  rw [owns, Option.any_eq_true]

theorem lt_length_of_owns {s : State} {i : Nat} (h : owns s i = true) : i < s.procs.length := by
  obtain ⟨c, hc, -⟩ := owns_iff.mp h
  exact (List.getElem?_eq_some_iff.mp hc).1

theorem mem_seated {s : State} {i : Nat} :
    i ∈ seated s ↔ i ∈ s.shared.semaphore.assigned ∨ owns s i = true := by
  rw [seated, Finset.mem_union, List.mem_toFinset, Finset.mem_filter, Finset.mem_range]
  exact or_congr_right ⟨And.right, fun h => ⟨lt_length_of_owns h, h⟩⟩

/-- A call in a list of the semaphore does not own a permit yet. -/
theorem not_owns_of_pending {s : State} {i : Nat} (hi : Inv limits s)
    (h : s.shared.semaphore.Pending i) : owns s i = false := by
  obtain ⟨c, hc, hw⟩ := hi.pending i h
  have hno : c.ownsPermit = false := by
    cases c with
    | unwind outcome => cases outcome <;> first | rfl | cases hw
    | select => rfl
    | _ => cases hw
  simp [owns, hc, hno]

theorem card_seated {s : State} (hi : Inv limits s) :
    (seated s).card + s.shared.semaphore.permits = limits.maxSessions := by
  have hdisj : Disjoint s.shared.semaphore.assigned.toFinset
      ((Finset.range s.procs.length).filter fun i => owns s i = true) := by
    refine Finset.disjoint_left.mpr fun i hia hio => ?_
    have hno := not_owns_of_pending hi (Or.inr (List.mem_toFinset.mp hia))
    rw [(Finset.mem_filter.mp hio).2] at hno
    cases hno
  have hassigned : s.shared.semaphore.assigned.toFinset.card
      = s.shared.semaphore.assigned.length :=
    List.toFinset_card_of_nodup hi.wf.nodup.of_append_right
  have howned : ((Finset.range s.procs.length).filter fun i => owns s i = true).card = owned s :=
    card_filter_range Call.ownsPermit s.procs
  have hpermits := hi.permits
  rw [seated, Finset.card_union_of_disjoint hdisj, hassigned, howned]
  simp only [Semaphore.free] at hpermits
  omega

/-- The gate as a waiting room. -/
def roomOf (s : State) (hi : Inv limits s) : WaitingRoom limits.maxSessions Nat where
  seated := seated s
  line := s.shared.semaphore.waiters
  card_le := by
    have := card_seated hi
    omega
  full hne := by
    have hcard := card_seated hi
    have hzero : s.shared.semaphore.permits = 0 := by
      by_contra hp
      exact hne (hi.wf.idle (Nat.pos_of_ne_zero hp))
    omega
  nodup := hi.wf.nodup.of_append_left
  standing i hw := by
    rw [mem_seated, not_or]
    refine ⟨fun ha => List.disjoint_of_nodup_append hi.wf.nodup hw ha, ?_⟩
    rw [not_owns_of_pending hi (Or.inl hw)]
    exact Bool.false_ne_true

theorem roomOf_init (limits : Limits) : roomOf (init limits) (inv_init limits) = .empty := by
  ext1
  · rfl
  · rfl

/-! ## What a step shows -/

/-- The event in the room that a step of a call is, where it is one. -/
def callEvent (g : Shared) (i : Nat) : Call → CallAction → Option (Event Nat)
  | .tryAcquire, .tryAcquire => if 0 < g.semaphore.permits then some (.sit i) else none
  | .select _, .pollPermit =>
    if i ∈ g.semaphore.assigned ∨ i ∈ g.semaphore.waiters then none
    else if 0 < g.semaphore.permits then some (.sit i)
    else some (.join i)
  | .unwind .acquired, _ => none
  -- the wait is abandoned: a permit that was handed over goes on, a place in line is given up
  | .unwind _, .dropFutures =>
    if i ∈ g.semaphore.assigned then some (.leave i)
    else if i ∈ g.semaphore.waiters then some (.giveUp i)
    else none
  | .holding, .dropPermit => some (.leave i)
  | _, _ => none

def event (s : State) : Action → Option (Event Nat)
  | .act i a => (s.procs[i]?).bind fun c => callEvent s.shared i c a
  | _ => none

/-- What a run of the gate shows in the room. -/
def events (limits : Limits) (s : State) (as : List Action) : List (Event Nat) :=
  (machine limits).observed (fun s a => (event s a).toList) s as

/-! ## One step -/

theorem owns_set {s : State} {k : Nat} {c : Call} (g' : Shared) (c' : Call)
    (hc : s.procs[k]? = some c) (j : Nat) :
    owns { shared := g', procs := s.procs.set k c' } j
      = if j = k then c'.ownsPermit else owns s j := by
  by_cases hj : j = k
  · subst hj
    rw [if_pos rfl, owns, getElem?_set_of_some hc]
    rfl
  · rw [if_neg hj, owns, List.getElem?_set_ne (Ne.symm hj)]
    rfl

theorem owns_self {s : State} {k : Nat} {c : Call} (hc : s.procs[k]? = some c) :
    owns s k = c.ownsPermit := by
  rw [owns, hc]
  rfl

section Shapes

variable {s t : State} {k : Nat} (hi : Inv limits s) (ht : Inv limits t)

include hi ht

theorem roomOf_congr (hline : t.shared.semaphore.waiters = s.shared.semaphore.waiters)
    (hseats : ∀ j, j ∈ seated t ↔ j ∈ seated s) : roomOf t ht = roomOf s hi := by
  ext1
  · exact Finset.ext hseats
  · exact hline

theorem sit_room (hp : 0 < s.shared.semaphore.permits) (hk : k ∉ seated s)
    (hline : t.shared.semaphore.waiters = s.shared.semaphore.waiters)
    (hseats : ∀ j, j ∈ seated t ↔ j = k ∨ j ∈ seated s) :
    WaitingRoom.Step (roomOf s hi) (.sit k) (roomOf t ht) := by
  have hfree : (roomOf s hi).seated.card < limits.maxSessions := by
    have hcard := card_seated hi
    show (seated s).card < _
    omega
  have heq : roomOf t ht = (roomOf s hi).sit k hfree hk := by
    ext1
    · exact Finset.ext fun j => (hseats j).trans Finset.mem_insert.symm
    · exact hline.trans (hi.wf.idle hp)
  rw [heq]
  exact .sit k hfree hk

theorem join_room (hp : s.shared.semaphore.permits = 0) (hk : k ∉ seated s)
    (hw : k ∉ s.shared.semaphore.waiters)
    (hline : t.shared.semaphore.waiters = s.shared.semaphore.waiters ++ [k])
    (hseats : ∀ j, j ∈ seated t ↔ j ∈ seated s) :
    WaitingRoom.Step (roomOf s hi) (.join k) (roomOf t ht) := by
  have hfull : (roomOf s hi).seated.card = limits.maxSessions := by
    have hcard := card_seated hi
    show (seated s).card = _
    omega
  have heq : roomOf t ht = (roomOf s hi).join k hfull hk hw := by
    ext1
    · exact Finset.ext hseats
    · exact hline
  rw [heq]
  exact .join k hfull hk hw

theorem leave_room (hk : k ∈ seated s)
    (hline : t.shared.semaphore.waiters = s.shared.semaphore.waiters.tail)
    (hseats : ∀ j, j ∈ seated t ↔
      (j ≠ k ∧ j ∈ seated s) ∨ s.shared.semaphore.waiters.head? = some j) :
    WaitingRoom.Step (roomOf s hi) (.leave k) (roomOf t ht) := by
  have heq : roomOf t ht = (roomOf s hi).leave k hk := by
    ext1
    · exact Finset.ext fun j => (hseats j).trans ((roomOf s hi).mem_seatedAfter k j).symm
    · exact hline
  rw [heq]
  exact .leave k hk

theorem giveUp_room (hk : k ∈ s.shared.semaphore.waiters)
    (hline : t.shared.semaphore.waiters = s.shared.semaphore.waiters.erase k)
    (hseats : ∀ j, j ∈ seated t ↔ j ∈ seated s) :
    WaitingRoom.Step (roomOf s hi) (.giveUp k) (roomOf t ht) := by
  have heq : roomOf t ht = (roomOf s hi).giveUp k := by
    ext1
    · exact Finset.ext hseats
    · exact hline
  rw [heq]
  exact .giveUp k hk

end Shapes

/-! ## One step of a call -/

variable {s : State} {g' : Shared} {k : Nat} {c c' : Call} {a : CallAction}

theorem mem_seated_set (hc : s.procs[k]? = some c) (j : Nat) :
    j ∈ seated { shared := g', procs := s.procs.set k c' } ↔
      j ∈ g'.semaphore.assigned ∨ (if j = k then c'.ownsPermit else owns s j) = true := by
  rw [mem_seated, owns_set g' c' hc]

/-- A step that leaves the semaphore alone and changes nothing of who owns a permit. -/
theorem room_quiet (hi : Inv limits s) (hc : s.procs[k]? = some c)
    (ht : Inv limits { shared := g', procs := s.procs.set k c' })
    (hsem : g'.semaphore = s.shared.semaphore) (hown : c'.ownsPermit = c.ownsPermit) :
    roomOf _ ht = roomOf s hi := by
  refine roomOf_congr hi ht (congrArg Semaphore.waiters hsem) fun j => ?_
  rw [mem_seated_set hc, mem_seated, hsem, hown]
  refine or_congr_right ?_
  split
  next hj => rw [hj, owns_self hc]
  next => rfl

/-- The call `k` gives its permit back, or the one it was handed. -/
theorem room_released (hi : Inv limits s) (hc : s.procs[k]? = some c)
    (ht : Inv limits { shared := g', procs := s.procs.set k c' }) (hown : c'.ownsPermit = false)
    (hk : k ∈ seated s)
    (hsem : g'.semaphore = Semaphore.release
      { s.shared.semaphore with assigned := s.shared.semaphore.assigned.erase k }) :
    WaitingRoom.Step (roomOf s hi) (.leave k) (roomOf _ ht) := by
  have hnodup : s.shared.semaphore.assigned.Nodup := hi.wf.nodup.of_append_right
  refine leave_room hi ht hk ?_ fun j => ?_
  · show g'.semaphore.waiters = _
    rw [hsem, Semaphore.waiters_release]
  · rw [mem_seated_set hc, mem_seated, hsem, hown, Semaphore.mem_assigned_release_iff,
      hnodup.mem_erase_iff]
    by_cases hj : j = k
    · simp [hj]
    · simp only [hj, if_false]
      tauto

/-- A poll, by what it finds: its permit, which it collects, a place in line, a free seat,
or the end of the line. -/
theorem room_polled (elapsed : Bool) (hi : Inv limits s) (hc : s.procs[k]? = some (.select elapsed))
    (hsem : g'.semaphore = (s.shared.semaphore.poll k).1)
    (hown : c'.ownsPermit = (s.shared.semaphore.poll k).2)
    (ht : Inv limits { shared := g', procs := s.procs.set k c' }) :
    (WaitingRoom.machine limits.maxSessions Nat).run (roomOf s hi)
      (callEvent s.shared k (.select elapsed) .pollPermit).toList = some (roomOf _ ht) := by
  have hnotOwns : owns s k = false := (owns_self hc).trans rfl
  rcases s.shared.semaphore.poll_cases k with ⟨ha, heq⟩ | ⟨ha, hw, heq⟩ | ⟨hpend, hp, heq⟩ |
      ⟨hpend, hp, heq⟩ <;> rw [heq] at hsem hown <;> simp only at hsem hown
  · have hevent : callEvent s.shared k (.select elapsed) .pollPermit = none := if_pos (Or.inl ha)
    have hnodup : s.shared.semaphore.assigned.Nodup := hi.wf.nodup.of_append_right
    have hline : g'.semaphore.waiters = s.shared.semaphore.waiters := by rw [hsem]
    rw [hevent]
    refine congrArg some (roomOf_congr hi ht hline fun j => ?_).symm
    rw [mem_seated_set hc, mem_seated, hsem, hown, hnodup.mem_erase_iff]
    by_cases hj : j = k
    · simp [hj, ha]
    · simp [hj]
  · have hevent : callEvent s.shared k (.select elapsed) .pollPermit = none := if_pos (Or.inr hw)
    rw [hevent]
    exact congrArg some (room_quiet hi hc ht hsem hown).symm
  · have hevent : callEvent s.shared k (.select elapsed) .pollPermit = some (.sit k) :=
      (if_neg fun h => hpend h.symm).trans (if_pos hp)
    have hk : k ∉ seated s := by
      rw [mem_seated, hnotOwns]
      exact fun h => hpend (Or.inr (h.resolve_right Bool.false_ne_true))
    have hline : g'.semaphore.waiters = s.shared.semaphore.waiters := by rw [hsem]
    rw [hevent]
    refine (Machine.run_singleton _).mpr (WaitingRoom.step_iff.mpr ?_)
    refine sit_room hi ht hp hk hline fun j => ?_
    rw [mem_seated_set hc, mem_seated, hsem, hown]
    by_cases hj : j = k
    · simp [hj]
    · simp [hj]
  · have hevent : callEvent s.shared k (.select elapsed) .pollPermit = some (.join k) :=
      (if_neg fun h => hpend h.symm).trans (if_neg (by omega))
    have hk : k ∉ seated s := by
      rw [mem_seated, hnotOwns]
      exact fun h => hpend (Or.inr (h.resolve_right Bool.false_ne_true))
    have hline : g'.semaphore.waiters = s.shared.semaphore.waiters ++ [k] := by rw [hsem]
    rw [hevent]
    refine (Machine.run_singleton _).mpr (WaitingRoom.step_iff.mpr ?_)
    refine join_room hi ht hp hk (fun h => hpend (Or.inl h)) hline fun j => ?_
    rw [mem_seated_set hc, mem_seated, hsem, hown]
    by_cases hj : j = k
    · simp [hj, hnotOwns]
    · simp [hj]

/-- An abandoned wait: what was handed over goes on, a place in line is given up, and a
call that never came to the semaphore leaves nothing behind. -/
theorem room_abandoned (outcome : Outcome) (hne : outcome ≠ .acquired) (hi : Inv limits s)
    (hc : s.procs[k]? = some (.unwind outcome))
    (ht : Inv limits { shared := { s.shared with semaphore := s.shared.semaphore.cancel k },
                       procs := s.procs.set k (.dropSlot outcome) }) :
    (WaitingRoom.machine limits.maxSessions Nat).run (roomOf s hi)
      (callEvent s.shared k (.unwind outcome) .dropFutures).toList = some (roomOf _ ht) := by
  have hno : (Call.dropSlot outcome).ownsPermit = false := by
    cases outcome <;> first | rfl | exact absurd rfl hne
  have hnotOwns : owns s k = false := by
    rw [owns_self hc]
    cases outcome <;> first | rfl | exact absurd rfl hne
  have hevent : callEvent s.shared k (.unwind outcome) .dropFutures =
      if k ∈ s.shared.semaphore.assigned then some (.leave k)
      else if k ∈ s.shared.semaphore.waiters then some (.giveUp k) else none := by
    cases outcome <;> first | rfl | exact absurd rfl hne
  rcases s.shared.semaphore.cancel_cases k with ⟨ha, heq⟩ | ⟨ha, heq⟩
  · rw [hevent, if_pos ha]
    refine (Machine.run_singleton _).mpr (WaitingRoom.step_iff.mpr ?_)
    exact room_released hi hc ht hno (mem_seated.mpr (Or.inl ha)) heq
  · have hseats : ∀ j, j ∈ seated { shared := { s.shared with
          semaphore := s.shared.semaphore.cancel k }, procs := s.procs.set k (.dropSlot outcome) }
        ↔ j ∈ seated s := by
      intro j
      rw [mem_seated_set hc, mem_seated, hno]
      show j ∈ (s.shared.semaphore.cancel k).assigned ∨ _ ↔ _
      rw [heq]
      by_cases hj : j = k
      · simp [hj, hnotOwns]
      · simp [hj]
    have hline : (s.shared.semaphore.cancel k).waiters = s.shared.semaphore.waiters.erase k := by
      rw [heq]
    rw [hevent, if_neg ha]
    by_cases hw : k ∈ s.shared.semaphore.waiters
    · rw [if_pos hw]
      refine (Machine.run_singleton _).mpr (WaitingRoom.step_iff.mpr ?_)
      exact giveUp_room hi ht hw hline hseats
    · rw [if_neg hw]
      exact congrArg some
        (roomOf_congr hi ht (hline.trans (List.erase_of_not_mem hw)) hseats).symm

theorem call_room (hi : Inv limits s) (hc : s.procs[k]? = some c)
    (h : CallStep limits s.shared k c a g' c')
    (ht : Inv limits { shared := g', procs := s.procs.set k c' }) :
    (WaitingRoom.machine limits.maxSessions Nat).run (roomOf s hi)
      (callEvent s.shared k c a).toList = some (roomOf _ ht) := by
  cases h with
  | fast hp =>
      have hevent : callEvent s.shared k .tryAcquire .tryAcquire = some (.sit k) := if_pos hp
      have hk : k ∉ seated s := by
        rw [mem_seated, owns_self hc]
        rintro (ha | hown)
        · obtain ⟨d, hd, hw⟩ := hi.pending k (Or.inr ha)
          obtain rfl := Option.some.inj (hc.symm.trans hd)
          cases hw
        · cases hown
      rw [hevent]
      refine (Machine.run_singleton _).mpr (WaitingRoom.step_iff.mpr ?_)
      refine sit_room hi ht hp hk rfl fun j => ?_
      rw [mem_seated_set hc, mem_seated]
      by_cases hj : j = k
      · simp [hj, Call.ownsPermit]
      · simp [hj]
  | slow hp =>
      have hevent : callEvent s.shared k .tryAcquire .tryAcquire = none := if_neg (by omega)
      rw [hevent]
      exact congrArg some (room_quiet hi hc ht rfl rfl).symm
  | load | retry =>
      exact congrArg some (room_quiet hi hc ht rfl (register_ownsPermit limits _)).symm
  | granted elapsed hready =>
      have hown : (Call.unwind .acquired).ownsPermit = (s.shared.semaphore.poll k).2 := hready.symm
      exact room_polled elapsed hi hc rfl hown ht
  | parked elapsed hready =>
      have hown : (Call.select elapsed).ownsPermit = (s.shared.semaphore.poll k).2 := hready.symm
      exact room_polled elapsed hi hc rfl hown ht
  | abandon outcome hne => exact room_abandoned outcome hne hi hc ht
  | slot outcome =>
      have hevent : callEvent s.shared k (.dropSlot outcome) .dropSlot = none := by
        cases outcome <;> rfl
      rw [hevent]
      exact congrArg some (room_quiet hi hc ht rfl (Outcome.finish_ownsPermit outcome)).symm
  | release =>
      have hnot : k ∉ s.shared.semaphore.assigned := by
        intro ha
        have hno := not_owns_of_pending hi (Or.inr ha)
        rw [owns_self hc] at hno
        cases hno
      refine (Machine.run_singleton _).mpr (WaitingRoom.step_iff.mpr ?_)
      refine room_released hi hc ht rfl (mem_seated.mpr (Or.inr (owns_self hc))) ?_
      rw [List.erase_of_not_mem hnot]
  | _ => exact congrArg some (room_quiet hi hc ht rfl rfl).symm

theorem step_room {t : State} {e : Action} (h : (machine limits).step s e = some t)
    (hi : Inv limits s) (ht : Inv limits t) :
    (WaitingRoom.machine limits.maxSessions Nat).run (roomOf s hi) (event s e).toList
      = some (roomOf t ht) := by
  cases e with
  | spawn d =>
      obtain ⟨hfresh, rfl⟩ := Pool.step_spawn.mp h
      obtain rfl : d = .idle := by simpa [program] using hfresh
      refine congrArg some (roomOf_congr hi ht rfl fun j => ?_).symm
      rw [mem_seated, mem_seated]
      refine or_congr_right ⟨fun ho => ?_, fun ho => ?_⟩
      · obtain ⟨c, hc, hown⟩ := owns_iff.mp ho
        rcases getElem?_append_cases hc with ⟨-, rfl⟩ | hc
        · cases hown
        · exact owns_iff.mpr ⟨c, hc, hown⟩
      · obtain ⟨c, hc, hown⟩ := owns_iff.mp ho
        refine owns_iff.mpr ⟨c, ?_, hown⟩
        rw [List.getElem?_append_left (List.getElem?_eq_some_iff.mp hc).1]
        exact hc
  | act k a =>
      obtain ⟨c, g', c', hc, hact, rfl⟩ := Pool.step_act.mp h
      have hevent : event s (.act k a) = callEvent s.shared k c a := by
        rw [event, hc, Option.bind_some]
      rw [hevent]
      exact call_room hi hc (callStep_inv hact) ht
  | env e =>
      obtain ⟨g', henv, rfl⟩ := Pool.step_env.mp h
      cases e
      obtain rfl : { s.shared with cancelled := true } = g' := Option.some.inj henv
      exact congrArg some (roomOf_congr hi ht rfl fun j => Iff.rfl).symm

theorem event_cases {t : State} {e : Action} (h : (machine limits).step s e = some t)
    (hi : Inv limits s) (ht : Inv limits t) :
    (event s e = none ∧ roomOf t ht = roomOf s hi) ∨
      ∃ v, event s e = some v ∧ WaitingRoom.Step (roomOf s hi) v (roomOf t ht) := by
  have hroom := step_room h hi ht
  cases hv : event s e with
  | none =>
      rw [hv] at hroom
      exact Or.inl ⟨rfl, (Option.some.inj hroom).symm⟩
  | some v =>
      rw [hv] at hroom
      exact Or.inr ⟨v, rfl, WaitingRoom.step_iff.mp ((Machine.run_singleton _).mp hroom)⟩

/-- A run of the gate is a run of the room, by the events that it shows. -/
theorem room_run {t : State} {as : List Action} (hi : Inv limits s) (ht : Inv limits t)
    (hrun : (machine limits).run s as = some t) :
    (WaitingRoom.machine limits.maxSessions Nat).run (roomOf s hi) (events limits s as)
      = some (roomOf t ht) := by
  induction as generalizing s with
  | nil =>
      obtain rfl : s = t := Option.some.inj hrun
      rfl
  | cons a as ih =>
      obtain ⟨u, hst, hu⟩ := (Machine.run_cons_iff _).mp hrun
      have hiu := inv_step hst hi
      rw [events, Machine.observed_cons _ as hst, ← events]
      exact (Machine.run_append_iff _).mpr ⟨roomOf u hiu, step_room hst hi hiu, ih hiu hu⟩

/-! ## Once -/

/-- The call has its permit for good, or is past the semaphore without one. -/
def Call.settled : Call → Bool
  | dropSlot _ | holding | returned _ | dropped | released => true
  | _ => false

def Settled (i : Nat) (s : State) : Prop := ∃ c, s.procs[i]? = some c ∧ c.settled = true

/-- Call `i` has had its chance of a permit. -/
def HasSat (i : Nat) (s : State) : Prop := i ∈ seated s ∨ Settled i s

/-- Call `i` has had its place in the line. -/
def HasStood (i : Nat) (s : State) : Prop := i ∈ s.shared.semaphore.waiters ∨ HasSat i s

theorem callStep_settled (h : CallStep limits s.shared k c a g' c') (hc : c.settled = true) :
    c'.settled = true := by
  cases h with
  | slot outcome => cases outcome <;> rfl
  | release => rfl
  | _ => cases hc

theorem settled_step {t : State} {e : Action} {i : Nat} (h : (machine limits).step s e = some t)
    (hs : Settled i s) : Settled i t :=
  Pool.step_exists h (fun _ _ _ _ hact _ hc => callStep_settled (callStep_inv hact) hc) hs

/-- Who comes into the room by an event of a call, or goes out, and where the call is then. -/
theorem callEvent_cases {g : Shared} {v : Event Nat} (hv : callEvent g k c a = some v) :
    ((v = .sit k ∨ v = .join k) ∧ c.settled = false) ∨
      ((v = .leave k ∨ v = .giveUp k) ∧
        ((∃ outcome, c = .unwind outcome ∧ a = .dropFutures) ∨
          (c = .holding ∧ a = .dropPermit))) := by
  unfold callEvent at hv
  split at hv <;> grind [Call.settled]

theorem callStep_settles (h : CallStep limits s.shared k c a g' c')
    (hc : (∃ outcome, c = .unwind outcome ∧ a = .dropFutures) ∨ (c = .holding ∧ a = .dropPermit)) :
    c'.settled = true := by
  rcases hc with ⟨outcome, rfl, rfl⟩ | ⟨rfl, rfl⟩ <;> cases h <;> rfl

/-- Who comes into the room has not had his chance, and who goes out has had it. -/
theorem event_settled {t : State} {e : Action} {v : Event Nat}
    (h : (machine limits).step s e = some t) (hv : event s e = some v) :
    (∃ i, (v = .sit i ∨ v = .join i) ∧ ¬ Settled i s) ∨
      ∃ i, (v = .leave i ∨ v = .giveUp i) ∧ Settled i t := by
  cases e with
  | spawn | env => cases hv
  | act k a =>
      obtain ⟨c, g', c', hc, hact, rfl⟩ := Pool.step_act.mp h
      have hcall : callEvent s.shared k c a = some v := by
        rw [← hv, event, hc, Option.bind_some]
      rcases callEvent_cases hcall with ⟨hin, hc'⟩ | ⟨hout, hplace⟩
      · refine Or.inl ⟨k, hin, ?_⟩
        rintro ⟨d, hd, hsettled⟩
        obtain rfl := Option.some.inj (hc.symm.trans hd)
        rw [hc'] at hsettled
        cases hsettled
      · refine Or.inr ⟨k, hout, c', getElem?_set_of_some hc c', ?_⟩
        exact callStep_settles (callStep_inv hact) hplace

theorem hasSat_step {t : State} {e : Action} {i : Nat} (h : (machine limits).step s e = some t)
    (hi : Inv limits s) (hs : HasSat i s) : HasSat i t := by
  have ht := inv_step h hi
  rcases hs with hseat | hsettled
  · rcases event_cases h hi ht with ⟨-, heq⟩ | ⟨v, hv, hstep⟩
    · exact Or.inl (congrArg WaitingRoom.seated heq ▸ hseat : i ∈ (roomOf t ht).seated)
    · rcases hstep.stays hseat with hseat' | rfl
      · exact Or.inl hseat'
      · rcases event_settled h hv with ⟨j, hj | hj, -⟩ | ⟨j, hj | hj, hsettled⟩ <;> cases hj
        exact Or.inr hsettled
  · exact Or.inr (settled_step h hsettled)

theorem hasStood_step {t : State} {e : Action} {i : Nat} (h : (machine limits).step s e = some t)
    (hi : Inv limits s) (hs : HasStood i s) : HasStood i t := by
  have ht := inv_step h hi
  rcases hs with hline | hsat
  · rcases event_cases h hi ht with ⟨-, heq⟩ | ⟨v, hv, hstep⟩
    · exact Or.inl (congrArg WaitingRoom.line heq ▸ hline : i ∈ (roomOf t ht).line)
    · rcases hstep.stands hline with hline' | hseat | rfl
      · exact Or.inl hline'
      · exact Or.inr (Or.inl hseat)
      · rcases event_settled h hv with ⟨j, hj | hj, -⟩ | ⟨j, hj | hj, hsettled⟩ <;> cases hj
        exact Or.inr (Or.inr hsettled)
  · exact Or.inr (hasSat_step h hi hsat)

/-- A call in the line has not had its chance yet. -/
theorem not_settled_of_pending {i : Nat} (hi : Inv limits s) (h : s.shared.semaphore.Pending i) :
    ¬ Settled i s := by
  rintro ⟨c, hc, hsettled⟩
  obtain ⟨d, hd, hw⟩ := hi.pending i h
  obtain rfl := Option.some.inj (hc.symm.trans hd)
  cases c with
  | select | unwind => cases hsettled
  | _ => cases hw

theorem takes_once {t : State} {e : Action} {v : Event Nat} {i : Nat}
    (h : (machine limits).step s e = some t) (hi : Inv limits s) (ht : Inv limits t)
    (hv : event s e = some v) (hstep : WaitingRoom.Step (roomOf s hi) v (roomOf t ht))
    (hmem : i ∈ (roomOf s hi).takenBy v) : ¬ HasSat i s ∧ HasSat i t := by
  obtain ⟨hnot, hseat⟩ := hstep.takes hmem
  refine ⟨?_, Or.inl hseat⟩
  rintro (hsat | hsettled)
  · exact hnot hsat
  · cases v with
    | sit k =>
        obtain rfl := List.mem_singleton.mp hmem
        rcases event_settled h hv with ⟨j, hj | hj, hunsettled⟩ | ⟨j, hj | hj, -⟩ <;> cases hj
        exact hunsettled hsettled
    | leave k =>
        have hhead : s.shared.semaphore.waiters.head? = some i := Option.mem_toList.mp hmem
        exact not_settled_of_pending hi (Or.inl (List.mem_of_mem_head? hhead)) hsettled
    | join | giveUp => cases hmem

theorem joins_once {t : State} {e : Action} {v : Event Nat} {i : Nat}
    (h : (machine limits).step s e = some t) (hi : Inv limits s) (ht : Inv limits t)
    (hv : event s e = some v) (hstep : WaitingRoom.Step (roomOf s hi) v (roomOf t ht))
    (hmem : i ∈ (roomOf s hi).joinedBy v) : ¬ HasStood i s ∧ HasStood i t := by
  obtain ⟨hline, hseat, hline'⟩ := hstep.joins hmem
  refine ⟨?_, Or.inl hline'⟩
  rintro (hstood | hsat | hsettled)
  · exact hline hstood
  · exact hseat hsat
  · cases v with
    | join k =>
        obtain rfl := List.mem_singleton.mp hmem
        rcases event_settled h hv with ⟨j, hj | hj, hunsettled⟩ | ⟨j, hj | hj, -⟩ <;> cases hj
        exact hunsettled hsettled
    | sit | leave | giveUp => cases hmem

/-- What a run shows of the room is shown once, if who is shown has a property that he did
not have, and never loses. -/
theorem observed_nodup {f : WaitingRoom limits.maxSessions Nat → Event Nat → List Nat}
    {P : Nat → State → Prop} (hf : ∀ r v, (f r v).Nodup)
    (hnew : ∀ {s t : State} {e : Action} {v : Event Nat} {i : Nat},
      (machine limits).step s e = some t → ∀ (hi : Inv limits s) (ht : Inv limits t),
      event s e = some v → WaitingRoom.Step (roomOf s hi) v (roomOf t ht) →
      i ∈ f (roomOf s hi) v → ¬ P i s ∧ P i t)
    (hkeep : ∀ {s t : State} {e : Action} {i : Nat}, (machine limits).step s e = some t →
      Inv limits s → P i s → P i t)
    {t : State} {as : List Action} (hi : Inv limits s)
    (hrun : (machine limits).run s as = some t) :
    ((WaitingRoom.machine limits.maxSessions Nat).observed f (roomOf s hi)
        (events limits s as)).Nodup ∧
      ∀ i ∈ (WaitingRoom.machine limits.maxSessions Nat).observed f (roomOf s hi)
        (events limits s as), ¬ P i s := by
  induction as generalizing s with
  | nil => exact ⟨List.nodup_nil, fun i hmem => by cases hmem⟩
  | cons a as ih =>
      obtain ⟨u, hst, hu⟩ := (Machine.run_cons_iff _).mp hrun
      have hiu := inv_step hst hi
      obtain ⟨hnodup, hlater⟩ := ih hiu hu
      rw [events, Machine.observed_cons _ as hst, ← events]
      rcases event_cases hst hi hiu with ⟨hv, heq⟩ | ⟨v, hv, hstep⟩
      · rw [hv, Option.toList_none, List.nil_append, ← heq]
        exact ⟨hnodup, fun i hmem hP => hlater i hmem (hkeep hst hi hP)⟩
      · rw [hv, Option.toList_some, List.singleton_append,
          Machine.observed_cons _ _ (WaitingRoom.step_iff.mpr hstep)]
        refine ⟨List.nodup_append.mpr ⟨hf _ _, hnodup, ?_⟩, fun i hmem => ?_⟩
        · rintro i hnow j hlate rfl
          exact hlater i hlate (hnew hst hi hiu hv hstep hnow).2
        · rcases List.mem_append.mp hmem with hnow | hlate
          · exact (hnew hst hi hiu hv hstep hnow).1
          · exact fun hP => hlater i hlate (hkeep hst hi hP)

/-! ## Results -/

/-- The refinement. Every run of the gate is, by the events it shows, a run of a waiting room
with `max_sessions` seats, in which the parked calls stand in line in their order, the calls
with a permit sit, and `active_sessions` counts the seats taken. -/
theorem gate_refines_room (limits : Limits) {s : State} {as : List Action}
    (hrun : (machine limits).run (init limits) as = some s) :
    ∃ r : WaitingRoom limits.maxSessions Nat,
      (WaitingRoom.machine limits.maxSessions Nat).run .empty (events limits (init limits) as)
          = some r ∧
        r.line = s.shared.semaphore.waiters ∧
        (∀ i, i ∈ r.seated ↔ i ∈ s.shared.semaphore.assigned ∨ owns s i = true) ∧
        r.seated.card = activeSessions limits s.shared := by
  have hi : Inv limits s := inv_reachable ⟨as, hrun⟩
  have hroom := room_run (inv_init limits) hi hrun
  rw [roomOf_init] at hroom
  refine ⟨roomOf s hi, hroom, rfl, fun i => mem_seated, ?_⟩
  have hcard := card_seated hi
  show (seated s).card = limits.maxSessions - s.shared.semaphore.permits
  omega

/-- Three calls, one permit: when call 0 gives it back, it is call 1 that sits. -/
theorem gate_refines_room_handOver :
    ∃ (s : State) (r : WaitingRoom 1 Nat),
      (machine oneAndThree).run (init oneAndThree) (secondParked ++ [.act 0 .dropPermit]) = some s ∧
      (WaitingRoom.machine 1 Nat).run .empty [.sit 0, .join 1, .join 2, .leave 0] = some r ∧
      r.line = [2] ∧ 1 ∈ r.seated := by
  have hrun : ∃ s : State, (machine oneAndThree).run (init oneAndThree)
      (secondParked ++ [.act 0 .dropPermit]) = some s ∧ s.shared.semaphore.waiters = [2] ∧
      s.shared.semaphore.assigned = [1] := ⟨_, rfl, rfl, rfl⟩
  obtain ⟨s, hs, hw, ha⟩ := hrun
  obtain ⟨r, hr, hline, hseated, -⟩ := gate_refines_room oneAndThree hs
  refine ⟨s, r, hs, hr, hline.trans hw, (hseated 1).mpr (Or.inl ?_)⟩
  rw [ha]
  decide

/-- The queue is served in order, and loses nobody. Over every run, no call parks twice; the
calls that were handed a permit out of the queue, followed by those still parked, are in the
order in which they parked; and each call that parked was handed a permit, gave up, or is
still parked. -/
theorem served_in_order (limits : Limits) {s : State} {as : List Action}
    (hrun : (machine limits).run (init limits) as = some s) :
    let room : WaitingRoom limits.maxSessions Nat := .empty
    let es := events limits (init limits) as
    (room.joined es).Nodup ∧
      (room.called es ++ s.shared.semaphore.waiters).Sublist (room.joined es) ∧
      (room.called es ++ room.gaveUp es ++ s.shared.semaphore.waiters).Perm (room.joined es) := by
  intro room es
  have hi : Inv limits s := inv_reachable ⟨as, hrun⟩
  have hroom := room_run (inv_init limits) hi hrun
  have honce := observed_nodup (P := HasStood) WaitingRoom.nodup_joinedBy
    (fun h hi ht hv hstep hmem => joins_once h hi ht hv hstep hmem)
    (fun h hi hs => hasStood_step h hi hs) (inv_init limits) hrun
  rw [roomOf_init] at hroom honce
  exact ⟨honce.1, WaitingRoom.called_sublist hroom, WaitingRoom.called_perm hroom⟩

theorem served_in_order_handOver :
    let room : WaitingRoom 1 Nat := .empty
    let es := events oneAndThree (init oneAndThree) (secondParked ++ [.act 0 .dropPermit])
    room.called es = [1] ∧ room.joined es = [1, 2] ∧
      (room.called es ++ [2]).Sublist (room.joined es) := by
  have hrun : ∃ s : State, (machine oneAndThree).run (init oneAndThree)
      (secondParked ++ [.act 0 .dropPermit]) = some s ∧ s.shared.semaphore.waiters = [2] :=
    ⟨_, rfl, rfl⟩
  obtain ⟨s, hs, hw⟩ := hrun
  have h := (served_in_order oneAndThree hs).2.1
  rw [hw] at h
  exact ⟨rfl, rfl, h⟩

/-- A permit goes to a call at most once and comes back at most once. Over every run, no call
gets a permit twice, none gives one back twice, and the calls that have a permit, handed over
or collected, are those that got one and have not given it back. -/
theorem permit_once (limits : Limits) {s : State} {as : List Action}
    (hrun : (machine limits).run (init limits) as = some s) :
    let room : WaitingRoom limits.maxSessions Nat := .empty
    let es := events limits (init limits) as
    (room.taken es).Nodup ∧ (room.left es).Nodup ∧
      ∀ i, (i ∈ s.shared.semaphore.assigned ∨ owns s i = true) ↔
        i ∈ room.taken es ∧ i ∉ room.left es := by
  intro room es
  have hi : Inv limits s := inv_reachable ⟨as, hrun⟩
  have hroom := room_run (inv_init limits) hi hrun
  have honce := observed_nodup (P := HasSat) WaitingRoom.nodup_takenBy
    (fun h hi ht hv hstep hmem => takes_once h hi ht hv hstep hmem)
    (fun h hi hs => hasSat_step h hi hs) (inv_init limits) hrun
  rw [roomOf_init] at hroom honce
  have hnodup : (room.taken es).Nodup := honce.1
  have hbalance : (seated s).val + (room.left es : Multiset Nat) = room.taken es :=
    (WaitingRoom.seats_balance hroom).trans (zero_add _)
  have hsum : ((seated s).val + (room.left es : Multiset Nat)).Nodup := by
    rw [hbalance]
    exact Multiset.coe_nodup.mpr hnodup
  obtain ⟨-, hleft, hdisjoint⟩ := Multiset.nodup_add.mp hsum
  refine ⟨hnodup, Multiset.coe_nodup.mp hleft, fun i => ?_⟩
  have hmem : i ∈ room.taken es ↔ i ∈ seated s ∨ i ∈ room.left es := by
    rw [← Multiset.mem_coe, ← hbalance, Multiset.mem_add, Multiset.mem_coe, Finset.mem_val]
  rw [← mem_seated, hmem]
  constructor
  · intro hseat
    exact ⟨Or.inl hseat, fun hout => Multiset.disjoint_left.mp hdisjoint hseat hout⟩
  · rintro ⟨hseat | hout, hnot⟩
    · exact hseat
    · exact absurd hout hnot

theorem permit_once_handedThenDropped :
    let room : WaitingRoom 1 Nat := .empty
    let es := events oneAndOne (init oneAndOne) handedThenDropped
    room.taken es = [0, 1] ∧ room.left es = [0, 1] ∧
      (room.taken es).Nodup ∧ (room.left es).Nodup := by
  have hrun : ∃ s : State, (machine oneAndOne).run (init oneAndOne) handedThenDropped = some s :=
    ⟨_, rfl⟩
  obtain ⟨s, hs⟩ := hrun
  have h := permit_once oneAndOne hs
  exact ⟨rfl, rfl, h.1, h.2.1⟩

end Pinokio.Gate
