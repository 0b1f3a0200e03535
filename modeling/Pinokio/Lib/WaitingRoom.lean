/-
# Pinokio.Lib.WaitingRoom -- seats, and a line of those who wait for one

The specification of a limited number of places handed out first come, first served.
There is a set of those who sit and a line of those who wait. A room in which more sit than
there are seats, in which somebody waits beside a free seat, twice, or while sitting, is not
a value of the type. A seat that is left goes to the head of the line at once, so nobody
can take it in between; anybody in the line may give up.

Over a run, `called` are those who got a seat out of the line, in this order. `called_sublist`
is the order of service, `called_perm` that the line loses nobody, `seats_balance` that the
seats are neither lost nor made up.
-/
import Mathlib.Algebra.Order.Group.Multiset
import Mathlib.Data.Finset.Card
import Mathlib.Data.List.Perm.Basic
import Mathlib.Tactic.Abel
import Pinokio.Lib.Machine

universe u

/-- Who sits on the `seats` seats, and who waits for one, the next to be called first. -/
@[ext]
structure WaitingRoom (seats : Nat) (ι : Type u) where
  seated : Finset ι
  line : List ι
  card_le : seated.card ≤ seats
  full : line ≠ [] → seated.card = seats
  nodup : line.Nodup
  standing : ∀ i ∈ line, i ∉ seated

namespace WaitingRoom

variable {seats : Nat} {ι : Type u} [DecidableEq ι]

inductive Event (ι : Type u) where
  /-- Comes in and finds a free seat. -/
  | sit (i : ι)
  /-- Comes in, finds none, and joins the line. -/
  | join (i : ι)
  | leave (i : ι)
  | giveUp (i : ι)
  deriving DecidableEq, Repr

/-! ## What can happen -/

omit [DecidableEq ι] in
/-- Where a seat is free nobody waits. -/
theorem line_eq_nil (r : WaitingRoom seats ι) (h : r.seated.card < seats) : r.line = [] := by
  by_contra hne
  have := r.full hne
  omega

def empty : WaitingRoom seats ι where
  seated := ∅
  line := []
  card_le := Nat.zero_le _
  full hne := absurd rfl hne
  nodup := List.nodup_nil
  standing := by simp

def sit (r : WaitingRoom seats ι) (i : ι) (hfree : r.seated.card < seats) (hi : i ∉ r.seated) :
    WaitingRoom seats ι where
  seated := insert i r.seated
  line := []
  card_le := by
    rw [Finset.card_insert_of_notMem hi]
    exact hfree
  full hne := absurd rfl hne
  nodup := List.nodup_nil
  standing := by simp

def join (r : WaitingRoom seats ι) (i : ι) (hfull : r.seated.card = seats) (hi : i ∉ r.seated)
    (hline : i ∉ r.line) : WaitingRoom seats ι where
  seated := r.seated
  line := r.line ++ [i]
  card_le := r.card_le
  full _ := hfull
  nodup := List.nodup_append.mpr ⟨r.nodup, List.nodup_singleton i, fun j hj k hk heq =>
    hline (List.mem_singleton.mp hk ▸ heq ▸ hj)⟩
  standing j hj := by
    rcases List.mem_append.mp hj with hj | hj
    · exact r.standing j hj
    · rwa [List.mem_singleton.mp hj]

/-- Those who sit once `i` has left: the head of the line has its seat. -/
def seatedAfter (r : WaitingRoom seats ι) (i : ι) : Finset ι :=
  match r.line with
  | [] => r.seated.erase i
  | w :: _ => insert w (r.seated.erase i)

theorem card_seatedAfter (r : WaitingRoom seats ι) {i : ι} (hi : i ∈ r.seated) :
    (r.line = [] → (r.seatedAfter i).card + 1 = r.seated.card) ∧
      (r.line ≠ [] → (r.seatedAfter i).card = r.seated.card) := by
  have hpos : 0 < r.seated.card := Finset.card_pos.mpr ⟨i, hi⟩
  have herase : (r.seated.erase i).card + 1 = r.seated.card := Finset.card_erase_add_one hi
  unfold seatedAfter
  cases hl : r.line with
  | nil => exact ⟨fun _ => herase, fun hne => absurd rfl hne⟩
  | cons w ws =>
      have hw : w ∉ r.seated := r.standing w (by simp [hl])
      have hw' : w ∉ r.seated.erase i := fun h => hw (Finset.mem_of_mem_erase h)
      refine ⟨fun h => absurd h (List.cons_ne_nil _ _), fun _ => ?_⟩
      rw [Finset.card_insert_of_notMem hw']
      exact herase

theorem mem_seatedAfter (r : WaitingRoom seats ι) (i j : ι) :
    j ∈ r.seatedAfter i ↔ (j ≠ i ∧ j ∈ r.seated) ∨ r.line.head? = some j := by
  unfold seatedAfter
  cases r.line with
  | nil => simp
  | cons w ws =>
      rw [Finset.mem_insert, Finset.mem_erase, List.head?_cons, Option.some_inj, or_comm,
        eq_comm]

def leave (r : WaitingRoom seats ι) (i : ι) (hi : i ∈ r.seated) : WaitingRoom seats ι where
  seated := r.seatedAfter i
  line := r.line.tail
  card_le := by
    have hcard := r.card_seatedAfter hi
    have hle := r.card_le
    by_cases hl : r.line = []
    · have := hcard.1 hl
      omega
    · have := hcard.2 hl
      omega
  full hne := by
    have hl : r.line ≠ [] := fun hl => hne (by simp [hl])
    rw [(r.card_seatedAfter hi).2 hl, r.full hl]
  nodup := r.nodup.tail
  standing j hj := by
    have hmem : j ∈ r.line := List.mem_of_mem_tail hj
    have hj' : j ∉ r.seated := r.standing j hmem
    have hnodup := r.nodup
    unfold seatedAfter
    cases hl : r.line with
    | nil => exact fun h => hj' (Finset.mem_of_mem_erase h)
    | cons w ws =>
        rw [hl] at hj hnodup
        rw [Finset.mem_insert]
        rintro (rfl | h)
        · exact (List.nodup_cons.mp hnodup).1 hj
        · exact hj' (Finset.mem_of_mem_erase h)

def giveUp (r : WaitingRoom seats ι) (i : ι) : WaitingRoom seats ι where
  seated := r.seated
  line := r.line.erase i
  card_le := r.card_le
  full hne := r.full fun hl => hne (by simp [hl])
  nodup := r.nodup.erase i
  standing j hj := r.standing j (List.mem_of_mem_erase hj)

def step (r : WaitingRoom seats ι) : Event ι → Option (WaitingRoom seats ι)
  | .sit i =>
    if h : r.seated.card < seats ∧ i ∉ r.seated then some (r.sit i h.1 h.2) else none
  | .join i =>
    if h : r.seated.card = seats ∧ i ∉ r.seated ∧ i ∉ r.line then
      some (r.join i h.1 h.2.1 h.2.2)
    else none
  | .leave i => if h : i ∈ r.seated then some (r.leave i h) else none
  | .giveUp i => if i ∈ r.line then some (r.giveUp i) else none

def machine (seats : Nat) (ι : Type u) [DecidableEq ι] : Machine (WaitingRoom seats ι) (Event ι) :=
  ⟨step⟩

/-- Everything that one event can do. -/
inductive Step (r : WaitingRoom seats ι) : Event ι → WaitingRoom seats ι → Prop
  | sit (i : ι) (hfree : r.seated.card < seats) (hi : i ∉ r.seated) :
      Step r (.sit i) (r.sit i hfree hi)
  | join (i : ι) (hfull : r.seated.card = seats) (hi : i ∉ r.seated) (hline : i ∉ r.line) :
      Step r (.join i) (r.join i hfull hi hline)
  | leave (i : ι) (hi : i ∈ r.seated) : Step r (.leave i) (r.leave i hi)
  | giveUp (i : ι) (hi : i ∈ r.line) : Step r (.giveUp i) (r.giveUp i)

theorem step_iff {r t : WaitingRoom seats ι} {e : Event ι} :
    (machine seats ι).step r e = some t ↔ Step r e t := by
  constructor
  · intro h
    cases e with
    | sit i =>
        obtain ⟨hi, h⟩ := Option.dite_none_right_eq_some.mp h
        obtain rfl := Option.some.inj h
        exact .sit i hi.1 hi.2
    | join i =>
        obtain ⟨hi, h⟩ := Option.dite_none_right_eq_some.mp h
        obtain rfl := Option.some.inj h
        exact .join i hi.1 hi.2.1 hi.2.2
    | leave i =>
        obtain ⟨hi, h⟩ := Option.dite_none_right_eq_some.mp h
        obtain rfl := Option.some.inj h
        exact .leave i hi
    | giveUp i =>
        obtain ⟨hi, h⟩ := Option.ite_none_right_eq_some.mp h
        obtain rfl := Option.some.inj h
        exact .giveUp i hi
  · intro h
    cases h with
    | sit i hfree hi => exact dif_pos ⟨hfree, hi⟩
    | join i hfull hi hline => exact dif_pos ⟨hfull, hi, hline⟩
    | leave i hi => exact dif_pos hi
    | giveUp i hi => exact if_pos hi

/-! ## What a run shows -/

/-- The one who joins the line. -/
def joinedBy (_ : WaitingRoom seats ι) : Event ι → List ι
  | .join i => [i]
  | _ => []

def gaveUpBy (_ : WaitingRoom seats ι) : Event ι → List ι
  | .giveUp i => [i]
  | _ => []

def leftBy (_ : WaitingRoom seats ι) : Event ι → List ι
  | .leave i => [i]
  | _ => []

/-- The one who is called out of the line. -/
def calledBy (r : WaitingRoom seats ι) : Event ι → List ι
  | .leave _ => r.line.head?.toList
  | _ => []

/-- The one who takes a seat, a free one or out of the line. -/
def takenBy (r : WaitingRoom seats ι) : Event ι → List ι
  | .sit i => [i]
  | .leave _ => r.line.head?.toList
  | _ => []

/-- Those who join the line in a run, in this order. -/
def joined (r : WaitingRoom seats ι) (es : List (Event ι)) : List ι :=
  (machine seats ι).observed joinedBy r es

def gaveUp (r : WaitingRoom seats ι) (es : List (Event ι)) : List ι :=
  (machine seats ι).observed gaveUpBy r es

def left (r : WaitingRoom seats ι) (es : List (Event ι)) : List ι :=
  (machine seats ι).observed leftBy r es

def called (r : WaitingRoom seats ι) (es : List (Event ι)) : List ι :=
  (machine seats ι).observed calledBy r es

def taken (r : WaitingRoom seats ι) (es : List (Event ι)) : List ι :=
  (machine seats ι).observed takenBy r es

/-! ## One event -/

variable {r t : WaitingRoom seats ι} {e : Event ι} {i : ι}

omit [DecidableEq ι] in
theorem nodup_joinedBy (r : WaitingRoom seats ι) (e : Event ι) : (r.joinedBy e).Nodup := by
  cases e <;> simp [joinedBy]

omit [DecidableEq ι] in
theorem nodup_takenBy (r : WaitingRoom seats ι) (e : Event ι) : (r.takenBy e).Nodup := by
  cases e with
  | leave i =>
      show r.line.head?.toList.Nodup
      cases r.line.head? <;> simp
  | _ => simp [takenBy]

/-- Who joins the line was not in the room. -/
theorem Step.joins (h : Step r e t) (hi : i ∈ r.joinedBy e) :
    i ∉ r.line ∧ i ∉ r.seated ∧ i ∈ t.line := by
  cases h with
  | join j hfull hj hline =>
      obtain rfl := List.mem_singleton.mp hi
      exact ⟨hline, hj, List.mem_append_right _ (List.mem_singleton_self _)⟩
  | _ => cases hi

/-- Who takes a seat did not sit, and sits then. -/
theorem Step.takes (h : Step r e t) (hi : i ∈ r.takenBy e) : i ∉ r.seated ∧ i ∈ t.seated := by
  cases h with
  | sit j hfree hj =>
      obtain rfl := List.mem_singleton.mp hi
      exact ⟨hj, Finset.mem_insert_self _ _⟩
  | leave j hj =>
      have hhead : r.line.head? = some i := Option.mem_toList.mp hi
      refine ⟨r.standing i (List.mem_of_mem_head? hhead), ?_⟩
      exact (r.mem_seatedAfter j i).mpr (Or.inr hhead)
  | join | giveUp => cases hi

theorem Step.stays (h : Step r e t) (hi : i ∈ r.seated) : i ∈ t.seated ∨ e = .leave i := by
  cases h with
  | sit j hfree hj => exact Or.inl (Finset.mem_insert_of_mem hi)
  | join | giveUp => exact Or.inl hi
  | leave j hj =>
      by_cases hij : i = j
      · exact Or.inr (congrArg _ hij.symm)
      · exact Or.inl ((r.mem_seatedAfter j i).mpr (Or.inl ⟨hij, hi⟩))

omit [DecidableEq ι] in
theorem mem_head_or_tail {l : List ι} (hi : i ∈ l) : l.head? = some i ∨ i ∈ l.tail := by
  cases l with
  | nil => cases hi
  | cons w ws =>
      rcases List.mem_cons.mp hi with rfl | hi
      · exact Or.inl rfl
      · exact Or.inr hi

theorem Step.stands (h : Step r e t) (hi : i ∈ r.line) :
    i ∈ t.line ∨ i ∈ t.seated ∨ e = .giveUp i := by
  cases h with
  | sit j hfree hj =>
      rw [r.line_eq_nil hfree] at hi
      cases hi
  | join j hfull hj hline => exact Or.inl (List.mem_append_left _ hi)
  | leave j hj =>
      rcases mem_head_or_tail hi with hhead | htail
      · exact Or.inr (Or.inl ((r.mem_seatedAfter j i).mpr (Or.inr hhead)))
      · exact Or.inl htail
  | giveUp j hj =>
      by_cases hij : i = j
      · exact Or.inr (Or.inr (congrArg _ hij.symm))
      · exact Or.inl ((List.mem_erase_of_ne hij).mpr hi)

/-- Those called by an event and those left in line come in the order of the line and the
one who joins it. -/
theorem Step.sublist (h : Step r e t) :
    (r.calledBy e ++ t.line).Sublist (r.line ++ r.joinedBy e) := by
  cases h with
  | sit i hfree hi => exact List.nil_sublist _
  | join i hfull hi hline => exact List.Sublist.refl _
  | leave i hi =>
      show (r.line.head?.toList ++ r.line.tail).Sublist (r.line ++ [])
      cases r.line <;> simp
  | giveUp i hi =>
      show (r.line.erase i).Sublist (r.line ++ [])
      rw [List.append_nil]
      exact List.erase_sublist

theorem Step.perm (h : Step r e t) :
    (r.calledBy e ++ r.gaveUpBy e ++ t.line).Perm (r.line ++ r.joinedBy e) := by
  cases h with
  | sit i hfree hi =>
      rw [r.line_eq_nil hfree]
      exact List.Perm.refl _
  | join i hfull hi hline => exact List.Perm.refl _
  | leave i hi =>
      show (r.line.head?.toList ++ [] ++ r.line.tail).Perm (r.line ++ [])
      cases r.line <;> simp
  | giveUp i hi =>
      show (i :: r.line.erase i).Perm (r.line ++ [])
      rw [List.append_nil]
      exact (List.perm_cons_erase hi).symm

theorem Step.balance (h : Step r e t) :
    t.seated.val + r.leftBy e = r.seated.val + r.takenBy e := by
  cases h with
  | sit i hfree hi =>
      show (insert i r.seated).val + 0 = r.seated.val + {i}
      rw [Finset.insert_val_of_notMem hi, add_zero, ← Multiset.singleton_add, add_comm]
  | join i hfull hi hline => rfl
  | leave i hi =>
      have herase : (r.seated.erase i).val + {i} = r.seated.val := by
        rw [Finset.erase_val, add_comm, Multiset.singleton_add, Multiset.cons_erase hi]
      show (r.seatedAfter i).val + {i} = r.seated.val + (r.line.head?.toList : List ι)
      unfold seatedAfter
      cases hl : r.line with
      | nil => exact herase.trans (add_zero _).symm
      | cons w ws =>
          have hw : w ∉ r.seated.erase i := fun h =>
            r.standing w (by simp [hl]) (Finset.mem_of_mem_erase h)
          show (insert w (r.seated.erase i)).val + {i} = r.seated.val + {w}
          rw [Finset.insert_val_of_notMem hw, ← herase, ← Multiset.singleton_add]
          abel
  | giveUp i hi => rfl

/-! ## Order and balance of a run -/

variable {es : List (Event ι)}

/-- First come, first served: over a run, those who were called and those still in line are
in the order in which they came into the line. -/
theorem called_sublist (hrun : (machine seats ι).run r es = some t) :
    (r.called es ++ t.line).Sublist (r.line ++ r.joined es) := by
  unfold called joined
  induction es generalizing r with
  | nil =>
      obtain rfl : r = t := Option.some.inj hrun
      simp [Machine.observed]
  | cons e es ih =>
      obtain ⟨u, hst, hu⟩ := (Machine.run_cons_iff _).mp hrun
      have hstep := (step_iff.mp hst).sublist
      rw [Machine.observed_cons _ es hst, Machine.observed_cons _ es hst, List.append_assoc,
        ← List.append_assoc r.line]
      have hrest := (List.Sublist.refl (r.calledBy e)).append (ih hu)
      rw [← List.append_assoc _ u.line] at hrest
      exact hrest.trans (hstep.append (List.Sublist.refl _))

/-- The line loses nobody: over a run, everybody who was or came in line was called, gave
up, or is still in line, once for each time. -/
theorem called_perm (hrun : (machine seats ι).run r es = some t) :
    (r.called es ++ r.gaveUp es ++ t.line).Perm (r.line ++ r.joined es) := by
  unfold called gaveUp joined
  induction es generalizing r with
  | nil =>
      obtain rfl : r = t := Option.some.inj hrun
      simp [Machine.observed]
  | cons e es ih =>
      obtain ⟨u, hst, hu⟩ := (Machine.run_cons_iff _).mp hrun
      have hstep := (step_iff.mp hst).perm
      rw [Machine.observed_cons _ es hst, Machine.observed_cons _ es hst,
        Machine.observed_cons _ es hst]
      rw [List.perm_iff_count] at *
      intro i
      have hhead := hstep i
      have htail := List.perm_iff_count.mp (ih hu) i
      simp only [List.count_append] at *
      omega

/-- The seats balance: over a run, those who sit now and all who left are those who sat
before and all who took a seat, once for each time. -/
theorem seats_balance (hrun : (machine seats ι).run r es = some t) :
    t.seated.val + r.left es = r.seated.val + r.taken es := by
  unfold left taken
  induction es generalizing r with
  | nil =>
      obtain rfl : r = t := Option.some.inj hrun
      rfl
  | cons e es ih =>
      obtain ⟨u, hst, hu⟩ := (Machine.run_cons_iff _).mp hrun
      rw [Machine.observed_cons _ es hst, Machine.observed_cons _ es hst, ← Multiset.coe_add,
        ← Multiset.coe_add]
      calc t.seated.val + (↑(r.leftBy e) + ↑((machine seats ι).observed leftBy u es))
          = t.seated.val + (machine seats ι).observed leftBy u es + r.leftBy e := by abel
        _ = u.seated.val + r.leftBy e + (machine seats ι).observed takenBy u es := by
            rw [ih hu]
            abel
        _ = r.seated.val + (↑(r.takenBy e) + ↑((machine seats ι).observed takenBy u es)) := by
            rw [(step_iff.mp hst).balance, add_assoc]

end WaitingRoom
