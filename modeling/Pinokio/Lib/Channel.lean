/-
# Pinokio.Lib.Channel -- first-in first-out channels, and stages that implement them

The specification of one direction of a connection: items are put in at one
end and delivered at the other in the same order, each at most once, until the
channel is cut. `both` runs two machines side by side without any coupling, so
two channels under it are independent.

`RelayFlow` is what holds of a stage that reads items one at a time and passes on
their images under a partial map: everything read is passed on, except for at
most one item that is held, and nothing is read after an item that closes. A
flow implements a channel of images.
-/
import Pinokio.Lib.Machine
import Mathlib.Data.List.Induction
import Mathlib.Data.Nat.Init

universe u v w x

/-- What was put into the channel, and how much of it has been delivered. -/
structure Channel (α : Type u) where
  sent : List α
  delivered : Nat
  cut : Bool
  delivered_le : delivered ≤ sent.length

namespace Channel

variable {α : Type u}

inductive Action (α : Type u) where
  | put (x : α)
  | deliver
  | cut

def new : Channel α := { sent := [], delivered := 0, cut := false, delivered_le := Nat.le_refl 0 }

/-- The delivered items. -/
def received (c : Channel α) : List α := c.sent.take c.delivered

def put (c : Channel α) (x : α) : Channel α :=
  { c with
    sent := c.sent ++ [x]
    delivered_le := by
      rw [List.length_append]
      exact Nat.le_add_right_of_le c.delivered_le }

def deliver (c : Channel α) : Option (Channel α) :=
  if h : c.delivered < c.sent.length ∧ c.cut = false then
    some { c with delivered := c.delivered + 1, delivered_le := h.1 }
  else none

/-- Nothing is delivered after a cut. -/
def step (c : Channel α) : Action α → Option (Channel α)
  | .put x => some (c.put x)
  | .deliver => c.deliver
  | .cut => some { c with cut := true }

def machine : Machine (Channel α) (Action α) := ⟨step⟩

/-- The channel in which the first `n` of the items `sent` are delivered. -/
def ofList (sent : List α) (n : Nat) (cut : Bool) : Channel α :=
  { sent, delivered := min n sent.length, cut, delivered_le := Nat.min_le_right _ _ }

theorem put_ofList {sent : List α} {n : Nat} (h : n ≤ sent.length) (cut : Bool) (x : α) :
    (ofList sent n cut).put x = ofList (sent ++ [x]) n cut := by
  simp only [ofList, put, mk.injEq, true_and, and_true, List.length_append, List.length_singleton]
  omega

theorem step_deliver_ofList {sent : List α} {n : Nat} (h : n < sent.length) :
    step (ofList sent n false) .deliver = some (ofList sent (n + 1) false) := by
  have hn : min n sent.length = n := Nat.min_eq_left (Nat.le_of_lt h)
  have hnext : min (n + 1) sent.length = n + 1 := Nat.min_eq_left h
  simp only [step, deliver, ofList, hn, hnext, h, and_self, dite_true]

/-- A channel can take in items, then deliver some more of what it holds, then
be cut; after a cut it delivers nothing. -/
theorem reachable_ofList {sent ys : List α} {n n' : Nat} (cut cut' : Bool) (h : n ≤ sent.length)
    (hn : n ≤ n') (hn' : n' ≤ (sent ++ ys).length)
    (hcut : cut = true → n' = n ∧ cut' = true) :
    machine.Reachable (ofList sent n cut) (ofList (sent ++ ys) n' cut') := by
  have hput : machine.Reachable (ofList sent n cut) (ofList (sent ++ ys) n cut) := by
    induction ys using List.reverseRecOn generalizing n' with
    | nil =>
        rw [List.append_nil]
        exact Machine.Reachable.refl _
    | append_singleton ys y ih =>
        have hle : n ≤ (sent ++ ys).length := by
          rw [List.length_append]
          omega
        refine (ih (Nat.le_refl n) hle fun hc => ⟨rfl, (hcut hc).2⟩).tail (a := .put y) ?_
        show some ((ofList (sent ++ ys) n cut).put y) = _
        rw [put_ofList hle, List.append_assoc]
  have hdeliver : machine.Reachable (ofList (sent ++ ys) n cut) (ofList (sent ++ ys) n' cut) := by
    cases cut with
    | true =>
        rw [(hcut rfl).1]
        exact Machine.Reachable.refl _
    | false =>
        induction n', hn using Nat.le_induction with
        | base => exact Machine.Reachable.refl _
        | succ k hk ih =>
            refine (ih (Nat.le_of_succ_le hn') fun hc => by cases hc).tail (a := .deliver) ?_
            exact step_deliver_ofList hn'
  have hend : machine.Reachable (ofList (sent ++ ys) n' cut) (ofList (sent ++ ys) n' cut') := by
    cases cut' with
    | true => exact (Machine.Reachable.refl _).tail (a := .cut) rfl
    | false =>
        cases cut with
        | true => cases (hcut rfl).2
        | false => exact Machine.Reachable.refl _
  exact (hput.trans hdeliver).trans hend

theorem received_ofList (sent : List α) (n : Nat) (cut : Bool) :
    (ofList sent n cut).received = sent.take n := by
  simp only [received, ofList]
  exact (List.take_eq_take_min).symm

end Channel

namespace Machine

variable {σ : Type u} {α : Type v} {τ : Type w} {β : Type x}

/-- Two machines side by side. -/
def both (M : Machine σ α) (N : Machine τ β) : Machine (σ × τ) (α ⊕ β) where
  step s
    | .inl a => (M.step s.1 a).map fun s₁ => (s₁, s.2)
    | .inr b => (N.step s.2 b).map fun s₂ => (s.1, s₂)

variable {M : Machine σ α} {N : Machine τ β}

theorem both_left {s s' : σ} (h : M.Reachable s s') (t : τ) :
    (both M N).Reachable (s, t) (s', t) := by
  obtain ⟨as, has⟩ := h
  induction as generalizing s with
  | nil =>
      obtain rfl := Option.some.inj has
      exact Reachable.refl _
  | cons a as ih =>
      obtain ⟨u, hst, hu⟩ := M.run_cons_iff.mp has
      exact ((Reachable.refl _).tail (a := .inl a) (by simp [both, hst])).trans (ih hu)

theorem both_right (s : σ) {t t' : τ} (h : N.Reachable t t') :
    (both M N).Reachable (s, t) (s, t') := by
  obtain ⟨bs, hbs⟩ := h
  induction bs generalizing t with
  | nil =>
      obtain rfl := Option.some.inj hbs
      exact Reachable.refl _
  | cons b bs ih =>
      obtain ⟨u, hst, hu⟩ := N.run_cons_iff.mp hbs
      exact ((Reachable.refl _).tail (a := .inr b) (by simp [both, hst])).trans (ih hu)

/-- Machines that run side by side reach together what each one reaches. -/
theorem both_reachable {s s' : σ} {t t' : τ} (hs : M.Reachable s s') (ht : N.Reachable t t') :
    (both M N).Reachable (s, t) (s', t') :=
  (both_left hs t).trans (both_right s' ht)

end Machine

/-! ## A stage that reads, converts and passes on -/

/-- Of the items `sent`, those in `read` have been read and those in `unread`
have not; `out` are the images passed on and `held` an image that is not, or will
not be, passed on; `fresh` says that reading may go on. -/
structure RelayFlow {A : Type u} {B : Type v} (f : A → Option B) (closes : A → Bool)
    (sent read unread : List A) (out : List B) (held : Option B) (fresh : Bool) : Prop where
  sent_eq : sent = read ++ unread
  out_eq : read.filterMap f = out ++ held.toList
  closed : ∀ m ∈ read.dropLast, closes m = false
  open_of_fresh : fresh = true → ∀ m ∈ read, closes m = false

namespace RelayFlow

variable {A : Type u} {B : Type v} {f : A → Option B} {closes : A → Bool}
variable {sent read unread : List A} {out : List B} {held : Option B} {fresh : Bool}

theorem start (f : A → Option B) (closes : A → Bool) : RelayFlow f closes [] [] [] [] none true := by
  constructor <;> simp

theorem put (h : RelayFlow f closes sent read unread out held fresh) (x : A) :
    RelayFlow f closes (sent ++ [x]) read (unread ++ [x]) out held fresh :=
  ⟨by rw [h.sent_eq, List.append_assoc], h.out_eq, h.closed, h.open_of_fresh⟩

/-- Reading the next item holds its image, when it has one. -/
theorem take {m : A} (h : RelayFlow f closes sent read (m :: unread) out none true) :
    RelayFlow f closes sent (read ++ [m]) unread out (f m) (!closes m) := by
  have hopen := h.open_of_fresh rfl
  refine ⟨by rw [h.sent_eq]; simp, ?_, by simpa using hopen, fun hm => ?_⟩
  · have hout := h.out_eq
    simp only [Option.toList_none, List.append_nil] at hout
    rw [List.filterMap_append, hout]
    cases hf : f m <;> simp [hf]
  · intro k hk
    rcases List.mem_append.mp hk with hk | hk
    · exact hopen k hk
    · obtain rfl := List.mem_singleton.mp hk
      simpa using hm

theorem pass {b : B} (h : RelayFlow f closes sent read unread out (some b) fresh) :
    RelayFlow f closes sent read unread (out ++ [b]) none fresh :=
  ⟨h.sent_eq, by simpa using h.out_eq, h.closed, h.open_of_fresh⟩

/-- A stage may always read less. -/
theorem mono {fresh' : Bool} (h : RelayFlow f closes sent read unread out held fresh)
    (hf : fresh' = true → fresh = true) : RelayFlow f closes sent read unread out held fresh' :=
  ⟨h.sent_eq, h.out_eq, h.closed, fun hf' => h.open_of_fresh (hf hf')⟩

theorem stop (h : RelayFlow f closes sent read unread out held fresh) :
    RelayFlow f closes sent read unread out held false :=
  h.mono (by simp)

/-- The images passed on are the first ones of all images. -/
theorem images_eq (h : RelayFlow f closes sent read unread out held fresh) :
    sent.filterMap f = out ++ (held.toList ++ unread.filterMap f) := by
  rw [h.sent_eq, List.filterMap_append, h.out_eq, List.append_assoc]

theorem length_le (h : RelayFlow f closes sent read unread out held fresh) :
    out.length ≤ (sent.filterMap f).length := by
  rw [h.images_eq, List.length_append]
  exact Nat.le_add_right _ _

/-- Seen as a channel of images, the flow has delivered what it passed on. -/
theorem received (h : RelayFlow f closes sent read unread out held fresh) (cut : Bool) :
    (Channel.ofList (sent.filterMap f) out.length cut).received = out := by
  rw [Channel.received_ofList, h.images_eq]
  exact List.take_left

end RelayFlow
