/-
# Pinokio.Lib.Processes -- a process table: numbers, groups, sessions, descent

A process has a number, belongs to a process group, which goes by the number of the
process that founded it, and to a session. Numbers come back: a new process may take
every number that no process and no process group goes by. A process that has exited
keeps its number until it is reaped, and a group keeps the number of its founder while
it has members.

A label can be put on a child when it is forked; `origin` is the first label among the
ancestors of a process, its own included, so that it tells from which labelled child a
process descends. The results say when a group holds nothing but descendants of one
child: everything in their sessions descends from it too (`Owns`), and this lasts for
as long as no other process founds a group with the same number (`Founds`).
-/
import Mathlib.Data.List.Basic
import Mathlib.Data.List.Nodup

universe u

namespace Processes

/-- A process. `sid` is the serial number of its session. -/
structure Proc (ι : Type u) where
  pid : Nat
  pgid : Nat
  sid : Nat
  origin : Option ι
  zombie : Bool
  deriving DecidableEq, Repr

/-- The processes that are there, no two with one number, and how many sessions were
made so far. -/
structure Table (ι : Type u) where
  procs : List (Proc ι)
  sessions : Nat
  nodup : (procs.map Proc.pid).Nodup
  sid_lt : ∀ p ∈ procs, p.sid < sessions

/-- What changes the table. The child of a `fork` can be given a label, and `setpgid`
moves a process to its own group or to another group of its session. -/
inductive Call (ι : Type u) where
  | fork (parent child : Nat) (label : Option ι)
  | setsid (pid : Nat)
  | setpgid (pid pgid : Nat)
  | exit (pid : Nat)
  | reap (pid : Nat)
  deriving DecidableEq, Repr

variable {ι : Type u}

namespace Table

variable (t : Table ι)

/-! ## The calls -/

def find? (n : Nat) : Option (Proc ι) := t.procs.find? fun p => p.pid = n

/-- The process with this number, unless it has exited. -/
def live? (n : Nat) : Option (Proc ι) := (t.find? n).filter fun p => !p.zombie

def group (n : Nat) : List (Proc ι) := t.procs.filter fun p => p.pgid = n

/-- Neither a process nor a group goes by this number. 0 and 1 are never given out. -/
def Free (n : Nat) : Prop := 1 < n ∧ ∀ p ∈ t.procs, p.pid ≠ n ∧ p.pgid ≠ n

instance (n : Nat) : Decidable (t.Free n) := inferInstanceAs (Decidable (_ ∧ _))

/-- The process `n` changed by `f`, in a table that has made `sessions` sessions. -/
def update (n : Nat) (f : Proc ι → Proc ι) (sessions : Nat) (hpid : ∀ p, (f p).pid = p.pid)
    (hle : t.sessions ≤ sessions) (hsid : ∀ p, p.sid < sessions → (f p).sid < sessions) :
    Table ι where
  procs := t.procs.map fun p => if p.pid = n then f p else p
  sessions := sessions
  nodup := by
    have hpids : (fun p : Proc ι => (if p.pid = n then f p else p).pid) = Proc.pid := by
      funext p
      split
      · exact hpid p
      · rfl
    rw [List.map_map, Function.comp_def, hpids]
    exact t.nodup
  sid_lt := by
    intro q hq
    obtain ⟨p, hp, rfl⟩ := List.mem_map.mp hq
    have hlt := Nat.lt_of_lt_of_le (t.sid_lt p hp) hle
    split
    · exact hsid p hlt
    · exact hlt

/-- What a parent hands down to its child. -/
def childOf (p : Proc ι) (child : Nat) (label : Option ι) : Proc ι :=
  { pid := child, pgid := p.pgid, sid := p.sid, origin := p.origin.or label, zombie := false }

def add (p : Proc ι) (child : Nat) (label : Option ι) (hp : p.sid < t.sessions)
    (hfree : t.Free child) : Table ι where
  procs := t.procs ++ [childOf p child label]
  sessions := t.sessions
  nodup := by
    have hnew : child ∉ t.procs.map Proc.pid := by
      intro hmem
      obtain ⟨q, hq, hpid⟩ := List.mem_map.mp hmem
      exact (hfree.2 q hq).1 hpid
    rw [List.map_append]
    exact List.nodup_append.mpr ⟨t.nodup, List.nodup_singleton _, by
      rintro a ha b hb rfl
      obtain rfl := List.mem_singleton.mp hb
      exact hnew ha⟩
  sid_lt := by
    intro q hq
    rcases List.mem_append.mp hq with hq | hq
    · exact t.sid_lt q hq
    · obtain rfl := List.mem_singleton.mp hq
      exact hp

def remove (n : Nat) : Table ι where
  procs := t.procs.filter fun p => p.pid ≠ n
  sessions := t.sessions
  nodup := t.nodup.sublist (List.filter_sublist.map _)
  sid_lt := fun p hp => t.sid_lt p (List.mem_filter.mp hp).1

/-- A new session with a new group, both led by `n`. -/
def withSession (n : Nat) : Table ι :=
  t.update n (fun p => { p with pgid := n, sid := t.sessions }) (t.sessions + 1) (fun _ => rfl)
    (Nat.le_succ _) (fun _ _ => Nat.lt_succ_self _)

def withGroup (n g : Nat) : Table ι :=
  t.update n (fun p => { p with pgid := g }) t.sessions (fun _ => rfl) (Nat.le_refl _)
    (fun _ h => h)

def withExit (n : Nat) : Table ι :=
  t.update n (fun p => { p with zombie := true }) t.sessions (fun _ => rfl) (Nat.le_refl _)
    (fun _ h => h)

theorem find?_mem {n : Nat} {p : Proc ι} (h : t.find? n = some p) : p ∈ t.procs ∧ p.pid = n :=
  ⟨List.mem_of_find?_eq_some h, by simpa using List.find?_some h⟩

theorem live?_mem {n : Nat} {p : Proc ι} (h : t.live? n = some p) :
    p ∈ t.procs ∧ p.pid = n ∧ p.zombie = false := by
  obtain ⟨hfind, hlive⟩ := Option.filter_eq_some_iff.mp h
  obtain ⟨hmem, hpid⟩ := t.find?_mem hfind
  exact ⟨hmem, hpid, by simpa using hlive⟩

/-- `none` where the call fails. An exit that is over changes nothing. -/
def step (t : Table ι) : Call ι → Option (Table ι)
  | .fork parent child label =>
    match h : t.live? parent with
    | none => none
    | some p =>
      if hfree : t.Free child then
        some (t.add p child label (t.sid_lt p (t.live?_mem h).1) hfree)
      else none
  | .setsid n =>
    (t.live? n).bind fun _ =>
      -- it fails for the leader of a group
      if ∀ p ∈ t.procs, p.pgid ≠ n then some (t.withSession n) else none
  | .setpgid n g =>
    (t.live? n).bind fun p =>
      if g = n ∨ ∃ q ∈ t.procs, q.pgid = g ∧ q.sid = p.sid then some (t.withGroup n g) else none
  | .exit n => (t.find? n).map fun _ => t.withExit n
  | .reap n => (t.find? n).bind fun p => if p.zombie then some (t.remove n) else none

/-! ## Everything a call can do -/

variable {t}

/-- Everything a call that succeeds does. -/
inductive Step (t : Table ι) : Call ι → Table ι → Prop
  | fork {p child label} (hp : p ∈ t.procs) (hlive : p.zombie = false) (hfree : t.Free child) :
      Step t (.fork p.pid child label) (t.add p child label (t.sid_lt p hp) hfree)
  | setsid {p} (hp : p ∈ t.procs) (hlive : p.zombie = false)
      (hgroup : ∀ q ∈ t.procs, q.pgid ≠ p.pid) : Step t (.setsid p.pid) (t.withSession p.pid)
  | setpgid {p g} (hp : p ∈ t.procs) (hlive : p.zombie = false)
      (hg : g = p.pid ∨ ∃ q ∈ t.procs, q.pgid = g ∧ q.sid = p.sid) :
      Step t (.setpgid p.pid g) (t.withGroup p.pid g)
  | exit {p} (hp : p ∈ t.procs) : Step t (.exit p.pid) (t.withExit p.pid)
  | reap {p} (hp : p ∈ t.procs) (hzombie : p.zombie = true) : Step t (.reap p.pid) (t.remove p.pid)

theorem step_inv {t' : Table ι} {c : Call ι} (h : t.step c = some t') : Step t c t' := by
  cases c with
  | fork parent child label =>
      simp only [step] at h
      split at h
      next => cases h
      next p hlive =>
        obtain ⟨hp, rfl, hzombie⟩ := t.live?_mem hlive
        split at h
        next hfree =>
          obtain rfl := Option.some.inj h
          exact .fork hp hzombie hfree
        next => cases h
  | setsid n =>
      obtain ⟨p, hlive, h⟩ := Option.bind_eq_some_iff.mp h
      obtain ⟨hp, rfl, hzombie⟩ := t.live?_mem hlive
      obtain ⟨hgroup, h⟩ := Option.ite_none_right_eq_some.mp h
      obtain rfl := Option.some.inj h
      exact .setsid hp hzombie hgroup
  | setpgid n g =>
      obtain ⟨p, hlive, h⟩ := Option.bind_eq_some_iff.mp h
      obtain ⟨hp, rfl, hzombie⟩ := t.live?_mem hlive
      obtain ⟨hg, h⟩ := Option.ite_none_right_eq_some.mp h
      obtain rfl := Option.some.inj h
      exact .setpgid hp hzombie hg
  | exit n =>
      obtain ⟨p, hfind, rfl⟩ := Option.map_eq_some_iff.mp h
      obtain ⟨hp, rfl⟩ := t.find?_mem hfind
      exact .exit hp
  | reap n =>
      obtain ⟨p, hfind, h⟩ := Option.bind_eq_some_iff.mp h
      obtain ⟨hp, rfl⟩ := t.find?_mem hfind
      obtain ⟨hzombie, h⟩ := Option.ite_none_right_eq_some.mp h
      obtain rfl := Option.some.inj h
      exact .reap hp hzombie

/-- `Came t c p q`: the process `q` after the call `c` was `p` before it, or is its child. -/
inductive Came (t : Table ι) : Call ι → Proc ι → Proc ι → Prop
  | same {c p} (hc : c ≠ .setsid p.pid) : Came t c p p
  | forked {p child label} (hlive : p.zombie = false) (hfree : t.Free child) :
      Came t (.fork p.pid child label) p (childOf p child label)
  | setsid {p} (hlive : p.zombie = false) :
      Came t (.setsid p.pid) p { p with pgid := p.pid, sid := t.sessions }
  | setpgid {p g} (hlive : p.zombie = false)
      (hg : g = p.pid ∨ ∃ q ∈ t.procs, q.pgid = g ∧ q.sid = p.sid) :
      Came t (.setpgid p.pid g) p { p with pgid := g }
  | exit {p} : Came t (.exit p.pid) p { p with zombie := true }

theorem eq_of_pid {p q : Proc ι} (hp : p ∈ t.procs) (hq : q ∈ t.procs) (h : p.pid = q.pid) :
    p = q :=
  List.inj_on_of_nodup_map t.nodup hp hq h

/-- A process changed by its number is changed, and the others are as they were. -/
theorem update_mem {n : Nat} {f : Proc ι → Proc ι} {sessions : Nat} {hpid hle hsid} {q : Proc ι}
    (h : q ∈ (t.update n f sessions hpid hle hsid).procs) :
    ∃ p ∈ t.procs, (p.pid = n ∧ q = f p) ∨ (p.pid ≠ n ∧ q = p) := by
  obtain ⟨p, hp, rfl⟩ := List.mem_map.mp h
  refine ⟨p, hp, ?_⟩
  by_cases hn : p.pid = n
  · exact Or.inl ⟨hn, if_pos hn⟩
  · exact Or.inr ⟨hn, if_neg hn⟩

variable {t' : Table ι} {c : Call ι}

/-- Where a process of the table after a call comes from. -/
theorem step_came (h : t.step c = some t') {q : Proc ι} (hq : q ∈ t'.procs) :
    ∃ p ∈ t.procs, Came t c p q := by
  cases step_inv h with
  | @fork p child label hp hlive hfree =>
      rcases List.mem_append.mp hq with hq | hq
      · exact ⟨q, hq, .same (by simp)⟩
      · obtain rfl := List.mem_singleton.mp hq
        exact ⟨p, hp, .forked hlive hfree⟩
  | @setsid r hr hlive hgroup =>
      obtain ⟨p, hp, ⟨hpid, rfl⟩ | ⟨hpid, rfl⟩⟩ := update_mem hq
      · obtain rfl := eq_of_pid hp hr hpid
        exact ⟨p, hp, .setsid hlive⟩
      · exact ⟨q, hp, .same fun heq => hpid (Call.setsid.inj heq).symm⟩
  | @setpgid r g hr hlive hg =>
      obtain ⟨p, hp, ⟨hpid, rfl⟩ | ⟨hpid, rfl⟩⟩ := update_mem hq
      · obtain rfl := eq_of_pid hp hr hpid
        exact ⟨p, hp, .setpgid hlive hg⟩
      · exact ⟨q, hp, .same (by simp)⟩
  | @exit r hr =>
      obtain ⟨p, hp, ⟨hpid, rfl⟩ | ⟨hpid, rfl⟩⟩ := update_mem hq
      · rw [← hpid]
        exact ⟨p, hp, .exit⟩
      · exact ⟨q, hp, .same (by simp)⟩
  | reap => exact ⟨q, (List.mem_filter.mp hq).1, .same (by simp)⟩

theorem update_keeps {n : Nat} {f : Proc ι → Proc ι} {sessions : Nat} {hpid hle hsid} {p : Proc ι}
    (hp : p ∈ t.procs) (horigin : (f p).origin = p.origin) :
    ∃ q ∈ (t.update n f sessions hpid hle hsid).procs, q.pid = p.pid ∧ q.origin = p.origin := by
  refine ⟨if p.pid = n then f p else p, List.mem_map.mpr ⟨p, hp, rfl⟩, ?_⟩
  split
  · exact ⟨hpid p, horigin⟩
  · exact ⟨rfl, rfl⟩

/-- Only reaping takes a process out of the table. -/
theorem step_keeps (h : t.step c = some t') {p : Proc ι} (hp : p ∈ t.procs)
    (hc : c ≠ .reap p.pid) : ∃ q ∈ t'.procs, q.pid = p.pid ∧ q.origin = p.origin := by
  cases step_inv h with
  | fork => exact ⟨p, List.mem_append_left _ hp, rfl, rfl⟩
  | setsid | setpgid | exit => exact update_keeps hp rfl
  | @reap r =>
      have hne : p.pid ≠ r.pid := fun heq => hc (by rw [heq])
      exact ⟨p, List.mem_filter.mpr ⟨hp, by simpa using hne⟩, rfl, rfl⟩

/-! ## Descent -/

theorem Came.pid_eq {p q : Proc ι} (h : Came t c p q) (hc : ∀ label, c ≠ .fork p.pid q.pid label) :
    q.pid = p.pid := by
  cases h with
  | forked => exact absurd rfl (hc _)
  | _ => rfl

/-- No process loses an ancestor. -/
theorem Came.origin_some {p q : Proc ι} {a : ι} (h : Came t c p q) (hp : p.origin = some a) :
    q.origin = some a := by
  cases h with
  | forked => simp [childOf, hp]
  | _ => exact hp

/-- A process that descends from `a` comes from one that does, unless it is labelled so. -/
theorem Came.origin_of_some {p q : Proc ι} {a : ι} (h : Came t c p q)
    (hlabel : ∀ parent child, c ≠ .fork parent child (some a)) (hq : q.origin = some a) :
    p.origin = some a := by
  cases h with
  | @forked p child label =>
      rcases Option.or_eq_some_iff.mp hq with hp | ⟨-, hnew⟩
      · exact hp
      · exact absurd (by rw [hnew]) (hlabel p.pid child)
  | _ => exact hq

theorem Came.live {p q : Proc ι} (h : Came t c p q) (hq : q.zombie = false) : p.zombie = false := by
  cases h with
  | forked hlive | setsid hlive | setpgid hlive => exact hlive
  | same => exact hq
  | exit => cases hq

/-- A process stays in its session, and its child is in it, unless it makes a new one. -/
theorem Came.sid_eq {p q : Proc ι} (h : Came t c p q) (hc : c ≠ .setsid p.pid) : q.sid = p.sid := by
  cases h with
  | setsid => exact absurd rfl hc
  | _ => rfl

theorem Came.sid_fresh {p q : Proc ι} (h : Came t c p q) (hc : c = .setsid p.pid) :
    q.sid = t.sessions := by
  cases h with
  | same hne => exact absurd hc hne
  | setsid => rfl
  | _ => cases hc

/-- Every process in the session of `p` descends from `a`; so does `p`, when it is there. -/
def Within (t : Table ι) (p : Proc ι) (a : ι) : Prop :=
  ∀ q ∈ t.procs, q.sid = p.sid → q.origin = some a

/-- What descends from `a` and runs shares its session with nothing else. -/
def Confined (t : Table ι) (a : ι) : Prop :=
  ∀ p ∈ t.procs, p.zombie = false → p.origin = some a → t.Within p a

/-- The group `n` belongs to the descendants of `a`, with the sessions of its members. -/
def Owns (t : Table ι) (n : Nat) (a : ι) : Prop := ∀ p ∈ t.procs, p.pgid = n → t.Within p a

/-- The process `n` is there, and this is the first label above it. -/
def Holds (t : Table ι) (n : Nat) (o : Option ι) : Prop :=
  ∃ p ∈ t.procs, p.pid = n ∧ p.origin = o

/-- At most the process with this number descends from `a`. -/
def Only (t : Table ι) (n : Option Nat) (a : ι) : Prop :=
  ∀ p ∈ t.procs, p.origin = some a → n = some p.pid

/-- The call makes the process `n` the founder of a group, and it does not descend from `a`. -/
def Founds (t : Table ι) (c : Call ι) (n : Nat) (a : ι) : Prop :=
  (c = .setsid n ∨ c = .setpgid n n) ∧ ∃ p ∈ t.procs, p.pid = n ∧ p.origin ≠ some a

instance [DecidableEq ι] (c : Call ι) (n : Nat) (a : ι) : Decidable (t.Founds c n a) :=
  inferInstanceAs (Decidable (_ ∧ _))

theorem Holds.unique {n : Nat} {o o' : Option ι} (h : t.Holds n o) (h' : t.Holds n o') : o = o' := by
  obtain ⟨p, hp, hpid, rfl⟩ := h
  obtain ⟨q, hq, hqid, rfl⟩ := h'
  rw [eq_of_pid hp hq (hpid.trans hqid.symm)]

theorem Holds.not_founds {n : Nat} {a : ι} (h : t.Holds n (some a)) : ¬ t.Founds c n a := by
  rintro ⟨-, q, hq, hqid, hne⟩
  exact hne (Holds.unique ⟨q, hq, hqid, rfl⟩ h)

theorem Within.self {p : Proc ι} {a : ι} (h : t.Within p a) (hp : p ∈ t.procs) :
    p.origin = some a := h p hp rfl

/-- What a signal to an owned group reaches. -/
theorem Owns.origin_of_group {n : Nat} {a : ι} (h : t.Owns n a) {p : Proc ι} (hp : p ∈ t.group n) :
    p.origin = some a := by
  obtain ⟨hmem, hgroup⟩ := List.mem_filter.mp hp
  exact (h p hmem (by simpa using hgroup)).self hmem

/-! ## What the calls preserve -/

theorem Holds.step (h : t.step c = some t') {n : Nat} {o : Option ι} (hc : c ≠ .reap n)
    (hn : t.Holds n o) : t'.Holds n o := by
  obtain ⟨p, hp, rfl, rfl⟩ := hn
  obtain ⟨q, hq, hpid, horigin⟩ := step_keeps h hp hc
  exact ⟨q, hq, hpid, horigin⟩

theorem Only.step (h : t.step c = some t') {n : Option Nat} {a : ι}
    (hlabel : ∀ parent child, c ≠ .fork parent child (some a))
    (hfork : ∀ parent child label, c = .fork parent child label → n ≠ some parent)
    (ho : t.Only n a) : t'.Only n a := by
  intro q hq horigin
  obtain ⟨p, hp, hcame⟩ := step_came h hq
  have hn := ho p hp (hcame.origin_of_some hlabel horigin)
  rw [hcame.pid_eq fun label hc => hfork p.pid q.pid label hc hn]
  exact hn

/-- A session of descendants of `a` stays one, and its members leave it only for one
of their own. -/
theorem Within.came (h : t.step c = some t') {p q : Proc ι} {a : ι} (hp : p ∈ t.procs)
    (hcame : Came t c p q) (hw : t.Within p a) : t'.Within q a := by
  intro r hr hsid
  obtain ⟨s, hs, hcame'⟩ := step_came h hr
  by_cases hc : c = .setsid p.pid
  · by_cases hc' : c = .setsid s.pid
    · have hpid : p.pid = s.pid := Call.setsid.inj (hc.symm.trans hc')
      rw [← eq_of_pid hp hs hpid] at hcame'
      exact hcame'.origin_some (hw.self hp)
    · -- the new session has no other members
      have hlt := t.sid_lt s hs
      rw [hcame.sid_fresh hc, hcame'.sid_eq hc'] at hsid
      omega
  · by_cases hc' : c = .setsid s.pid
    · have hlt := t.sid_lt p hp
      rw [hcame.sid_eq hc, hcame'.sid_fresh hc'] at hsid
      omega
    · rw [hcame.sid_eq hc, hcame'.sid_eq hc'] at hsid
      exact hcame'.origin_some (hw s hs hsid)

/-- A process that makes a session is alone in it. -/
theorem within_setsid {p q : Proc ι} {a : ι} (h : t.step (.setsid p.pid) = some t')
    (hp : p ∈ t.procs) (hcame : Came t (.setsid p.pid) p q) (ha : p.origin = some a) :
    t'.Within q a := by
  intro r hr hsid
  obtain ⟨s, hs, hcame'⟩ := step_came h hr
  by_cases hpid : s.pid = p.pid
  · obtain rfl := eq_of_pid hs hp hpid
    exact hcame'.origin_some ha
  · have hlt := t.sid_lt s hs
    rw [hcame.sid_fresh rfl, hcame'.sid_eq fun hc => hpid (Call.setsid.inj hc).symm] at hsid
    omega

theorem Confined.step (h : t.step c = some t') {a : ι}
    (hlabel : ∀ parent child, c ≠ .fork parent child (some a)) (hconf : t.Confined a) :
    t'.Confined a := by
  intro q hq hlive horigin
  obtain ⟨p, hp, hcame⟩ := step_came h hq
  exact (hconf p hp (hcame.live hlive) (hcame.origin_of_some hlabel horigin)).came h hp hcame

/-- Nobody else gets into an owned group but by founding it. -/
theorem Owns.step (h : t.step c = some t') {n : Nat} {a : ι} (hfounds : ¬ t.Founds c n a)
    (hconf : c = .setpgid n n → t.Confined a) (ho : t.Owns n a) : t'.Owns n a := by
  intro q hq hgroup
  obtain ⟨p, hp, hcame⟩ := step_came h hq
  -- a founder of the group descends from `a`
  have hfounder : c = .setsid n ∨ c = .setpgid n n → p.pid = n → p.origin = some a := by
    intro hc hpid
    by_contra hne
    exact hfounds ⟨hc, p, hp, hpid, hne⟩
  cases hcame with
  | same hc => exact (ho q hp hgroup).came h hp (.same hc)
  | forked hlive hfree => exact (ho p hp hgroup).came h hp (.forked hlive hfree)
  | exit => exact (ho p hp hgroup).came h hp .exit
  | setsid hlive =>
      exact within_setsid h hp (.setsid hlive) (hfounder (Or.inl (congrArg Call.setsid hgroup)) hgroup)
  | @setpgid p g hlive hg =>
      obtain rfl : g = n := hgroup
      have hwithin : t.Within p a := by
        rcases hg with hself | ⟨r, hr, hrgroup, hsid⟩
        · have hc : (.setpgid p.pid g : Call ι) = .setpgid g g := by rw [hself]
          exact hconf hc p hp hlive (hfounder (Or.inr hc) hself.symm)
        · intro s hs hssid
          exact ho r hr hrgroup s hs (hssid.trans hsid.symm)
      exact hwithin.came h hp (.setpgid hlive hg)

/-! ## A labelled child -/

/-- A child forked with a new label is all that descends from it, and its number is
not the number of a group. -/
theorem fork_labelled {parent n : Nat} {a : ι} (h : t.step (.fork parent n (some a)) = some t')
    (hparent : t.Holds parent none) (ho : t.Only none a) :
    t'.Holds n (some a) ∧ t'.Only (some n) a ∧ t'.Owns n a := by
  have hnone : ∀ p ∈ t.procs, p.origin ≠ some a := fun p hp horigin =>
    Option.some_ne_none _ (ho p hp horigin).symm
  cases step_inv h with
  | @fork p _ _ hp hlive hfree =>
      have horigin : p.origin = none := Holds.unique ⟨p, hp, rfl, rfl⟩ hparent
      refine ⟨⟨childOf p n (some a), List.mem_append_right _ List.mem_cons_self, rfl, ?_⟩, ?_, ?_⟩
      · simp [childOf, horigin]
      · intro q hq hqorigin
        rcases List.mem_append.mp hq with hq | hq
        · exact absurd hqorigin (hnone q hq)
        · obtain rfl := List.mem_singleton.mp hq
          rfl
      · intro q hq hgroup
        rcases List.mem_append.mp hq with hq | hq
        · exact absurd hgroup (hfree.2 q hq).2
        · obtain rfl := List.mem_singleton.mp hq
          exact absurd hgroup (hfree.2 p hp).2

/-- Its first session confines what will descend from it. -/
theorem confined_setsid {n : Nat} {a : ι} (h : t.step (.setsid n) = some t')
    (ho : t.Only (some n) a) : t'.Confined a := by
  intro q hq hlive horigin
  obtain ⟨p, hp, hcame⟩ := step_came h hq
  have hporigin : p.origin = some a := hcame.origin_of_some (by simp) horigin
  obtain rfl : n = p.pid := Option.some.inj (ho p hp hporigin)
  exact within_setsid h hp hcame hporigin

/-- A child that exited before it made a session has nothing to confine. -/
theorem confined_of_zombie {n : Nat} {a : ι} (ho : t.Only (some n) a) (hlive : t.live? n = none) :
    t.Confined a := by
  intro p hp hzombie horigin
  obtain rfl : n = p.pid := Option.some.inj (ho p hp horigin)
  have hfind : t.find? p.pid = some p := by
    cases hf : t.find? p.pid with
    | none => simpa using List.find?_eq_none.mp hf p hp
    | some q =>
        obtain ⟨hq, hqid⟩ := t.find?_mem hf
        rw [eq_of_pid hq hp hqid]
  simp [live?, hfind, hzombie] at hlive

end Table

end Processes
