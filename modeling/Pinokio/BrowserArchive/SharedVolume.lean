/-
# Pinokio.BrowserArchive.SharedVolume -- many replicas, one install root

In a run in which no two calls with one tag are in progress together and no permission
pass leaves its own tree, every install directory is the complete extraction of the bytes
that one replica downloaded and verified, and it stays as it is. Two replicas with one
process id break this, and the run at the end is one way they do.
-/
import Pinokio.BrowserArchive.Calls

namespace Pinokio.BrowserArchive

variable {W : World}

/-! ## All replicas -/

/-- No step leaves its own staging tree, and a call takes up its temporaries only when no
other call with the same tag is using them. -/
def Isolated (W : World) (s : Pool.State Volume Replica) :
    Pool.Action Replica ReplicaAction Empty → Prop
  | .act i a => ∀ r : Replica, s.procs[i]? = some r →
    StaysHome W s.shared r a ∧
      (r.phase = .buildClient → (∃ b, a = .go b) → ∀ (j : Nat) (r' : Replica), j ≠ i →
        s.procs[j]? = some r' → r'.working = true → r'.tag W ≠ r.tag W)
  | _ => True

/-- The install is the complete extraction, permissions fixed, of the bytes that one of the
replicas downloaded and whose hash it compared with the one it expects, if any. -/
def Genuine (W : World) (s : Pool.State Volume Replica) (key : String) (inst : Install) : Prop :=
  Complete W inst.archive inst.tree ∧ ∃ (i : Nat) (r : Replica), s.procs[i]? = some r ∧
    (r.tag W).key = key ∧ r.hashed = inst.archive ∧ r.verified = true ∧
    ∀ h, r.expected = some h → W.sha256 r.hashed = h

/-- Every install is genuine, and no replica has returned `Ok` without one. -/
def VolumeSafe (W : World) (s : Pool.State Volume Replica) : Prop :=
  (∀ key inst, s.shared.installs key = some inst → Genuine W s key inst) ∧
    ∀ (i : Nat) (r : Replica), s.procs[i]? = some r → r.phase = .finished (.ok ()) →
      ∃ inst, s.shared.installs (r.tag W).key = some inst

/-- The invariant of isolated runs. -/
structure Safe (W : World) (s : Pool.State Volume Replica) : Prop where
  apart : ∀ (i j : Nat) (r r' : Replica), i ≠ j → s.procs[i]? = some r → s.procs[j]? = some r' →
    r.working = true → r'.working = true → r.tag W ≠ r'.tag W
  prepared : ∀ (i : Nat) (r : Replica), s.procs[i]? = some r →
    Prepared W (s.shared.temps (r.tag W)) r
  checked : ∀ (i : Nat) (r : Replica), s.procs[i]? = some r → Checked W r
  accepted : ∀ (i : Nat) (r : Replica), s.procs[i]? = some r → r.phase.accepted = true →
    ∃ inst, s.shared.installs (r.tag W).key = some inst
  genuine : ∀ key inst, s.shared.installs key = some inst → Genuine W s key inst

theorem safe_init : Safe W init where
  apart _ _ _ _ _ h := by cases h
  prepared _ _ h := by cases h
  checked _ _ h := by cases h
  accepted _ _ h := by cases h
  genuine _ _ h := by cases h

variable {s s' : Pool.State Volume Replica} {e : Pool.Action Replica ReplicaAction Empty}
  {v v' : Volume} {r r' : Replica} {a : ReplicaAction}

/-- What the step of one replica does, in an isolated run. -/
theorem Safe.contained (hS : Safe W s) {i : Nat} (hr : s.procs[i]? = some r)
    (hI : Isolated W s (.act i a)) (hact : ensureInstalledStep W s.shared r a = some (v', r')) :
    Contained W s.shared r a v' r' := by
  exact contained_of_callStep (callStep_inv hact) (hI r hr).1 (hS.prepared i r hr)
    (hS.checked i r hr) (hS.accepted i r hr)
    (fun key inst hinst => (hS.genuine key inst hinst).1.entries_ne_nil)

/-- Installs are never taken away or replaced. -/
theorem installs_kept_step (hS : Safe W s) (hI : Isolated W s e)
    (h : (machine W).step s e = some s') {key : String} {inst : Install}
    (hinst : s.shared.installs key = some inst) : s'.shared.installs key = some inst := by
  cases e with
  | spawn c =>
      obtain ⟨-, rfl⟩ := Pool.step_spawn.mp h
      exact hinst
  | act i a =>
      obtain ⟨r, v', r', hr, hact, rfl⟩ := Pool.step_act.mp h
      exact (hS.contained hr hI hact).kept key inst hinst
  | env e => exact e.elim

/-- A verified replica stays the witness of what it downloaded. -/
theorem Genuine.step (hS : Safe W s) (hI : Isolated W s e) (h : (machine W).step s e = some s')
    {key : String} {inst : Install} (hG : Genuine W s key inst) : Genuine W s' key inst := by
  obtain ⟨hcomplete, j, q, hq, hkey, hhashed, hver, hhash⟩ := hG
  refine ⟨hcomplete, ?_⟩
  rcases Pool.step_proc_next h hq with ⟨a, q', rfl, hact, hq'⟩ | ⟨hsame, -⟩
  · have hC := hS.contained hq hI hact
    obtain ⟨hver', hhashed'⟩ := hC.verified hver
    refine ⟨j, q', hq', ?_, hhashed'.trans hhashed, hver', hC.checked.hash hver'⟩
    rw [hC.call.tag]
    exact hkey
  · exact ⟨j, q, hsame, hkey, hhashed, hver, hhash⟩

/-- A new call does not use its temporaries yet. -/
theorem idle_of_fresh {c : Replica} (h : (program W).fresh c = true) :
    c = Replica.start c.url c.expected c.pid ∧ c.working = false := by
  have hc : c = Replica.start c.url c.expected c.pid := of_decide_eq_true h
  refine ⟨hc, ?_⟩
  rw [hc]
  rfl

/-- A call takes up its temporaries when nobody has that tag, and keeps them to itself. -/
theorem apart_step (hI : Isolated W s e) (h : (machine W).step s e = some s') (hS : Safe W s)
    {i j : Nat} {q q' : Replica} (hij : i ≠ j) (hq : s'.procs[i]? = some q)
    (hq' : s'.procs[j]? = some q') (hw : q.working = true) (hw' : q'.working = true) :
    q.tag W ≠ q'.tag W := by
  -- One of the two moved, or none did.
  have hmoved : ∀ (i j : Nat) (q q' : Replica) (a : ReplicaAction) (r : Replica), i ≠ j →
      e = .act i a → s.procs[i]? = some r →
      ensureInstalledStep W s.shared r a = some (s'.shared, q) → s.procs[j]? = some q' →
      q.working = true → q'.working = true → q.tag W ≠ q'.tag W := by
    intro i j q q' a r hij he hr hact hq' hw hw'
    subst he
    have hC := hS.contained hr hI hact
    rw [hC.call.tag]
    rcases hC.working hw with hwr | ⟨hp, hb⟩
    · exact hS.apart i j r q' hij hr hq' hwr hw'
    · exact ((hI r hr).2 hp hb j q' (Ne.symm hij) hq' hw').symm
  rcases Pool.step_proc h hq with ⟨-, hfresh⟩ | ⟨a, r, rfl, hr, hact⟩ | ⟨hsame, -⟩
  · rw [(idle_of_fresh hfresh).2] at hw
    cases hw
  · rcases Pool.step_proc h hq' with ⟨heq, -⟩ | ⟨a', r', heq, -, -⟩ | ⟨hsame', -⟩
    · cases heq
    · injection heq with heq
      exact absurd heq hij
    · exact hmoved i j q q' a r hij rfl hr hact hsame' hw hw'
  · rcases Pool.step_proc h hq' with ⟨-, hfresh⟩ | ⟨a, r, rfl, hr, hact⟩ | ⟨hsame', -⟩
    · rw [(idle_of_fresh hfresh).2] at hw'
      cases hw'
    · exact (hmoved j i q' q a r (Ne.symm hij) rfl hr hact hsame hw' hw).symm
    · exact hS.apart i j q q' hij hsame hsame' hw hw'

/-- The temporaries of a call in progress are touched by nobody else. -/
theorem prepared_step (hI : Isolated W s e) (h : (machine W).step s e = some s') (hS : Safe W s)
    {i : Nat} {q : Replica} (hq : s'.procs[i]? = some q) :
    Prepared W (s'.shared.temps (q.tag W)) q := by
  rcases Pool.step_proc h hq with ⟨-, hfresh⟩ | ⟨a, r, rfl, hr, hact⟩ | ⟨hsame, hne⟩
  · exact prepared_of_idle (idle_of_fresh hfresh).2
  · have hC := hS.contained hr hI hact
    rw [hC.call.tag]
    exact hC.prepared
  · rcases Bool.eq_false_or_eq_true q.working with hw | hw
    · have htemps : s'.shared.temps (q.tag W) = s.shared.temps (q.tag W) := by
        cases e with
        | spawn c =>
            obtain ⟨-, rfl⟩ := Pool.step_spawn.mp h
            rfl
        | act j a =>
            obtain ⟨r, v', r', hr, hact, rfl⟩ := Pool.step_act.mp h
            have hij : i ≠ j := by
              rintro rfl
              exact hne a rfl
            -- another replica moved: another tag, or no temporaries at all
            apply (hS.contained hr hI hact).others
            rcases Bool.eq_false_or_eq_true r.working with hwr | hwr
            · exact Or.inl (hS.apart i j q r hij hsame hr hw hwr)
            · exact Or.inr hwr
        | env e => exact e.elim
      rw [htemps]
      exact hS.prepared i q hsame
    · exact prepared_of_idle hw

theorem checked_step (hI : Isolated W s e) (h : (machine W).step s e = some s') (hS : Safe W s)
    (i : Nat) : ∀ q, s'.procs[i]? = some q → Checked W q := by
  apply Pool.step_forall h _ _ (hS.checked i)
  · intro q hfresh
    rw [(idle_of_fresh hfresh).1]
    exact ⟨fun _ => rfl, (fun h => by cases h), (fun h => by cases h)⟩
  · rintro a r q rfl hact hr _
    exact (hS.contained hr hI hact).checked

theorem accepted_step (hI : Isolated W s e) (h : (machine W).step s e = some s') (hS : Safe W s)
    {i : Nat} {q : Replica} (hq : s'.procs[i]? = some q) (hacc : q.phase.accepted = true) :
    ∃ inst, s'.shared.installs (q.tag W).key = some inst := by
  rcases Pool.step_proc h hq with ⟨-, hfresh⟩ | ⟨a, r, rfl, hr, hact⟩ | ⟨hsame, -⟩
  · rw [(idle_of_fresh hfresh).1] at hacc
    cases hacc
  · have hC := hS.contained hr hI hact
    rw [hC.call.tag]
    exact hC.accepted hacc
  · obtain ⟨inst, hinst⟩ := hS.accepted i q hsame hacc
    exact ⟨inst, installs_kept_step hS hI h hinst⟩

/-- An install of the next state was there before, or a replica has just put it there. -/
theorem genuine_step (hI : Isolated W s e) (h : (machine W).step s e = some s') (hS : Safe W s)
    {key : String} {inst : Install} (hinst : s'.shared.installs key = some inst) :
    Genuine W s' key inst := by
  have hold : s.shared.installs key = some inst → Genuine W s' key inst := fun hinst =>
    (hS.genuine key inst hinst).step hS hI h
  cases e with
  | spawn c =>
      obtain ⟨-, rfl⟩ := Pool.step_spawn.mp h
      exact hold hinst
  | act i a =>
      obtain ⟨r, v', r', hr, hact, rfl⟩ := Pool.step_act.mp h
      have hC := hS.contained hr hI hact
      rcases hC.fresh key inst hinst with hbefore | ⟨rfl, harchive, hcomplete, hver⟩
      · exact hold hbefore
      · obtain ⟨hver', hhashed⟩ := hC.verified hver
        refine ⟨hcomplete, i, r', Pool.getElem?_set_of_some hr r', ?_,
          hhashed.trans harchive.symm, hver', hC.checked.hash hver'⟩
        rw [hC.call.tag]
  | env e => exact e.elim

theorem safe_step (hI : Isolated W s e) (h : (machine W).step s e = some s') (hS : Safe W s) :
    Safe W s' where
  apart _ _ _ _ hij hq hq' hw hw' := apart_step hI h hS hij hq hq' hw hw'
  prepared _ _ hq := prepared_step hI h hS hq
  checked i := checked_step hI h hS i
  accepted _ _ hq hacc := accepted_step hI h hS hq hacc
  genuine _ _ hinst := genuine_step hI h hS hinst

/-- The invariant holds along every isolated run. -/
theorem safe_run {es : List (Pool.Action Replica ReplicaAction Empty)}
    (hrun : (machine W).run init es = some s)
    (hI : Machine.Along (Isolated W) (machine W) init es) : Safe W s := by
  exact Machine.run_invariant_along (I := Safe W) (fun _ _ _ hst hP hS => safe_step hP hst hS)
    hrun hI safe_init

/-! ## Different process ids -/

theorem locate_none_ne_astray {isFile : Bool} {t seen : FileTree} :
    locate isFile none t ≠ .ok (.astray seen) := by
  unfold locate
  intro h
  split at h
  · cases h
  · split at h
    · split at h
      · split at h
        all_goals cases h
      · split at h
        · contradiction
        · cases h
      · cases h
    · cases h

/-- Where links out of the tree lead nowhere on the volume, no step leaves it. -/
theorem staysHome_of_nowhere (h : ∀ b, a = .go b → b.spot = none ∧ b.dir = none) :
    StaysHome W v r a := by
  intro b hb
  obtain ⟨hspot, hdir⟩ := h b hb
  refine ⟨?_, ?_⟩
  · unfold strayAt
    split
    · exact hspot
    · split
      · exact hspot
      · rfl
    · rfl
  · rintro ⟨-, t, seen, -, hlocate⟩
    rw [hdir] at hlocate
    exact locate_none_ne_astray hlocate

/-- An action after which no link has led anywhere on the volume. -/
def actsAtHome : Pool.Action Replica ReplicaAction Empty → Bool
  | .act _ (.go b) => b.spot.isNone && b.dir.isNone
  | _ => true

theorem pids_step (h : (machine W).step s e = some s') :
    s'.procs.map Replica.pid = s.procs.map Replica.pid ++ e.arrival.toList.map Replica.pid := by
  cases e with
  | spawn c =>
      obtain ⟨-, rfl⟩ := Pool.step_spawn.mp h
      exact List.map_append
  | act i a =>
      obtain ⟨r, v', r', hr, hact, rfl⟩ := Pool.step_act.mp h
      have hpid : r'.pid = r.pid := (sameCall_of_callStep (callStep_inv hact)).pid
      rw [Pool.map_set_of_eq hr hpid]
      exact (List.append_nil _).symm
  | env e => exact e.elim

/-- Calls of processes with different ids, and no link out of a tree that leads into one of
the volume: nothing else is needed. -/
theorem isolated_of_pids {es : List (Pool.Action Replica ReplicaAction Empty)}
    (hpids : (s.procs.map Replica.pid ++ (Pool.arrivals es).map Replica.pid).Nodup)
    (hes : es.all actsAtHome = true) : Machine.Along (Isolated W) (machine W) s es := by
  induction es generalizing s with
  | nil => trivial
  | cons e es ih =>
      rw [List.all_cons, Bool.and_eq_true] at hes
      obtain ⟨he, hes⟩ := hes
      refine ⟨?_, fun t ht => ih ?_ hes⟩
      · cases e with
        | act i a =>
            refine fun r hr => ⟨staysHome_of_nowhere ?_, fun _ _ j r' hj hr' _ htag => ?_⟩
            · rintro b rfl
              simpa [actsAtHome] using he
            · -- one tag is one process id, and each of these belongs to one call
              have hi : (s.procs.map Replica.pid)[i]? = some r.pid := by simp [hr]
              have hj' : (s.procs.map Replica.pid)[j]? = some r.pid := by
                rw [← show r'.pid = r.pid from congrArg Tag.pid htag]
                simp [hr']
              have hlt := (List.getElem?_eq_some_iff.mp hj').1
              exact hj ((List.getElem?_inj hlt hpids.of_append_left).mp (hj'.trans hi.symm))
        | spawn c => trivial
        | env e => exact e.elim
      · rwa [pids_step ht, List.append_assoc, ← List.map_append, ← Pool.arrivals_cons]

/-! ## Two files in a zip archive -/

/-- A zip archive of two empty files, `chrome` with mode 0755 and `lib` with mode 0644. -/
def twoFiles : List UInt8 :=
  [80, 75, 3, 4, 20, 0, 0, 0, 0, 0, 0, 0, 33, 0, 0, 0, 0, 0, 0, 0, 0, 0, 0, 0, 0, 0, 6, 0, 0, 0,
    99, 104, 114, 111, 109, 101, 80, 75, 3, 4, 20, 0, 0, 0, 0, 0, 0, 0, 33, 0, 0, 0, 0, 0, 0, 0,
    0, 0, 0, 0, 0, 0, 3, 0, 0, 0, 108, 105, 98, 80, 75, 1, 2, 20, 3, 20, 0, 0, 0, 0, 0, 0, 0, 33,
    0, 0, 0, 0, 0, 0, 0, 0, 0, 0, 0, 0, 0, 6, 0, 0, 0, 0, 0, 0, 0, 0, 0, 0, 0, 237, 129, 0, 0, 0,
    0, 99, 104, 114, 111, 109, 101, 80, 75, 1, 2, 20, 3, 20, 0, 0, 0, 0, 0, 0, 0, 33, 0, 0, 0, 0,
    0, 0, 0, 0, 0, 0, 0, 0, 0, 3, 0, 0, 0, 0, 0, 0, 0, 0, 0, 0, 0, 164, 129, 36, 0, 0, 0, 108,
    105, 98, 80, 75, 5, 6, 0, 0, 0, 0, 2, 0, 2, 0, 101, 0, 0, 0, 69, 0, 0, 0, 0, 0]

def twoFilesHash : String := "3c4741ef7fe0711c148c427be2362a3f4fa3c43c6412919ddee1bee408e554ad"

/-- SHA-256 and unpacking, on that archive and on the URL `http://h/a` as they are. -/
def twoFilesWorld : World where
  sha256 contents :=
    if contents = [104, 116, 116, 112, 58, 47, 47, 104, 47, 97] then
      "c43fa283946b81455781ee66e2429e922951961b9f11ec301adaef81f333835e"
    else if contents = twoFiles then twoFilesHash
    else ""
  dirMode := 0o755
  member _ contents k dest :=
    let t := dest.getD (FileTree.empty 0o755)
    if contents = twoFiles then
      match k with
      | 0 => .written { t with entries := t.entries ++ [(["chrome"], .file [] 0o755)] }
      | 1 => .written { t with entries := t.entries ++ [(["lib"], .file [] 0o644)] }
      | _ => .finished
    else .failed "invalid Zip archive" dest

/-- A replica goes on, and no link leads out of its tree. -/
def go (i : Nat) : Pool.Action Replica ReplicaAction Empty :=
  .act i (.go ⟨false, false, none, none⟩)

/-- Replica `i` finds nothing installed and downloads the archive. -/
def downloads (i : Nat) : List (Pool.Action Replica ReplicaAction Empty) :=
  [go i, go i, go i, .act i (.respond 200 "OK"), go i, .act i (.chunk twoFiles), go i, go i]

/-- Two replicas, which expect the archive's hash, find nothing installed. Both unpack the
archive, replica 0 is the first to rename its tree, and replica 1 finds what it put there. -/
def raceRun : List (Pool.Action Replica ReplicaAction Empty) :=
  [.spawn (.start "http://h/a" (some twoFilesHash) 1),
    .spawn (.start "http://h/a" (some twoFilesHash) 2)] ++ downloads 0 ++ downloads 1 ++
    List.replicate 12 (go 0) ++ List.replicate 12 (go 1) ++
    [go 0, .act 1 (.fails "Directory not empty (os error 39)")] ++
    List.replicate 2 (go 0) ++ List.replicate 3 (go 1)

theorem isolated_raceRun (W : World) : Machine.Along (Isolated W) (machine W) init raceRun := by
  exact isolated_of_pids (by decide) (by decide)

/-- The archive's two files, and where they come from. -/
def wholeInstall : Install where
  tree := { mode := 0o755, entries := [(["chrome"], .file [] 0o755), (["lib"], .file [] 0o644)] }
  archive := twoFiles

/-- Both return `Ok`, and what they leave is one install. -/
theorem raceRun_installs :
    ∃ s, (machine twoFilesWorld).run init raceRun = some s ∧
      s.procs.map Replica.phase = [.finished (.ok ()), .finished (.ok ())] ∧
      s.shared.installs "c43fa283946b8145" = some wholeInstall := by
  have hrun : (((machine twoFilesWorld).run init raceRun).map fun s =>
      (s.procs.map Replica.phase, s.shared.installs "c43fa283946b8145")) =
      some ([.finished (.ok ()), .finished (.ok ())], some wholeInstall) := by
    decide +kernel
  obtain ⟨s, hs, hs'⟩ := Option.map_eq_some_iff.mp hrun
  exact ⟨s, hs, congrArg Prod.fst hs', congrArg Prod.snd hs'⟩

/-- Any number of replicas, over one install root: along a run in which calls in progress
do not share a tag and no permission pass leaves its own tree, every install is the whole
extraction of what one replica downloaded and verified, at every moment, and a replica
that returns `Ok` has one. -/
theorem shared_volume_safe {es : List (Pool.Action Replica ReplicaAction Empty)}
    (hrun : (machine W).run init es = some s)
    (hI : Machine.Along (Isolated W) (machine W) init es) : VolumeSafe W s := by
  have hS := safe_run hrun hI
  refine ⟨hS.genuine, fun i r hr hp => hS.accepted i r hr ?_⟩
  rw [hp]
  rfl

theorem shared_volume_safe_raceRun :
    ∃ s, (machine twoFilesWorld).run init raceRun = some s ∧
      s.procs.map Replica.phase = [.finished (.ok ()), .finished (.ok ())] ∧
      s.shared.installs "c43fa283946b8145" = some wholeInstall ∧ VolumeSafe twoFilesWorld s := by
  obtain ⟨s, hs, hphases, hinstalled⟩ := raceRun_installs
  exact ⟨s, hs, hphases, hinstalled, shared_volume_safe hs (isolated_raceRun _)⟩

/-- Two replicas whose process ids are both 1. While replica 0 is about to look for
`chrome`, replica 1 replaces the staging directory and has one of the two files in it. -/
def sharedPidRun : List (Pool.Action Replica ReplicaAction Empty) :=
  .spawn (.start "http://h/a" none 1) :: (downloads 0 ++ List.replicate 7 (go 0)) ++
    .spawn (.start "http://h/a" none 1) :: (downloads 1 ++ List.replicate 5 (go 1)) ++
    List.replicate 7 (go 0)

def partInstall : Install where
  tree := { mode := 0o755, entries := [(["chrome"], .file [] 0o755)] }
  archive := twoFiles

/-- Replica 0 returns `Ok` for a tree without `lib`. -/
theorem sharedPidRun_installs :
    ∃ s, (machine twoFilesWorld).run init sharedPidRun = some s ∧
      s.procs.map Replica.phase = [.finished (.ok ()), .unpack .zip 0 1] ∧
      s.shared.installs "c43fa283946b8145" = some partInstall := by
  have hrun : (((machine twoFilesWorld).run init sharedPidRun).map fun s =>
      (s.procs.map Replica.phase, s.shared.installs "c43fa283946b8145")) =
      some ([.finished (.ok ()), .unpack .zip 0 1], some partInstall) := by
    decide +kernel
  obtain ⟨s, hs, hs'⟩ := Option.map_eq_some_iff.mp hrun
  exact ⟨s, hs, congrArg Prod.fst hs', congrArg Prod.snd hs'⟩

/-- What is installed then is no complete extraction of any replica's archive. -/
theorem volume_unsafe_sharedPidRun :
    ¬ ∀ (W : World) (s : Pool.State Volume Replica),
      (machine W).Reachable init s → VolumeSafe W s := by
  intro h
  have hwhole : ∀ beyond, extractArchive twoFilesWorld beyond 5 twoFiles =
      some wholeInstall.tree := by
    decide +kernel
  obtain ⟨s, hs, -, hinstalled⟩ := sharedPidRun_installs
  obtain ⟨⟨beyond, fuel, hcomplete⟩, -⟩ := (h twoFilesWorld s ⟨sharedPidRun, hs⟩).1 _ _ hinstalled
  have hsame := extractArchive_unique hcomplete (hwhole beyond)
  exact absurd hsame (by decide)

end Pinokio.BrowserArchive
