/-
# Pinokio.BrowserArchive.Calls -- one step of one call

`callStep_inv` lists what one step of `ensure_installed` can be, `OwnFrame` what the steps
on the temporaries leave alone. `contained_of_callStep` puts together what any step does,
seen from the rest of the volume, for a call whose temporaries are in order.
-/
import Pinokio.BrowserArchive.Staging

namespace Pinokio.BrowserArchive

/-! ## The parts of a call -/

/-- Up to the checksum test, from there to the rename, and after that. -/
def Phase.stage : Phase → Nat
  | check | createRoot | buildClient | send | createFile | stream _ | verify _ => 0
  | clearStaging | createStaging | detect | openArchive _ | unpack _ _ _ | locate | fix _ _
  | fixChrome _ | fixAstray _ | rename _ => 1
  | recheck _ | removeFile _ | removeStaging _ | finished _ | killed => 2

/-- The call has come to `Ok`, its cleanup aside. -/
def Phase.accepted : Phase → Bool
  | removeFile (.ok _) | removeStaging (.ok _) | finished (.ok _) => true
  | _ => false

variable {W : World}

/-- What a step of a call leaves alone. -/
structure SameCall (r r' : Replica) : Prop where
  url : r'.url = r.url
  expected : r'.expected = r.expected
  pid : r'.pid = r.pid

theorem SameCall.tag {r r' : Replica} (h : SameCall r r') : r'.tag W = r.tag W := by
  simp only [Replica.tag, h.url, h.pid]

/-- What a step on the temporaries leaves alone: the bytes hashed once they are verified,
and how far the call has come, but for errors. -/
structure OwnFrame (r r' : Replica) : Prop extends SameCall r r' where
  verified : r'.verified = r.verified
  hashed : r.phase.stage = 0 ∨ r'.hashed = r.hashed
  stage : r'.phase.stage = r.phase.stage ∨ r'.phase.stage = 2
  accepted : r'.phase.accepted = true → r.phase.accepted = true

section

variable {T T' : Temp} {r r' : Replica} {a : ReplicaAction}

theorem ownFrame_goto (phase : Phase)
    (hstage : phase.stage = r.phase.stage ∨ phase.stage = 2)
    (hacc : phase.accepted = true → r.phase.accepted = true) : OwnFrame r (r.goto phase) where
  url := rfl
  expected := rfl
  pid := rfl
  verified := rfl
  hashed := Or.inr rfl
  stage := hstage
  accepted := hacc

theorem ownFrame_abort (e : InstallError) : OwnFrame r (r.abort e) := by
  exact ownFrame_goto _ (Or.inr rfl) (fun h => by cases h)

theorem downloadStep_frame (h : downloadStep W T r a = some (T', r')) : OwnFrame r r' := by
  unfold downloadStep at h
  split at h
  · split at h
    all_goals cases h
    all_goals exact ownFrame_abort _
  · split at h
    · rename_i hp
      split at h
      · cases h
        exact ownFrame_goto _ (Or.inl (by rw [hp]; rfl)) (fun h => by cases h)
      · cases h
        exact ownFrame_abort _
    · cases h
  · split at h
    · rename_i hp
      cases h
      exact ⟨⟨rfl, rfl, rfl⟩, rfl, Or.inl (by rw [hp]; rfl), Or.inl rfl, id⟩
    · cases h
  · split at h
    all_goals cases h
    all_goals exact ownFrame_abort _
  · split at h
    · rename_i hp
      cases h
      exact ⟨⟨rfl, rfl, rfl⟩, rfl, Or.inl (by rw [hp]; rfl), Or.inl (by rw [hp]; rfl),
        fun h => by cases h⟩
    · rename_i hp
      cases h
      exact ownFrame_goto _ (Or.inl (by rw [hp]; rfl)) (fun h => by cases h)
    · cases h
  · cases h

theorem extractStep_frame (h : extractStep W T r a = some (T', r')) : OwnFrame r r' := by
  have stay : ∀ phase : Phase, r.phase.stage = 1 → phase.stage = 1 → phase.accepted = false →
      OwnFrame r (r.goto phase) := by
    intro phase hr hs hacc
    exact ownFrame_goto phase (Or.inl (hs.trans hr.symm)) (fun h => by rw [hacc] at h; cases h)
  unfold extractStep at h
  split at h
  · split at h
    · split at h
      all_goals cases h
      exact ownFrame_abort _
    all_goals cases h
    all_goals exact ownFrame_abort _
  · rename_i b
    split at h
    · rename_i hp
      cases h
      exact stay _ (by rw [hp]; rfl) rfl rfl
    · rename_i hp
      cases h
      exact stay _ (by rw [hp]; rfl) rfl rfl
    · rename_i hp
      obtain ⟨c, -, h⟩ := Option.map_eq_some_iff.mp h
      split at h
      · cases h
        exact stay _ (by rw [hp]; rfl) rfl rfl
      · cases h
        exact ownFrame_abort _
    · rename_i hp
      split at h
      · cases h
        exact stay _ (by rw [hp]; rfl) rfl rfl
      · cases h
    · rename_i hp
      split at h
      · cases h
        exact stay _ (by rw [hp]; rfl) rfl rfl
      · cases h
        exact ownFrame_abort _
      · cases h
        exact stay _ (by rw [hp]; rfl) rfl rfl
    · rename_i hp
      obtain ⟨t, -, h⟩ := Option.map_eq_some_iff.mp h
      split at h
      · cases h
        exact stay _ (by rw [hp]; rfl) rfl rfl
      · cases h
        exact stay _ (by rw [hp]; rfl) rfl rfl
      · cases h
        exact ownFrame_abort _
    · rename_i hp
      cases h
      exact stay _ (by rw [hp]; rfl) rfl rfl
    · rename_i hp
      obtain ⟨t, -, h⟩ := Option.bind_eq_some_iff.mp h
      split at h
      · obtain ⟨q, -, h⟩ := Option.map_eq_some_iff.mp h
        cases h
        exact stay _ (by rw [hp]; rfl) rfl rfl
      · cases h
    · rename_i hp
      obtain ⟨t, -, h⟩ := Option.bind_eq_some_iff.mp h
      split at h
      · obtain ⟨q, -, h⟩ := Option.map_eq_some_iff.mp h
        cases h
        exact stay _ (by rw [hp]; rfl) rfl rfl
      · cases h
    · rename_i hp
      split at h
      · cases h
        exact ⟨⟨rfl, rfl, rfl⟩, rfl, Or.inr rfl, Or.inl rfl, id⟩
      · cases h
        exact stay _ (by rw [hp]; rfl) rfl rfl
    · cases h
  · cases h

theorem cleanupStep_frame (h : cleanupStep T r a = some (T', r')) : OwnFrame r r' := by
  unfold cleanupStep at h
  split at h
  all_goals try cases h
  all_goals
    split at h
    · rename_i result hp
      cases h
      refine ownFrame_goto _ (Or.inr rfl) ?_
      rw [hp]
      cases result with
      | ok u => exact id
      | error e => exact id
    · rename_i result hp
      cases h
      refine ownFrame_goto _ (Or.inr rfl) ?_
      rw [hp]
      cases result with
      | ok u => exact id
      | error e => exact id
    · cases h

theorem ownStep_frame (h : ownStep W T r a = some (T', r')) : OwnFrame r r' := by
  unfold ownStep at h
  split at h
  all_goals first
    | exact downloadStep_frame h
    | exact extractStep_frame h
    | exact cleanupStep_frame h
    | cases h

/-- Only a call in progress moves its temporaries. -/
theorem working_of_ownStep (h : ownStep W T r a = some (T', r')) : r.working = true := by
  unfold ownStep at h
  split at h
  all_goals first
    | cases h
    | (rename_i hp; simp only [Replica.working, hp])

end

/-! ## One step of a call -/

/-- What one step of a call is. -/
inductive CallStep (W : World) (v : Volume) (r : Replica) :
    ReplicaAction → Volume → Replica → Prop where
  | killed : CallStep W v r .kill v (r.goto .killed)
  | found (b : Beyond) (hp : r.phase = .check) (hfile : binaryIsFile W v r b = true) :
      CallStep W v r (.go b) v (r.goto (.finished (.ok ())))
  | begun (a : ReplicaAction) (phase : Phase) (hr : r.phase.stage = 0) (hidle : r.working = false)
      (hphase : phase = .createRoot ∨ phase = .buildClient ∨ ∃ e, phase = .finished (.error e)) :
      CallStep W v r a v (r.goto phase)
  | entered (b : Beyond) (hp : r.phase = .buildClient) : CallStep W v r (.go b) v (r.goto .send)
  | compared (b : Beyond) (actual : String) (hp : r.phase = .verify actual) :
      CallStep W v r (.go b) v (verifyStep r actual)
  | renamed (b : Beyond) (root : Root) (v' : Volume) (r' : Replica) (hp : r.phase = .rename root)
      (h : renameStep W v r root = some (v', r')) : CallStep W v r (.go b) v' r'
  | renameFailed (root : Root) (e : String) (hp : r.phase = .rename root) :
      CallStep W v r (.fails e) v (r.goto (.recheck e))
  | settled (e : String) (b : Beyond) (hp : r.phase = .recheck e)
      (hfile : binaryIsFile W v r b = true) :
      CallStep W v r (.go b) v (r.goto (.removeFile (.ok ())))
  | refused (e : String) (b : Beyond) (hp : r.phase = .recheck e) :
      CallStep W v r (.go b) v (r.abort (.io e))
  | own (a : ReplicaAction) (T' : Temp) (r' : Replica)
      (h : ownStep W (v.temps (r.tag W)) r a = some (T', r')) :
      CallStep W v r a (stray W v (v.setTemp (r.tag W) T') r a) r'

variable {v v' : Volume} {r r' : Replica} {a : ReplicaAction}

theorem callStep_inv (h : ensureInstalledStep W v r a = some (v', r')) :
    CallStep W v r a v' r' := by
  unfold ensureInstalledStep at h
  split at h
  · cases h
  · cases h
  · cases h
    exact .killed
  · rename_i b hp
    split at h
    · rename_i hfile
      cases h
      exact .found b hp hfile
    · cases h
      exact .begun _ _ (by rw [hp]; rfl) (by simp [Replica.working, hp]) (Or.inl rfl)
  · rename_i hp
    cases h
    exact .begun _ _ (by rw [hp]; rfl) (by simp [Replica.working, hp]) (Or.inr (Or.inl rfl))
  · rename_i hp
    cases h
    exact .begun _ _ (by rw [hp]; rfl) (by simp [Replica.working, hp]) (Or.inr (Or.inr ⟨_, rfl⟩))
  · rename_i hp
    cases h
    exact .entered _ hp
  · rename_i hp
    cases h
    exact .begun _ _ (by rw [hp]; rfl) (by simp [Replica.working, hp]) (Or.inr (Or.inr ⟨_, rfl⟩))
  · rename_i hp
    cases h
    exact .compared _ _ hp
  · rename_i hp
    exact .renamed _ _ _ _ hp h
  · rename_i hp
    cases h
    exact .renameFailed _ _ hp
  · rename_i hp
    split at h
    · rename_i hfile
      cases h
      exact .settled _ _ hp hfile
    · cases h
      exact .refused _ _ hp
  · obtain ⟨q, hq, h⟩ := Option.map_eq_some_iff.mp h
    cases h
    exact .own _ _ _ hq

/-- What a successful rename does. -/
theorem renameStep_inv {root : Root} (h : renameStep W v r root = some (v', r')) :
    ∃ t, (v.temps (r.tag W)).staging = some t ∧
      (∀ inst, v.installs (r.tag W).key = some inst → inst.tree.entries = []) ∧
      v' = (v.setInstall (r.tag W).key
          (some { tree := (moved t root).1, archive := r.hashed })).setTemp (r.tag W)
        { v.temps (r.tag W) with staging := (moved t root).2 } ∧
      r' = r.goto (.removeFile (.ok ())) := by
  unfold renameStep at h
  obtain ⟨t, ht, h⟩ := Option.bind_eq_some_iff.mp h
  split at h
  · rename_i hcond
    obtain ⟨hv, hr⟩ := Prod.mk.inj (Option.some.inj h)
    refine ⟨t, ht, fun inst hinst => ?_, hv.symm, hr.symm⟩
    simp only [Bool.and_eq_true, Volume.free, hinst] at hcond
    exact List.isEmpty_iff.mp hcond.1
  · cases h

theorem sameCall_of_callStep (h : CallStep W v r a v' r') : SameCall r r' := by
  cases h with
  | compared b actual hp =>
      unfold verifyStep
      split
      · split
        · exact ⟨rfl, rfl, rfl⟩
        · exact ⟨rfl, rfl, rfl⟩
      · exact ⟨rfl, rfl, rfl⟩
  | renamed b root v' r' hp h =>
      obtain ⟨t, -, -, -, rfl⟩ := renameStep_inv h
      exact ⟨rfl, rfl, rfl⟩
  | own a T' r' h => exact (ownStep_frame h).toSameCall
  | _ => exact ⟨rfl, rfl, rfl⟩

/-! ## What one call does to the volume -/

/-- The step goes through no link that leads out of the replica's staging tree to another
tree of the volume, nor to a directory that it then takes for its own. -/
def StaysHome (W : World) (v : Volume) (r : Replica) (a : ReplicaAction) : Prop :=
  ∀ b, a = .go b → strayAt W v r b = none ∧ ¬ GoesAstray (v.temps (r.tag W)) r b

/-- The test of the checksum, and what is known before and after it. -/
structure Checked (W : World) (r : Replica) : Prop where
  before : r.phase.stage = 0 → r.verified = false
  after : r.phase.stage = 1 → r.verified = true
  hash : r.verified = true → ∀ h, r.expected = some h → W.sha256 r.hashed = h

/-- What a step does, seen from the rest of the volume. -/
structure Contained (W : World) (v : Volume) (r : Replica) (a : ReplicaAction) (v' : Volume)
    (r' : Replica) : Prop where
  call : SameCall r r'
  kept : ∀ key inst, v.installs key = some inst → v'.installs key = some inst
  others : ∀ tag, tag ≠ r.tag W ∨ r.working = false → v'.temps tag = v.temps tag
  working : r'.working = true → r.working = true ∨ (r.phase = .buildClient ∧ ∃ b, a = .go b)
  prepared : Prepared W (v'.temps (r.tag W)) r'
  checked : Checked W r'
  verified : r.verified = true → r'.verified = true ∧ r'.hashed = r.hashed
  accepted : r'.phase.accepted = true → ∃ inst, v'.installs (r.tag W).key = some inst
  fresh : ∀ key inst, v'.installs key = some inst → v.installs key = some inst ∨
    (key = (r.tag W).key ∧ inst.archive = r.hashed ∧ Complete W inst.archive inst.tree ∧
      r.verified = true)

theorem Checked.goto {phase : Phase} (hC : Checked W r)
    (h : phase.stage = r.phase.stage ∨ phase.stage = 2) : Checked W (r.goto phase) where
  before hs := by
    rcases h with h | h
    · exact hC.before (h.symm.trans hs)
    · rw [show (r.goto phase).phase = phase from rfl, h] at hs
      cases hs
  after hs := by
    rcases h with h | h
    · exact hC.after (h.symm.trans hs)
    · rw [show (r.goto phase).phase = phase from rfl, h] at hs
      cases hs
  hash := hC.hash

/-- A step that only moves the call on leaves everything in place. -/
theorem contained_goto {phase : Phase} (hC : Checked W r)
    (hP : Prepared W (v.temps (r.tag W)) (r.goto phase))
    (hstage : phase.stage = r.phase.stage ∨ phase.stage = 2)
    (hwork : (r.goto phase).working = true →
      r.working = true ∨ (r.phase = .buildClient ∧ ∃ b, a = .go b))
    (hacc : phase.accepted = true → ∃ inst, v.installs (r.tag W).key = some inst) :
    Contained W v r a v (r.goto phase) where
  call := ⟨rfl, rfl, rfl⟩
  kept _ _ h := h
  others _ _ := rfl
  working := hwork
  prepared := hP
  checked := hC.goto hstage
  verified h := ⟨h, rfl⟩
  accepted := hacc
  fresh _ _ h := Or.inl h

theorem installed_of_isFile {b : Beyond} (h : binaryIsFile W v r b = true) :
    ∃ inst, v.installs (r.tag W).key = some inst := by
  unfold binaryIsFile at h
  cases hinst : v.installs (r.tag W).key with
  | none =>
      rw [hinst] at h
      cases h
  | some inst => exact ⟨inst, rfl⟩

/-- The checksum test lets a call go on that has the hash it expects, or expects none. -/
theorem contained_verifyStep {actual : String} (hp : r.phase = .verify actual)
    (hP : Prepared W (v.temps (r.tag W)) r) (hC : Checked W r) :
    Contained W v r a v (verifyStep r actual) := by
  simp only [Prepared, hp] at hP
  obtain ⟨hholds, rfl⟩ := hP
  have hwork : r.working = true := by simp [Replica.working, hp]
  have hgo : (∀ h, r.expected = some h → W.sha256 r.hashed = h) →
      Contained W v r a v { r with phase := .clearStaging, verified := true } := by
    intro hmatch
    exact
      { call := ⟨rfl, rfl, rfl⟩
        kept := fun _ _ h => h
        others := fun _ _ => rfl
        working := fun _ => Or.inl hwork
        prepared := hholds
        checked := ⟨(fun h => by cases h), fun _ => rfl, fun _ => hmatch⟩
        verified := fun hv => by rw [hC.before (by rw [hp]; rfl)] at hv; cases hv
        accepted := fun h => by cases h
        fresh := fun _ _ h => Or.inl h }
  unfold verifyStep
  split
  · rename_i expected hexp
    split
    · exact contained_goto hC trivial (Or.inr rfl) (fun _ => Or.inl hwork) (fun h => by cases h)
    · rename_i heq
      apply hgo
      intro h hh
      rw [hexp] at hh
      cases hh
      exact (not_not.mp heq).symm
  · rename_i hexp
    exact hgo fun h hh => by rw [hexp] at hh; cases hh

/-- The step stays in its part of the call, or the call is on its way out. -/
theorem checked_ownStep {T T' : Temp} (hC : Checked W r)
    (h : ownStep W T r a = some (T', r')) : Checked W r' := by
  have hF := ownStep_frame h
  have hback : ∀ n, n ≠ 2 → r'.phase.stage = n → r.phase.stage = n := by
    intro n hn hs
    rcases hF.stage with hs' | hs'
    · exact hs'.symm.trans hs
    · exact absurd (hs.symm.trans hs') hn
  refine ⟨fun hs => ?_, fun hs => ?_, fun hv h hh => ?_⟩
  · exact hF.verified.trans (hC.before (hback 0 (by decide) hs))
  · exact hF.verified.trans (hC.after (hback 1 (by decide) hs))
  · rw [hF.verified] at hv
    rw [hF.expected] at hh
    rcases hF.hashed with hs | heq
    · rw [hC.before hs] at hv
      cases hv
    · rw [heq]
      exact hC.hash hv h hh

theorem contained_ownStep {T' : Temp} (h : ownStep W (v.temps (r.tag W)) r a = some (T', r'))
    (hH : StaysHome W v r a) (hP : Prepared W (v.temps (r.tag W)) r) (hC : Checked W r)
    (hA : r.phase.accepted = true → ∃ inst, v.installs (r.tag W).key = some inst) :
    Contained W v r a (stray W v (v.setTemp (r.tag W) T') r a) r' := by
  have hstray : stray W v (v.setTemp (r.tag W) T') r a = v.setTemp (r.tag W) T' := by
    cases a with
    | go b =>
        -- The step follows no link out of the staging tree.
        simp only [stray, (hH b rfl).1]
    | _ => rfl
  have hwork := working_of_ownStep h
  have hF := ownStep_frame h
  rw [hstray]
  refine
    { call := hF.toSameCall
      kept := fun _ _ h => h
      others := ?_
      working := fun _ => Or.inl hwork
      prepared := ?_
      checked := checked_ownStep hC h
      verified := ?_
      accepted := fun h => hA (hF.accepted h)
      fresh := fun _ _ h => Or.inl h }
  · rintro tag (hne | hidle)
    · exact v.setTemp_temps_ne _ _ hne
    · rw [hwork] at hidle
      cases hidle
  · rw [Volume.setTemp_temps_self]
    exact ownStep_prepared hP (fun b hb => (hH b hb).2) h
  · intro hv
    refine ⟨hF.verified.trans hv, ?_⟩
    rcases hF.hashed with hs | heq
    · rw [hC.before hs] at hv
      cases hv
    · exact heq

/-- A rename puts the whole extraction there, where nothing was. -/
theorem contained_renameStep {root : Root} (hp : r.phase = .rename root)
    (h : renameStep W v r root = some (v', r')) (hP : Prepared W (v.temps (r.tag W)) r)
    (hC : Checked W r)
    (hfull : ∀ key inst, v.installs key = some inst → inst.tree.entries ≠ []) :
    Contained W v r a v' r' := by
  obtain ⟨t, ht, hempty, rfl, rfl⟩ := renameStep_inv h
  have hwork : r.working = true := by simp [Replica.working, hp]
  -- an install is never empty, so the rename met nothing at all
  have hnone : ∀ inst, v.installs (r.tag W).key ≠ some inst := by
    intro inst hinst
    exact hfull _ _ hinst (hempty inst hinst)
  have hcomplete : Complete W r.hashed (moved t root).1 := by
    simp only [Prepared, hp] at hP
    cases root with
    | inside p =>
        obtain ⟨t', ht', hcomplete⟩ := hP
        rw [ht] at ht'
        cases ht'
        exact hcomplete
    | astray seen => exact hP.elim
  refine
    { call := ⟨rfl, rfl, rfl⟩
      kept := ?_
      others := ?_
      working := fun _ => Or.inl hwork
      prepared := trivial
      checked := hC.goto (Or.inr rfl)
      verified := fun h => ⟨h, rfl⟩
      accepted := ?_
      fresh := ?_ }
  · intro key inst hinst
    rw [Volume.setTemp_installs, Volume.setInstall_installs_ne]
    · exact hinst
    · rintro rfl
      exact hnone inst hinst
  · rintro tag (hne | hidle)
    · exact Volume.setTemp_temps_ne _ _ _ hne
    · rw [hwork] at hidle
      cases hidle
  · intro _
    exact ⟨_, by rw [Volume.setTemp_installs, Volume.setInstall_installs_self]⟩
  · intro key inst hinst
    rw [Volume.setTemp_installs] at hinst
    by_cases hkey : key = (r.tag W).key
    · subst hkey
      rw [Volume.setInstall_installs_self] at hinst
      cases hinst
      exact Or.inr ⟨rfl, rfl, hcomplete, hC.after (by rw [hp]; rfl)⟩
    · rw [Volume.setInstall_installs_ne _ _ _ hkey] at hinst
      exact Or.inl hinst

theorem contained_of_callStep (h : CallStep W v r a v' r') (hH : StaysHome W v r a)
    (hP : Prepared W (v.temps (r.tag W)) r) (hC : Checked W r)
    (hA : r.phase.accepted = true → ∃ inst, v.installs (r.tag W).key = some inst)
    (hfull : ∀ key inst, v.installs key = some inst → inst.tree.entries ≠ []) :
    Contained W v r a v' r' := by
  cases h with
  | killed =>
      exact contained_goto hC trivial (Or.inr rfl) (fun h => by cases h) (fun h => by cases h)
  | found b hp hfile =>
      exact contained_goto hC trivial (Or.inr rfl) (fun h => by cases h)
        (fun _ => installed_of_isFile hfile)
  | begun a phase hr hidle hphase =>
      have hv := hC.before hr
      rcases hphase with rfl | rfl | ⟨e, rfl⟩
      · exact contained_goto hC trivial (Or.inl hr.symm) (fun h => by cases h) (fun h => by cases h)
      · exact contained_goto hC trivial (Or.inl hr.symm) (fun h => by cases h) (fun h => by cases h)
      · exact contained_goto hC trivial (Or.inr rfl) (fun h => by cases h) (fun h => by cases h)
  | entered b hp =>
      exact contained_goto hC trivial (Or.inl (by rw [hp]; rfl)) (fun _ => Or.inr ⟨hp, b, rfl⟩)
        (fun h => by cases h)
  | compared b actual hp => exact contained_verifyStep hp hP hC
  | renamed b root v' r' hp h => exact contained_renameStep hp h hP hC hfull
  | renameFailed root e hp =>
      exact contained_goto hC trivial (Or.inr rfl)
        (fun _ => Or.inl (by simp [Replica.working, hp])) (fun h => by cases h)
  | settled e b hp hfile =>
      exact contained_goto hC trivial (Or.inr rfl)
        (fun _ => Or.inl (by simp [Replica.working, hp])) (fun _ => installed_of_isFile hfile)
  | refused e b hp =>
      exact contained_goto hC trivial (Or.inr rfl)
        (fun _ => Or.inl (by simp [Replica.working, hp])) (fun h => by cases h)
  | own a T' r' h => exact contained_ownStep h hH hP hC hA

end Pinokio.BrowserArchive
