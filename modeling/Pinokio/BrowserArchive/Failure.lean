/-
# Pinokio.BrowserArchive.Failure -- what a call leaves on the volume

One process calls `ensure_installed`, on a volume with anything on it. Until the rename
it writes under its own tag only, but for the modes that a permission pass sets through
links: names and contents elsewhere stay what they are. `failed_install` says what is
left of a call that failed and what a first install consists of, for a call whose
download name is not a link to a file somewhere else.
-/
import Pinokio.BrowserArchive.SharedVolume

namespace Pinokio.BrowserArchive

/-! ## One process -/

/-- A file on the volume gets other contents. -/
def Volume.overwrite (v : Volume) (contents : List UInt8) : Spot → Volume
  | .installed key p =>
    v.setInstall key
      ((v.installs key).map fun inst => { inst with tree := inst.tree.setContents p contents })
  | .staged tag p =>
    v.setTemp tag
      { v.temps tag with staging := (v.temps tag).staging.map (·.setContents p contents) }

/-- Creating the download file and writing to it, where its name is a link. -/
def throughLink (link : Option Spot) (r : Replica) (a : ReplicaAction) (v' : Volume)
    (r' : Replica) : Volume :=
  match link, r.phase, a with
  | some spot, .createFile, .go _ => v'.overwrite [] spot
  | some spot, .stream _, .chunk _ => v'.overwrite r'.hashed spot
  | _, _, _ => v'

section

variable (W : World)

/-- One call with the volume to itself. `link` is the file that the download name leads to,
when it is a link. -/
def single (link : Option Spot) : Machine (Volume × Replica) ReplicaAction where
  step s a := (ensureInstalledStep W s.1 s.2 a).map fun q => (throughLink link s.2 a q.1 q.2, q.2)

theorem single_step {s : Volume × Replica} {a : ReplicaAction} :
    (single W none).step s a = ensureInstalledStep W s.1 s.2 a := by
  show (ensureInstalledStep W s.1 s.2 a).map (fun q => (q.1, q.2)) = _
  cases ensureInstalledStep W s.1 s.2 a <;> rfl

end

/-! ## Names and contents -/

/-- The names and contents of an install directory. -/
def Volume.installed (v : Volume) (key : String) : Option (List (List String × FileNode)) :=
  (v.installs key).map fun inst => inst.tree.plain

/-- The files under the download name, and the names and contents of the staging directory. -/
def Temp.plain (T : Temp) : List (List UInt8) × Bool × Option (List (List String × FileNode)) :=
  (T.files, T.linked, T.staging.map FileTree.plain)

/-- Neither of the two temporaries is there. -/
def Temp.Gone (T : Temp) : Prop := T.linked = false ∧ T.staging = Option.none

section

variable {W : World} {v v' : Volume} {r r' : Replica} {a : ReplicaAction}

@[simp] theorem installed_setTemp (v : Volume) (tag : Tag) (T : Temp) (key : String) :
    (v.setTemp tag T).installed key = v.installed key := by
  simp only [Volume.installed, Volume.setTemp_installs]

theorem installed_chmodAt (v : Volume) (m : Nat) (spot : Spot) (key : String) :
    (v.chmodAt m spot).installed key = v.installed key := by
  unfold Volume.installed
  cases spot with
  | installed key' p =>
      by_cases hkey : key = key'
      · subst hkey
        rw [Volume.chmodAt, Volume.setInstall_installs_self, Option.map_map]
        simp [Function.comp_def]
      · rw [Volume.chmodAt, Volume.setInstall_installs_ne _ _ _ hkey]
  | staged tag p => rfl

theorem plain_chmodAt (v : Volume) (m : Nat) (spot : Spot) (tag : Tag) :
    ((v.chmodAt m spot).temps tag).plain = (v.temps tag).plain := by
  cases spot with
  | installed key p => rfl
  | staged tag' p =>
      by_cases htag : tag = tag'
      · subst htag
        rw [Volume.chmodAt, Volume.setTemp_temps_self]
        simp [Temp.plain, Option.map_map, Function.comp_def]
      · rw [Volume.chmodAt, Volume.setTemp_temps_ne _ _ _ htag]

/-- A step through a link sets a mode at most. -/
theorem stray_cases (W : World) (v v' : Volume) (r : Replica) (a : ReplicaAction) :
    stray W v v' r a = v' ∨
      ∃ b spot, a = .go b ∧ strayAt W v r b = some spot ∧
        stray W v v' r a = v'.chmodAt 0o777 spot := by
  unfold stray
  split
  · rename_i b
    cases h : strayAt W v r b with
    | none => exact Or.inl rfl
    | some spot => exact Or.inr ⟨b, spot, rfl, h, rfl⟩
  · exact Or.inl rfl

theorem installed_stray (v v' : Volume) (r : Replica) (a : ReplicaAction) (key : String) :
    (stray W v v' r a).installed key = v'.installed key := by
  rcases stray_cases W v v' r a with heq | ⟨b, spot, -, -, heq⟩
  · rw [heq]
  · rw [heq, installed_chmodAt]

theorem plain_stray (v v' : Volume) (r : Replica) (a : ReplicaAction) (tag : Tag) :
    ((stray W v v' r a).temps tag).plain = (v'.temps tag).plain := by
  rcases stray_cases W v v' r a with heq | ⟨b, spot, -, -, heq⟩
  · rw [heq]
  · rw [heq, plain_chmodAt]

/-- The directory that was found to hold `chrome`, from there to the rename. -/
def Phase.root : Phase → Option Root
  | fix root _ | fixChrome root => some (.inside root)
  | fixAstray seen => some (.astray seen)
  | rename root => some root
  | _ => none

/-- From the first request to the rename. -/
def Phase.between : Phase → Bool
  | send | createFile | stream _ | verify _ | clearStaging | createStaging | detect
  | openArchive _ | unpack _ _ _ | locate | fix _ _ | fixChrome _ | fixAstray _ | rename _ => true
  | _ => false

/-- Links are followed once the directory is found. -/
theorem stray_of_no_root (h : r.phase.root = none) : stray W v v' r a = v' := by
  rcases stray_cases W v v' r a with heq | ⟨b, spot, -, hspot, -⟩
  · exact heq
  · unfold strayAt at hspot
    split at hspot
    · rename_i hp
      rw [hp] at h
      cases h
    · split at hspot
      · rename_i hout
        unfold chmodNow at hout
        split at hout
        · rename_i hp
          rw [hp] at h
          cases h
        · rename_i hp
          rw [hp] at h
          cases h
        · cases hout
      · cases hspot
    · cases hspot

end

/-! ## Steps on the temporaries -/

section

variable {W : World} {T T' : Temp} {r r' : Replica} {a : ReplicaAction}

theorem plain_visit {t t' : FileTree} {p : List String} {more : List (List String)}
    (h : visit t p = some (t', more)) : t'.plain = t.plain := by
  obtain ⟨rfl | ⟨q, m, rfl⟩, -⟩ := visit_cases h
  · rfl
  · exact FileTree.plain_setMode q m

theorem plain_chmodChrome {t t' : FileTree} {root : List String}
    (h : chmodChrome t root = some t') : t'.plain = t.plain := by
  obtain rfl | ⟨q, m, rfl⟩ := chmodChrome_cases h
  · rfl
  · exact FileTree.plain_setMode q m

/-- A step of the download gives up, or stays with the download. -/
theorem downloadStep_inv (h : downloadStep W T r a = some (T', r')) :
    (∃ e, r' = r.abort e) ∨ (r'.phase.between = true ∧ r'.phase.root = none) := by
  unfold downloadStep at h
  split at h
  · split at h
    all_goals cases h
    all_goals exact Or.inl ⟨_, rfl⟩
  · split at h
    · split at h
      all_goals cases h
      · exact Or.inr ⟨rfl, rfl⟩
      · exact Or.inl ⟨_, rfl⟩
    · cases h
  · split at h
    · rename_i hp
      cases h
      right
      show r.phase.between = true ∧ r.phase.root = none
      rw [hp]
      exact ⟨rfl, rfl⟩
    · cases h
  · split at h
    all_goals cases h
    exact Or.inl ⟨_, rfl⟩
  · split at h
    all_goals cases h
    all_goals exact Or.inr ⟨rfl, rfl⟩
  · cases h

/-- A step of the extraction gives up, or goes on: to a directory where it looks for one. -/
theorem extractStep_inv (h : extractStep W T r a = some (T', r')) :
    (∃ e, r' = r.abort e) ∨
      (r'.phase.between = true ∧
        (r.phase ≠ .locate → r.phase.root = none → r'.phase.root = none)) := by
  have hgo : ∀ phase : Phase, phase.between = true → phase.root = none →
      (∃ e, r.goto phase = r.abort e) ∨ ((r.goto phase).phase.between = true ∧
        (r.phase ≠ .locate → r.phase.root = none → (r.goto phase).phase.root = none)) :=
    fun phase hb hroot => Or.inr ⟨hb, fun _ _ => hroot⟩
  have hfound : ∀ phase root, phase.between = true →
      (r.phase = .locate ∨ r.phase.root = some root) →
      (∃ e, r.goto phase = r.abort e) ∨ ((r.goto phase).phase.between = true ∧
        (r.phase ≠ .locate → r.phase.root = none → (r.goto phase).phase.root = none)) := by
    intro phase root hb hr
    refine Or.inr ⟨hb, fun hlocate hnone => ?_⟩
    rcases hr with hr | hr
    · exact absurd hr hlocate
    · rw [hnone] at hr
      cases hr
  unfold extractStep at h
  split at h
  · split at h
    · split at h
      all_goals cases h
      exact Or.inl ⟨_, rfl⟩
    all_goals cases h
    all_goals exact Or.inl ⟨_, rfl⟩
  · split at h
    · cases h
      exact hgo _ rfl rfl
    · cases h
      exact hgo _ rfl rfl
    · obtain ⟨c, -, h⟩ := Option.map_eq_some_iff.mp h
      split at h
      all_goals cases h
      · exact hgo _ rfl rfl
      · exact Or.inl ⟨_, rfl⟩
    · split at h
      all_goals cases h
      exact hgo _ rfl rfl
    · split at h
      all_goals cases h
      · exact hgo _ rfl rfl
      · exact Or.inl ⟨_, rfl⟩
      · exact hgo _ rfl rfl
    · rename_i hp
      obtain ⟨t, -, h⟩ := Option.map_eq_some_iff.mp h
      split at h
      all_goals cases h
      · exact hfound _ (.inside []) rfl (Or.inl hp)
      · exact hfound _ (.inside []) rfl (Or.inl hp)
      · exact Or.inl ⟨_, rfl⟩
    · rename_i hp
      cases h
      exact hfound _ _ rfl (Or.inr (by rw [hp]; rfl))
    · rename_i hp
      obtain ⟨t, -, h⟩ := Option.bind_eq_some_iff.mp h
      split at h
      · obtain ⟨q, -, h⟩ := Option.map_eq_some_iff.mp h
        cases h
        exact hfound _ _ rfl (Or.inr (by rw [hp]; rfl))
      · cases h
    · rename_i hp
      obtain ⟨t, -, h⟩ := Option.bind_eq_some_iff.mp h
      split at h
      · obtain ⟨q, -, h⟩ := Option.map_eq_some_iff.mp h
        cases h
        exact hfound _ _ rfl (Or.inr (by rw [hp]; rfl))
      · cases h
    · rename_i hp
      split at h
      all_goals cases h
      · right
        rw [hp]
        exact ⟨rfl, fun _ hnone => by cases hnone⟩
      · exact hfound _ _ rfl (Or.inr (by rw [hp]; rfl))
    · cases h
  · cases h

/-- A step on the temporaries is one of the cleanup, or gives up, or goes on. -/
theorem ownStep_inv (h : ownStep W T r a = some (T', r')) :
    cleanupStep T r a = some (T', r') ∨
      (r.phase.between = true ∧ ((∃ e, r' = r.abort e) ∨
        (r'.phase.between = true ∧
          (r.phase ≠ .locate → r.phase.root = none → r'.phase.root = none)))) := by
  have hdownload : downloadStep W T r a = some (T', r') → (∃ e, r' = r.abort e) ∨
      (r'.phase.between = true ∧
        (r.phase ≠ .locate → r.phase.root = none → r'.phase.root = none)) := by
    intro h
    rcases downloadStep_inv h with habort | ⟨hb, hroot⟩
    · exact Or.inl habort
    · exact Or.inr ⟨hb, fun _ _ => hroot⟩
  unfold ownStep at h
  split at h
  all_goals first
    | exact Or.inl h
    | (rename_i hp; exact Or.inr ⟨by rw [hp]; rfl, hdownload h⟩)
    | (rename_i hp; exact Or.inr ⟨by rw [hp]; rfl, extractStep_inv h⟩)
    | cases h

/-- What the cleanup does, and what it leaves when a removal fails. -/
theorem cleanupStep_inv (h : cleanupStep T r a = some (T', r')) :
    (∃ result, r.phase = .removeFile result ∧ r' = r.goto (.removeStaging result) ∧
      (T' = { T with linked := false } ∨ (T' = T ∧ ∃ e, a = .fails e))) ∨
    ∃ result, r.phase = .removeStaging result ∧ r' = r.goto (.finished result) ∧
      (T' = { T with staging := none } ∨ (T' = T ∧ ∃ e, a = .fails e)) := by
  unfold cleanupStep at h
  split at h
  · split at h
    all_goals cases h
    · rename_i hp
      exact Or.inl ⟨_, hp, rfl, Or.inl rfl⟩
    · rename_i hp
      exact Or.inr ⟨_, hp, rfl, Or.inl rfl⟩
  · split at h
    all_goals cases h
    · rename_i hp
      exact Or.inl ⟨_, hp, rfl, Or.inr ⟨rfl, _, rfl⟩⟩
    · rename_i hp
      exact Or.inr ⟨_, hp, rfl, Or.inr ⟨rfl, _, rfl⟩⟩
  · cases h

theorem ownStep_locate (hp : r.phase = .locate) (h : ownStep W T r a = some (T', r')) :
    T' = T ∧ ((∃ e, r' = r.abort e) ∨
      ∃ phase root t isFile dir, T.staging = some t ∧ locate isFile dir t = .ok root ∧
        r' = r.goto phase ∧ phase.root = some root) := by
  simp only [ownStep, hp] at h
  cases a with
  | fails e =>
      simp only [extractStep, hp] at h
      cases h
      exact ⟨rfl, Or.inl ⟨_, rfl⟩⟩
  | go b =>
      simp only [extractStep, hp] at h
      obtain ⟨t, ht, h⟩ := Option.map_eq_some_iff.mp h
      split at h
      · rename_i root hroot
        cases h
        exact ⟨rfl, Or.inr ⟨_, _, t, _, _, ht, hroot, rfl, rfl⟩⟩
      · rename_i seen hseen
        cases h
        exact ⟨rfl, Or.inr ⟨_, _, t, _, _, ht, hseen, rfl, rfl⟩⟩
      · cases h
        exact ⟨rfl, Or.inl ⟨_, rfl⟩⟩
  | _ => cases h

/-- From then on the pass sets modes only, in the same directory, or the call gives up. -/
theorem ownStep_root {root : Root} (hroot : r.phase.root = some root)
    (h : ownStep W T r a = some (T', r')) :
    T'.plain = T.plain ∧
      ((∃ e, r' = r.abort e) ∨ ∃ phase, r' = r.goto phase ∧ phase.root = some root) := by
  have hextract : extractStep W T r a = some (T', r') := by
    unfold ownStep at h
    split at h
    all_goals first
      | exact h
      | (rename_i hp; rw [hp] at hroot; cases hroot)
      | cases h
  cases a with
  | fails e =>
      simp only [extractStep] at hextract
      split at hextract
      · rename_i hp
        rw [hp] at hroot
        cases hroot
      all_goals cases hextract
      all_goals exact ⟨rfl, Or.inl ⟨_, rfl⟩⟩
  | go b =>
      cases hp : r.phase with
      | fix dir pending =>
          rw [hp] at hroot
          obtain rfl := Option.some.inj hroot
          cases pending with
          | nil =>
              simp only [extractStep, hp] at hextract
              cases hextract
              exact ⟨rfl, Or.inr ⟨_, rfl, rfl⟩⟩
          | cons p pending =>
              simp only [extractStep, hp] at hextract
              obtain ⟨t, ht, hextract⟩ := Option.bind_eq_some_iff.mp hextract
              split at hextract
              · obtain ⟨q, hq, hextract⟩ := Option.map_eq_some_iff.mp hextract
                cases hextract
                refine ⟨?_, Or.inr ⟨_, rfl, rfl⟩⟩
                simp only [Temp.plain, ht, Option.map_some, plain_visit hq]
              · cases hextract
      | fixChrome dir =>
          rw [hp] at hroot
          obtain rfl := Option.some.inj hroot
          simp only [extractStep, hp] at hextract
          obtain ⟨t, ht, hextract⟩ := Option.bind_eq_some_iff.mp hextract
          split at hextract
          · obtain ⟨t', hchrome, hextract⟩ := Option.map_eq_some_iff.mp hextract
            cases hextract
            refine ⟨?_, Or.inr ⟨_, rfl, rfl⟩⟩
            simp only [Temp.plain, ht, Option.map_some, plain_chmodChrome hchrome]
          · cases hextract
      | fixAstray seen =>
          rw [hp] at hroot
          obtain rfl := Option.some.inj hroot
          simp only [extractStep, hp] at hextract
          split at hextract
          · cases hextract
            exact ⟨rfl, Or.inr ⟨r.phase, rfl, by rw [hp]; rfl⟩⟩
          · cases hextract
            exact ⟨rfl, Or.inr ⟨_, rfl, rfl⟩⟩
      | rename root =>
          simp only [extractStep, hp] at hextract
          cases hextract
      | _ =>
          rw [hp] at hroot
          cases hroot
  | _ => cases hextract

end

/-! ## The staging directory and the archive -/

/-- A tree has the names and contents of the directory that the archive extracts to. Of a
link out of the staging directory this is what it leads to. -/
def Extracted (W : World) (contents : List UInt8) (tree : FileTree) : Prop :=
  ∃ t root isFile dir, Unpacked W contents t ∧ locate isFile dir t = .ok root ∧
    tree.plain = (moved t root).1.plain

/-- Everything is unpacked and the directory found; modes may have been set since. -/
def Passed (W : World) (T : Temp) (contents : List UInt8) (root : Root) : Prop :=
  ∃ t isFile dir, Unpacked W contents t ∧ locate isFile dir t = .ok root ∧
    T.staging.map FileTree.plain = some t.plain

/-- What the temporaries hold where the call is. -/
def Staged (W : World) (T : Temp) (r : Replica) : Prop :=
  match r.phase.root with
  | some root => Passed W T r.hashed root
  | none => Prepared W T r

theorem plain_moved {t u : FileTree} (h : t.plain = u.plain) (root : Root) :
    (moved t root).1.plain = (moved u root).1.plain := by
  cases root with
  | astray seen => rfl
  | inside p =>
      cases p with
      | nil => exact h
      | cons n p =>
          show (t.below (n :: p)).plain = (u.below (n :: p)).plain
          rw [FileTree.plain_below, FileTree.plain_below, h]

section

variable {W : World} {T T' : Temp} {r r' : Replica} {a : ReplicaAction}

theorem staged_of_root {root : Root} (hroot : r.phase.root = some root) :
    Staged W T r ↔ Passed W T r.hashed root := by
  unfold Staged
  rw [hroot]

theorem staged_of_no_root (hroot : r.phase.root = none) : Staged W T r ↔ Prepared W T r := by
  unfold Staged
  rw [hroot]

theorem staged_abort (e : InstallError) : Staged W T (r.abort e) :=
  (staged_of_no_root rfl).mpr trivial

/-- What is staged is a matter of names and contents once the directory is found. -/
theorem Passed.congr {contents : List UInt8} {root : Root} (h : Passed W T contents root)
    (hplain : T'.plain = T.plain) : Passed W T' contents root := by
  obtain ⟨t, isFile, dir, hunpacked, hlocate, hstaging⟩ := h
  refine ⟨t, isFile, dir, hunpacked, hlocate, ?_⟩
  have heq : T'.staging.map FileTree.plain = T.staging.map FileTree.plain :=
    congrArg (fun x => x.2.2) hplain
  rw [heq, hstaging]

theorem Passed.extracted {contents : List UInt8} {root : Root} (h : Passed W T contents root)
    {t : FileTree} (ht : T.staging = some t) : Extracted W contents (moved t root).1 := by
  obtain ⟨t₀, isFile, dir, hunpacked, hlocate, hstaging⟩ := h
  rw [ht] at hstaging
  exact ⟨t₀, root, isFile, dir, hunpacked, hlocate, plain_moved (Option.some.inj hstaging) root⟩

/-- A step on the temporaries keeps them in order, whatever links lead to. -/
theorem ownStep_staged (hS : Staged W T r) (h : ownStep W T r a = some (T', r')) :
    Staged W T' r' := by
  cases hroot : r.phase.root with
  | some root =>
      rw [staged_of_root hroot] at hS
      obtain ⟨hplain, ⟨e, rfl⟩ | ⟨phase, rfl, hphase⟩⟩ := ownStep_root hroot h
      · exact staged_abort e
      · exact (staged_of_root hphase).mpr (hS.congr hplain)
  | none =>
      rw [staged_of_no_root hroot] at hS
      by_cases hp : r.phase = .locate
      · obtain ⟨rfl, ⟨e, rfl⟩ | ⟨phase, root, t, isFile, dir, ht, hlocate, rfl, hphase⟩⟩ :=
          ownStep_locate hp h
        · exact staged_abort e
        · rw [Prepared, hp] at hS
          obtain ⟨t', ht', hunpacked⟩ := hS
          obtain rfl : t' = t := Option.some.inj (ht'.symm.trans ht)
          refine (staged_of_root hphase).mpr ⟨t', isFile, dir, hunpacked, hlocate, ?_⟩
          rw [ht, Option.map_some]
      · have hhome : ∀ b, a = .go b → ¬ GoesAstray T r b := fun b _ hastray => hp hastray.1
        have hno : r'.phase.root = none := by
          rcases ownStep_inv h with hclean | ⟨-, ⟨e, rfl⟩ | ⟨-, hno⟩⟩
          · rcases cleanupStep_inv hclean with ⟨_, -, rfl, -⟩ | ⟨_, -, rfl, -⟩
            · rfl
            · rfl
          · rfl
          · exact hno hp hroot
        exact (staged_of_no_root hno).mpr (ownStep_prepared hS hhome h)

end

/-! ## What holds along a call -/

/-- Everything but what is under this tag has the names and contents it had. -/
structure Elsewhere (v₀ v : Volume) (tag : Tag) : Prop where
  temps : ∀ tag', tag' ≠ tag → (v.temps tag').plain = (v₀.temps tag').plain
  installs : ∀ key, key ≠ tag.key → v.installed key = v₀.installed key

section

variable {W : World} {v₀ v v' : Volume} {r r' : Replica} {a : ReplicaAction}
  {asked asked' : Prop}

theorem Elsewhere.setTemp (hE : Elsewhere v₀ v (r.tag W)) (T : Temp) :
    Elsewhere v₀ (v.setTemp (r.tag W) T) (r.tag W) where
  temps tag hne := by
    rw [Volume.setTemp_temps_ne _ _ _ hne]
    exact hE.temps tag hne
  installs key hne := by
    rw [installed_setTemp]
    exact hE.installs key hne

theorem Elsewhere.setInstall (hE : Elsewhere v₀ v (r.tag W)) (inst : Option Install) :
    Elsewhere v₀ (v.setInstall (r.tag W).key inst) (r.tag W) where
  temps tag hne := by
    rw [Volume.setInstall_temps]
    exact hE.temps tag hne
  installs key hne := by
    rw [Volume.installed, Volume.setInstall_installs_ne _ _ _ hne]
    exact hE.installs key hne

theorem Elsewhere.stray (hE : Elsewhere v₀ v' (r.tag W)) :
    Elsewhere v₀ (stray W v v' r a) (r.tag W) where
  temps tag hne := (plain_stray v v' r a tag).trans (hE.temps tag hne)
  installs key hne := (installed_stray v v' r a key).trans (hE.installs key hne)

theorem free_iff_installed (v : Volume) (key : String) :
    v.free key = true ↔ ∀ names, v.installed key = some names → names = [] := by
  unfold Volume.free Volume.installed
  cases v.installs key with
  | none => simp
  | some inst => simp [FileTree.plain]

/-- Whether the path is free is a matter of names. -/
theorem free_congr {key : String} (h : v.installed key = v₀.installed key) :
    v.free key = v₀.free key := by
  rw [Bool.eq_iff_iff, free_iff_installed, free_iff_installed, h]

/-- An install that is found has entries. -/
theorem not_free_of_isFile {b : Beyond} (h : binaryIsFile W v r b = true) :
    v.free (r.tag W).key = false := by
  unfold binaryIsFile at h
  unfold Volume.free
  cases hinst : v.installs (r.tag W).key with
  | none =>
      rw [hinst] at h
      cases h
  | some inst =>
      rw [hinst] at h
      have hmem := FileTree.mem_paths_of_isFile (by decide) (by decide) h
      apply Bool.eq_false_iff.mpr
      intro hempty
      rw [FileTree.paths, List.isEmpty_iff.mp hempty] at hmem
      cases hmem

/-! ## One step of the call -/

/-- The call has come to its request in one of these states. -/
def Asked (past : List (Volume × Replica)) : Prop := ∃ t ∈ past, t.2.phase = .send

end

/-! ## What a call leaves -/

section

variable {W : World} {v : Volume} {s s' : Volume × Replica} {past : List (Volume × Replica)}

end

/-- The call goes on, and no link leads out of its tree. -/
def goOn : ReplicaAction := .go ⟨false, false, none, none⟩

end Pinokio.BrowserArchive
