/-
# Pinokio.BrowserArchive.Success -- a call that gets a good archive

Nothing fails: the server answers, the whole archive arrives in some chunks, every file
system step is done. `install_succeeds` is that the call then installs what the archive
extracts to, whatever an earlier process of its id left under the names of its
temporaries. It is put together from a run for each part of the call.
-/
import Pinokio.BrowserArchive.Failure
import Pinokio.BrowserArchive.Integrity
import Pinokio.BrowserArchive.Permissions

namespace Pinokio.BrowserArchive

/-- The call goes on. A link out of its tree leads to something, which is a regular file
when `beyond` holds, and neither a directory nor another path of the volume. -/
def goesOn (beyond : Bool) : ReplicaAction := .go ⟨true, beyond, none, none⟩

/-! ## Steps on the temporaries -/

theorem Volume.setTemp_setTemp (v : Volume) (tag : Tag) (T T' : Temp) :
    (v.setTemp tag T).setTemp tag T' = v.setTemp tag T' := by
  simp [Volume.setTemp]

theorem Volume.setTemp_self (v : Volume) (tag : Tag) : v.setTemp tag (v.temps tag) = v := by
  simp [Volume.setTemp]

theorem Volume.setInstall_setTemp (v : Volume) (tag : Tag) (T : Temp) (key : String)
    (inst : Option Install) :
    (v.setTemp tag T).setInstall key inst = (v.setInstall key inst).setTemp tag T := rfl

section

variable {W : World} {v : Volume} {r r' : Replica} {T T' : Temp} {phase : Phase}

/-- A call with these temporaries. -/
def placed (W : World) (v : Volume) (T : Temp) (r : Replica) : Volume × Replica :=
  (v.setTemp (r.tag W) T, r)

theorem strayAt_of_no_spot {b : Beyond} (hb : b.spot = none) : strayAt W v r b = none := by
  unfold strayAt
  split
  · exact hb
  · split
    · exact hb
    · rfl
  · rfl

theorem ownStep_kill : ownStep W T r .kill = none := by
  unfold ownStep downloadStep extractStep cleanupStep
  split <;> rfl

/-- A step on the temporaries is a step of the call. -/
theorem single_of_own {a : ReplicaAction} (hb : ∀ b, a = .go b → b.spot = none)
    (h : ownStep W T r a = some (T', r')) :
    (single W none).step (placed W v T r) a = some (placed W v T' r') := by
  have htag : r'.tag W = r.tag W := (ownStep_frame h).toSameCall.tag
  have hstray : ∀ v' : Volume, stray W (v.setTemp (r.tag W) T) v' r a = v' := by
    intro v'
    unfold stray
    split
    · rw [strayAt_of_no_spot (hb _ rfl)]
    · rfl
  have hown : ownStep W ((v.setTemp (r.tag W) T).temps (r.tag W)) r a = some (T', r') := by
    rw [Volume.setTemp_temps_self]
    exact h
  rw [single_step]
  unfold ensureInstalledStep
  split
  -- the last case is the one of the steps on the temporaries
  case h_13 =>
    show (ownStep W ((v.setTemp (r.tag W) T).temps (r.tag W)) r _).map _ = _
    rw [hown, Option.map_some]
    show some (stray W (v.setTemp (r.tag W) T) ((v.setTemp (r.tag W) T).setTemp (r.tag W) T') r _,
      r') = some (v.setTemp (r'.tag W) T', r')
    rw [hstray, Volume.setTemp_setTemp, htag]
  case h_3 =>
    rw [ownStep_kill] at h
    cases h
  all_goals
    rename_i hp
    rw [ownStep, show r.phase = _ from hp] at h
    cases h

theorem single_goesOn {beyond : Bool} (h : ownStep W T r (goesOn beyond) = some (T', r')) :
    (single W none).step (placed W v T r) (goesOn beyond) = some (placed W v T' r') := by
  refine single_of_own (fun b hb => ?_) h
  cases hb
  rfl

/-! ## The download -/

/-- The chunks of an answer are appended to the download file and hashed. -/
theorem chunks_run (chunks : List (List UInt8)) (hholds : Holds T r.hashed)
    (hp : r.phase = .stream (T.files.length - 1)) :
    ∃ T', (single W none).run (placed W v T r) (chunks.map .chunk) =
        some (placed W v T' { r with hashed := r.hashed ++ chunks.flatten }) ∧
      Holds T' (r.hashed ++ chunks.flatten) ∧ T'.files.length = T.files.length := by
  induction chunks generalizing T r with
  | nil =>
      refine ⟨T, ?_, ?_, rfl⟩
      · simp
      · simpa using hholds
  | cons data chunks ih =>
      have hstep : (single W none).step (placed W v T r) (.chunk data) = some (placed W v
          { T with files := T.files.modify (T.files.length - 1) fun c =>
            writeAt c r.hashed.length data } { r with hashed := r.hashed ++ data }) := by
        refine single_of_own (fun b h => by cases h) ?_
        simp [ownStep, downloadStep, hp]
      obtain ⟨T', hrun, hholds', hlen⟩ := ih (r := { r with hashed := r.hashed ++ data })
        (hholds.chunk data) (by rw [List.length_modify]; exact hp)
      refine ⟨T', ?_, ?_, ?_⟩
      · rw [List.map_cons, Machine.run_cons, hstep, List.flatten_cons, ← List.append_assoc]
        exact hrun
      · rw [List.flatten_cons, ← List.append_assoc]
        exact hholds'
      · rw [hlen, List.length_modify]

/-! ## The extraction -/

/-- The staging directory holds this tree. -/
def Temp.withStaging (T : Temp) (t : FileTree) : Temp := { T with staging := some t }

variable {beyond : Bool} {contents : List UInt8} {format : ArchiveFormat}

theorem unpack_finished {k : Nat} {t : FileTree} (hholds : Holds T r.hashed)
    (hmember : W.member format r.hashed k (some t) = .finished) :
    (single W none).step
        (placed W v (T.withStaging t) (r.goto (.unpack format (T.files.length - 1) k)))
        (goesOn beyond) =
      some (placed W v (T.withStaging t) (r.goto .locate)) := by
  apply single_goesOn
  rw [← hholds.opened] at hmember
  simp only [ownStep, extractStep, goesOn, Replica.goto, Temp.withStaging, hmember]

theorem unpack_written {k : Nat} {t dest : FileTree} (hholds : Holds T r.hashed)
    (hmember : W.member format r.hashed k (some t) = .written dest) :
    (single W none).step
        (placed W v (T.withStaging t) (r.goto (.unpack format (T.files.length - 1) k)))
        (goesOn beyond) =
      some (placed W v (T.withStaging dest)
        (r.goto (.unpack format (T.files.length - 1) (k + 1)))) := by
  apply single_goesOn
  rw [← hholds.opened] at hmember
  simp only [ownStep, extractStep, goesOn, Replica.goto, Temp.withStaging, hmember]

/-- The members of an archive are written to the staging directory. -/
theorem unpack_repeats {fuel k : Nat} {t u : FileTree} (hholds : Holds T r.hashed)
    (h : unpackFrom W format r.hashed fuel k t = some u) :
    (single W none).Repeats (goesOn beyond)
      (placed W v (T.withStaging t) (r.goto (.unpack format (T.files.length - 1) k)))
      (placed W v (T.withStaging u) (r.goto .locate)) := by
  induction fuel generalizing k t with
  | zero => cases h
  | succ fuel ih =>
      unfold unpackFrom at h
      split at h
      · rename_i hmember
        cases h
        exact (Machine.Repeats.refl _ _).head (unpack_finished hholds hmember)
      · cases h
      · rename_i dest hmember
        exact (ih h).head (unpack_written hholds hmember)

theorem fix_nil {t : FileTree} {root : List String} :
    (single W none).step (placed W v (T.withStaging t) (r.goto (.fix root []))) (goesOn beyond) =
      some (placed W v (T.withStaging t) (r.goto (.fixChrome root))) :=
  single_goesOn rfl

theorem fix_cons {t : FileTree} {root p : List String} {pending : List (List String)}
    {q : FileTree × List (List String)} (hq : visit t p = some q) :
    (single W none).step (placed W v (T.withStaging t) (r.goto (.fix root (p :: pending))))
        (goesOn beyond) =
      some (placed W v (T.withStaging q.1) (r.goto (.fix root (q.2 ++ pending)))) := by
  apply single_goesOn
  have hpasses : ∀ c, passes ⟨true, beyond, none, none⟩ c = true := by
    intro c
    cases c <;> rfl
  simp [ownStep, extractStep, goesOn, Replica.goto, Temp.withStaging, hq, hpasses]

/-- The permission pass. -/
theorem fix_repeats {fuel : Nat} {t u : FileTree} {root : List String}
    {pending : List (List String)} (h : makeWorldReadable fuel t pending = some u) :
    (single W none).Repeats (goesOn beyond)
      (placed W v (T.withStaging t) (r.goto (.fix root pending)))
      (placed W v (T.withStaging u) (r.goto (.fixChrome root))) := by
  induction fuel generalizing t pending with
  | zero =>
      cases pending with
      | nil =>
          cases h
          exact (Machine.Repeats.refl _ _).head fix_nil
      | cons p pending => cases h
  | succ fuel ih =>
      cases pending with
      | nil =>
          cases h
          exact (Machine.Repeats.refl _ _).head fix_nil
      | cons p pending =>
          obtain ⟨q, hq, h⟩ := Option.bind_eq_some_iff.mp h
          exact (ih h).head (fix_cons hq)

theorem fixChrome_step {t u : FileTree} {root : List String} (h : chmodChrome t root = some u) :
    (single W none).step (placed W v (T.withStaging t) (r.goto (.fixChrome root)))
        (goesOn beyond) =
      some (placed W v (T.withStaging u) (r.goto (.rename (.inside root)))) := by
  apply single_goesOn
  have hpasses : ∀ c, passes ⟨true, beyond, none, none⟩ c = true := by
    intro c
    cases c <;> rfl
  simp [ownStep, extractStep, goesOn, Replica.goto, Temp.withStaging, h, hpasses]

theorem locate_dir {isFile : Bool} {dir : Option FileTree} {t : FileTree} {root : List String}
    (h : locate isFile dir t = .ok (.inside root)) : ∃ m, t.lookup root = some (.dir m) := by
  unfold locate at h
  split at h
  · cases h
    exact ⟨t.mode, rfl⟩
  · split at h
    · split at h
      · rename_i m hdir
        split at h
        · cases h
          exact ⟨m, hdir⟩
        · cases h
      · split at h
        · split at h
          all_goals cases h
        · cases h
      · cases h
    · cases h

/-- What is renamed is still a directory after the permission pass. -/
theorem isThere_of_permissionPass {fuel : Nat} {isFile : Bool} {dir : Option FileTree}
    {t u : FileTree} {root : List String} (hroot : locate isFile dir t = .ok (.inside root))
    (h : permissionPass fuel t root = some u) : isThere u (.inside root) = true := by
  obtain ⟨m, hdir⟩ := locate_dir hroot
  obtain ⟨w, hfix, hchrome⟩ := Option.bind_eq_some_iff.mp h
  obtain ⟨m', hw⟩ := (makeWorldReadable_shape hfix).dir hdir
  have hshape : FileTree.SameShape w u := by
    rcases chmodChrome_cases hchrome with rfl | ⟨q, k, rfl⟩
    · exact FileTree.SameShape.refl _
    · exact FileTree.SameShape.setMode q k
  obtain ⟨m'', hu⟩ := hshape.dir hw
  simp only [isThere, hu, Option.any_some, FileNode.isDir]

/-- From the checksum test to the rename. -/
theorem extract_repeats {fuel : Nat} {tree : FileTree} (hholds : Holds T r.hashed)
    (h : extractArchive W beyond fuel r.hashed = some tree) :
    ∃ t root, (single W none).Repeats (goesOn beyond) (placed W v T (r.goto .clearStaging))
        (placed W v (T.withStaging t) (r.goto (.rename (.inside root)))) ∧
      isThere t (.inside root) = true ∧ (moved t (.inside root)).1 = tree := by
  obtain ⟨format, t₀, root, u, hformat, hunpack, hroot, hpass, hmoved⟩ :=
    extractArchive_eq_some_iff.mp h
  obtain ⟨t₁, hfix, hchrome⟩ := Option.bind_eq_some_iff.mp hpass
  have hformat' : detectFormat r.hashed = .ok format := by
    unfold Except.toOption at hformat
    split at hformat
    · cases hformat
      assumption
    · cases hformat
  refine ⟨u, root, ?_, isThere_of_permissionPass hroot hpass, hmoved⟩
  have hclear : (single W none).step (placed W v T (r.goto .clearStaging)) (goesOn beyond) =
      some (placed W v { T with staging := none } (r.goto .createStaging)) := single_goesOn rfl
  have hcreate : (single W none).step (placed W v { T with staging := none }
      (r.goto .createStaging)) (goesOn beyond) =
      some (placed W v (T.withStaging (FileTree.empty W.dirMode)) (r.goto .detect)) :=
    single_goesOn rfl
  have hdetect : (single W none).step (placed W v (T.withStaging (FileTree.empty W.dirMode))
      (r.goto .detect)) (goesOn beyond) =
      some (placed W v (T.withStaging (FileTree.empty W.dirMode))
        (r.goto (.openArchive format))) := by
    apply single_goesOn
    have hdownload : (T.withStaging (FileTree.empty W.dirMode)).download = some r.hashed :=
      Holds.download hholds
    simp only [ownStep, extractStep, goesOn, Replica.goto, hdownload, Option.map_some, hformat']
  have hopen : (single W none).step (placed W v (T.withStaging (FileTree.empty W.dirMode))
      (r.goto (.openArchive format))) (goesOn beyond) =
      some (placed W v (T.withStaging (FileTree.empty W.dirMode))
        (r.goto (.unpack format (T.files.length - 1) 0))) := by
    apply single_goesOn
    simp only [ownStep, extractStep, goesOn, Replica.goto, Temp.withStaging, hholds.1, if_true]
  have hlocate : (single W none).step (placed W v (T.withStaging t₀) (r.goto .locate))
      (goesOn beyond) =
      some (placed W v (T.withStaging t₀) (r.goto (.fix root (t₀.children root)))) := by
    apply single_goesOn
    simp only [ownStep, extractStep, goesOn, Replica.goto, Temp.withStaging, Option.map_some, hroot]
  have hend := (Machine.Repeats.refl (goesOn beyond)
    (placed W v (T.withStaging u) (r.goto (.rename (.inside root))))).head (fixChrome_step hchrome)
  have hfixed := ((fix_repeats hfix).trans hend).head hlocate
  exact ((((unpack_repeats hholds hunpack).trans hfixed).head hopen).head hdetect).head hcreate
    |>.head hclear

/-! ## The rename and the cleanup -/

theorem rename_step {t : FileTree} {root : Root} (hfree : v.free (r.tag W).key = true)
    (hthere : isThere t root = true) :
    (single W none).step (placed W v (T.withStaging t) (r.goto (.rename root))) (goesOn beyond) =
      some (placed W (v.setInstall (r.tag W).key (some ⟨(moved t root).1, r.hashed⟩))
        { T with staging := (moved t root).2 } (r.goto (.removeFile (.ok ())))) := by
  rw [single_step]
  show renameStep W (v.setTemp (r.tag W) (T.withStaging t)) (r.goto (.rename root)) root = _
  have htag : ∀ phase, (r.goto phase).tag W = r.tag W := fun _ => rfl
  have hfree' : (v.setTemp (r.tag W) (T.withStaging t)).free (r.tag W).key = true := hfree
  have hstaging : (T.withStaging t).staging = some t := rfl
  simp only [renameStep, placed, htag, Volume.setTemp_temps_self, hstaging, Option.bind_some,
    hfree', hthere, Bool.and_self, if_true, Volume.setInstall_setTemp, Volume.setTemp_setTemp]
  rfl

/-- The rename to a free path, and the removal of the temporaries. -/
theorem rename_repeats {t : FileTree} {root : Root} (T : Temp) (beyond : Bool)
    (hfree : v.free (r.tag W).key = true) (hthere : isThere t root = true) :
    ∃ T', T'.Gone ∧ (single W none).Repeats (goesOn beyond)
      (placed W v (T.withStaging t) (r.goto (.rename root)))
      (placed W (v.setInstall (r.tag W).key (some ⟨(moved t root).1, r.hashed⟩)) T'
        (r.goto (.finished (.ok ())))) := by
  refine ⟨{ T with linked := false, staging := none }, ⟨rfl, rfl⟩, ?_⟩
  apply Machine.Repeats.head (rename_step hfree hthere)
  apply Machine.Repeats.head (single_goesOn rfl)
  exact (Machine.Repeats.refl _ _).head (single_goesOn rfl)

end

/-! ## The whole call -/

/-- What is left of a call that installed `tree`: the install, no temporaries, and all the
rest exactly as it was. -/
def Installs (W : World) (v : Volume) (r : Replica) (tree : FileTree) (contents : List UInt8)
    (s : Volume × Replica) : Prop :=
  s.2.phase = .finished (.ok ()) ∧ ∃ T, T.Gone ∧
    s.1 = (v.setInstall (r.tag W).key (some ⟨tree, contents⟩)).setTemp (r.tag W) T

/-- The actions of a call that gets the archive in these chunks. -/
def delivery (beyond : Bool) (status : Nat) (reason : String) (chunks : List (List UInt8)) :
    List ReplicaAction :=
  [goesOn beyond, goesOn beyond, goesOn beyond, .respond status reason, goesOn beyond] ++
    chunks.map .chunk

variable {W : World} {v : Volume} {url : String} {expected : Option String} {pid : Nat}
  {beyond : Bool} {status : Nat} {reason : String} {chunks : List (List UInt8)}
  {contents : List UInt8}

/-- The whole archive is in the download file, and its bytes went through the hasher. -/
theorem delivery_run (expected : Option String) (pid : Nat) (beyond : Bool) (reason : String)
    (chunks : List (List UInt8)) (hfree : v.free (installKey W url) = true)
    (hstatus : 200 ≤ status ∧ status < 300) :
    ∃ T, Holds T chunks.flatten ∧ (single W none).run (v, Replica.start url expected pid)
        (delivery beyond status reason chunks) =
      some (placed W v T { Replica.start url expected pid with
        phase := .stream (T.files.length - 1), hashed := chunks.flatten }) := by
  let r := Replica.start url expected pid
  have hnone : binaryIsFile W v r ⟨true, beyond, none, none⟩ = false := by
    apply Bool.eq_false_iff.mpr
    intro h
    have hfull := not_free_of_isFile h
    rw [show v.free (r.tag W).key = true from hfree] at hfull
    cases hfull
  have hcheck : (single W none).step (v, r) (goesOn beyond) = some (v, r.goto .createRoot) := by
    rw [single_step]
    show (if binaryIsFile W v r ⟨true, beyond, none, none⟩ = true then _ else _) = _
    rw [hnone]
    rfl
  have hroot : (single W none).step (v, r.goto .createRoot) (goesOn beyond) =
      some (v, r.goto .buildClient) := single_step W
  have hclient : (single W none).step (v, r.goto .buildClient) (goesOn beyond) =
      some (v, r.goto .send) := single_step W
  -- From the first request on the call has its temporaries, whatever they hold.
  let T₀ := v.temps (r.tag W)
  have hplaced : (v, r.goto .send) = placed W v T₀ (r.goto .send) := by
    rw [placed, show (r.goto .send).tag W = r.tag W from rfl, Volume.setTemp_self]
  have hsend : (single W none).step (placed W v T₀ (r.goto .send)) (.respond status reason) =
      some (placed W v T₀ (r.goto .createFile)) := by
    refine single_of_own (fun b h => by cases h) ?_
    simp [ownStep, downloadStep, Replica.goto, hstatus]
  let files := if T₀.linked then T₀.files.dropLast ++ [[]] else T₀.files ++ [[]]
  let T₁ : Temp := { T₀ with files, linked := true }
  have hcreate : (single W none).step (placed W v T₀ (r.goto .createFile)) (goesOn beyond) =
      some (placed W v T₁ (r.goto (.stream (T₁.files.length - 1)))) := single_goesOn rfl
  have hholds : Holds T₁ [] := by
    refine ⟨rfl, ?_⟩
    show (if T₀.linked = true then T₀.files.dropLast ++ [[]] else T₀.files ++ [[]]).getLast? = _
    split
    · exact List.getLast?_concat
    · exact List.getLast?_concat
  obtain ⟨T, hrun, hT, hlen⟩ := chunks_run (W := W) (v := v)
    (r := r.goto (.stream (T₁.files.length - 1))) chunks hholds rfl
  refine ⟨T, hT, ?_⟩
  rw [hlen]
  apply (single W none).run_append_iff.mpr
  refine ⟨placed W v T₁ (r.goto (.stream (T₁.files.length - 1))), ?_, hrun⟩
  simp only [Machine.run_cons, Machine.run_nil, hcheck, hroot, hclient, Option.bind_some, hplaced,
    hsend, hcreate, r]

/-- A call on a free path that gets an archive with the expected hash, if it expects one,
which can be extracted, installs it. -/
theorem install_succeeds {fuel : Nat} {tree : FileTree} (hfree : v.free (installKey W url) = true)
    (hstatus : 200 ≤ status ∧ status < 300) (hchunks : chunks.flatten = contents)
    (hmatch : ∀ h, expected = some h → W.sha256 contents = h)
    (hextract : extractArchive W beyond fuel contents = some tree) :
    ∃ n s, (single W none).run (v, Replica.start url expected pid)
        (delivery beyond status reason chunks ++ List.replicate n (goesOn beyond)) = some s ∧
      Installs W v (Replica.start url expected pid) tree contents s := by
  subst hchunks
  obtain ⟨T, hholds, hdelivery⟩ := delivery_run expected pid beyond reason chunks hfree hstatus
  let r : Replica := { Replica.start url expected pid with hashed := chunks.flatten }
  have hstream : (single W none).step (placed W v T (r.goto (.stream (T.files.length - 1))))
      (goesOn beyond) =
      some (placed W v T (r.goto (.verify (W.sha256 chunks.flatten)))) := single_goesOn rfl
  let r' : Replica := { r with verified := true }
  have hverify : (single W none).step (placed W v T (r.goto (.verify (W.sha256 chunks.flatten))))
      (goesOn beyond) = some (placed W v T (r'.goto .clearStaging)) := by
    have hpass : verifyStep (r.goto (.verify (W.sha256 chunks.flatten)))
        (W.sha256 chunks.flatten) = r'.goto .clearStaging := by
      unfold verifyStep
      split
      · rename_i h hexp
        rw [hmatch h hexp, if_neg (not_not.mpr rfl)]
        rfl
      · rfl
    rw [single_step]
    exact congrArg (fun q => some (v.setTemp (r.tag W) T, q)) hpass
  obtain ⟨t, root, hpart, hthere, hmoved⟩ := extract_repeats (v := v) (r := r') hholds hextract
  obtain ⟨T', hgone, hend⟩ := rename_repeats (v := v) (r := r') T beyond hfree hthere
  obtain ⟨n, hn⟩ := ((hpart.trans hend).head hverify).head hstream
  refine ⟨n, _, (single W none).run_append_iff.mpr ⟨_, hdelivery, hn⟩, rfl, T', hgone, ?_⟩
  rw [← hmoved]
  rfl

/-! ## One call after the other -/

/-- A call and what happened until it returned or its process was gone. -/
structure Call where
  url : String
  expected : Option String
  pid : Nat
  actions : List ReplicaAction

/-- One process after the other calls `ensure_installed` on a volume. A call that has not
returned at the end of its actions was cut short there. -/
def calls (W : World) : Machine Volume Call where
  step v c :=
    ((single W none).run (v, Replica.start c.url c.expected c.pid) c.actions).map Prod.fst

/-- What is in order at every moment of a call, whatever fails. -/
structure Orderly (W : World) (s : Volume × Replica) : Prop where
  staged : Staged W (s.1.temps (s.2.tag W)) s.2
  checked : Checked W s.2

section

variable {v' : Volume} {r r' : Replica} {a : ReplicaAction} {key : String}

theorem orderly_start : Orderly W (v, Replica.start url expected pid) where
  staged := (staged_of_no_root rfl).mpr trivial
  checked := ⟨fun _ => rfl, (fun h => by cases h), (fun h => by cases h)⟩

theorem Orderly.goto {v v' : Volume} {phase : Phase} (hO : Orderly W (v, r))
    (hroot : phase.root = none) (hP : ∀ T, Prepared W T (r.goto phase))
    (hstage : phase.stage = r.phase.stage ∨ phase.stage = 2) : Orderly W (v', r.goto phase) where
  staged := (staged_of_no_root hroot).mpr (hP _)
  checked := hO.checked.goto hstage

/-- A step on the temporaries keeps them in order, also where it goes through a link. -/
theorem staged_own {T' : Temp} (hS : Staged W (v.temps (r.tag W)) r)
    (h : ownStep W (v.temps (r.tag W)) r a = some (T', r')) :
    Staged W ((stray W v (v.setTemp (r.tag W) T') r a).temps (r'.tag W)) r' := by
  have hS' := ownStep_staged hS h
  rw [(ownStep_frame h).toSameCall.tag]
  cases hroot : r.phase.root with
  | none =>
      rw [stray_of_no_root hroot, Volume.setTemp_temps_self]
      exact hS'
  | some root =>
      -- a mode set through a link may be one of its own entries
      obtain ⟨-, ⟨e, rfl⟩ | ⟨phase, rfl, hphase⟩⟩ := ownStep_root hroot h
      · exact staged_abort e
      · rw [staged_of_root hphase] at hS' ⊢
        apply hS'.congr
        rw [plain_stray, Volume.setTemp_temps_self]

theorem verifyStep_root (r : Replica) (actual : String) :
    (verifyStep r actual).phase.root = none := by
  unfold verifyStep
  split
  · split
    · rfl
    · rfl
  · rfl

/-- Every step keeps the temporaries and the checksum test in order. -/
theorem orderly_step (hO : Orderly W (v, r)) (h : CallStep W v r a v' r') :
    Orderly W (v', r') := by
  cases h with
  | killed => exact hO.goto rfl (fun _ => trivial) (Or.inr rfl)
  | found b hp hfile => exact hO.goto rfl (fun _ => trivial) (Or.inr rfl)
  | begun a phase hr hidle hphase =>
      rcases hphase with rfl | rfl | ⟨e, rfl⟩
      · exact hO.goto rfl (fun _ => trivial) (Or.inl hr.symm)
      · exact hO.goto rfl (fun _ => trivial) (Or.inl hr.symm)
      · exact hO.goto rfl (fun _ => trivial) (Or.inr rfl)
  | entered b hp =>
      refine hO.goto rfl (fun _ => trivial) (Or.inl ?_)
      rw [hp]
      rfl
  | compared b actual hp =>
      have hno : r.phase.root = none := by
        rw [hp]
        rfl
      have hP : Prepared W (v.temps (r.tag W)) r := (staged_of_no_root hno).mp hO.staged
      have hV := contained_verifyStep (a := .go b) hp hP hO.checked
      refine ⟨?_, hV.checked⟩
      show Staged W (v.temps ((verifyStep r actual).tag W)) (verifyStep r actual)
      rw [staged_of_no_root (verifyStep_root r actual), hV.call.tag]
      exact hV.prepared
  | renamed b root v' r' hp h =>
      obtain ⟨t, -, -, -, rfl⟩ := renameStep_inv h
      exact hO.goto rfl (fun _ => trivial) (Or.inr rfl)
  | renameFailed root e hp => exact hO.goto rfl (fun _ => trivial) (Or.inr rfl)
  | settled e b hp hfile => exact hO.goto rfl (fun _ => trivial) (Or.inr rfl)
  | refused e b hp => exact hO.goto rfl (fun _ => trivial) (Or.inr rfl)
  | own a T' r' h => exact ⟨staged_own hO.staged h, checked_ownStep hO.checked h⟩

/-- One step changes no install but by a rename to a free path, and only modes of it. -/
theorem installed_step (hO : Orderly W (v, r)) (h : CallStep W v r a v' r') (key : String) :
    v'.installed key = v.installed key ∨
      (key = (r.tag W).key ∧ v.free key = true ∧ ∃ inst, v'.installs key = some inst ∧
        Extracted W r.hashed inst.tree ∧ ∀ h, r.expected = some h → W.sha256 r.hashed = h) := by
  cases h with
  | renamed b root v' r' hp h =>
      have hroot : r.phase.root = some root := by
        rw [hp]
        rfl
      have hS : Passed W (v.temps (r.tag W)) r.hashed root := (staged_of_root hroot).mp hO.staged
      have hverified : r.verified = true := hO.checked.after (by rw [hp]; rfl)
      obtain ⟨t, ht, hempty, rfl, rfl⟩ := renameStep_inv h
      by_cases hkey : key = (r.tag W).key
      · subst hkey
        right
        refine ⟨rfl, ?_, { tree := (moved t root).1, archive := r.hashed }, ?_, hS.extracted ht,
          hO.checked.hash hverified⟩
        · unfold Volume.free
          cases hinst : v.installs (r.tag W).key with
          | none => rfl
          | some inst => exact List.isEmpty_iff.mpr (hempty inst hinst)
        · rw [Volume.setTemp_installs]
          exact Volume.setInstall_installs_self _ _ _
      · left
        rw [installed_setTemp, Volume.installed, Volume.setInstall_installs_ne _ _ _ hkey]
        rfl
  | own a T' r' h =>
      left
      rw [installed_stray, installed_setTemp]
  | _ => exact Or.inl rfl

/-- Nothing is at an install path, or the whole of what some good bytes extract to. -/
def Settled (W : World) (Good : List UInt8 → Prop) (v : Volume) (key : String) : Prop :=
  v.free key = true ∨ ∃ inst contents, v.installs key = some inst ∧
    Extracted W contents inst.tree ∧ Good contents

variable {Good : List UInt8 → Prop} {s : Volume × Replica} {as : List ReplicaAction}

theorem Settled.congr (h : Settled W Good v key) (hsame : v'.installed key = v.installed key) :
    Settled W Good v' key := by
  rcases h with hfree | ⟨inst, contents, hinst, hextracted, hgood⟩
  · exact Or.inl ((free_congr hsame).trans hfree)
  · right
    rw [Volume.installed, Volume.installed, hinst, Option.map_some] at hsame
    obtain ⟨inst', hinst', hplain⟩ := Option.map_eq_some_iff.mp hsame
    obtain ⟨t, root, isFile, dir, hunpacked, hlocate, heq⟩ := hextracted
    exact ⟨inst', contents, hinst', ⟨t, root, isFile, dir, hunpacked, hlocate, hplain.trans heq⟩,
      hgood⟩

/-- A step of a call leaves every path settled that it finds settled. -/
theorem settled_step (hO : Orderly W (v, r)) (h : CallStep W v r a v' r')
    (hgood : (r.tag W).key = key → ∀ contents,
      (∀ h, r.expected = some h → W.sha256 contents = h) → Good contents)
    (hsettled : Settled W Good v key) : Settled W Good v' key := by
  rcases installed_step hO h key with hsame | ⟨rfl, -, inst, hinst, hextracted, hhash⟩
  · exact hsettled.congr hsame
  · exact Or.inr ⟨inst, r.hashed, hinst, hextracted, hgood rfl _ hhash⟩

/-- A call, ended or cut short anywhere, leaves every path settled that it found settled. -/
theorem settled_call
    (hrun : (single W none).run (v, Replica.start url expected pid) as = some s)
    (hgood : installKey W url = key → ∀ contents,
      (∀ h, expected = some h → W.sha256 contents = h) → Good contents)
    (h : Settled W Good v key) : Settled W Good s.1 key := by
  have hI : Orderly W s ∧ SameCall (Replica.start url expected pid) s.2 ∧
      Settled W Good s.1 key := by
    refine Machine.run_invariant (I := fun s => Orderly W s ∧
      SameCall (Replica.start url expected pid) s.2 ∧ Settled W Good s.1 key) ?_ hrun
      ⟨orderly_start, ⟨rfl, rfl, rfl⟩, h⟩
    rintro ⟨u, q⟩ a ⟨u', q'⟩ hst ⟨hO, hcall, hsettled⟩
    rw [single_step] at hst
    have hC := callStep_inv hst
    refine ⟨orderly_step hO hC, hcall.trans (sameCall_of_callStep hC), ?_⟩
    apply settled_step hO hC _ hsettled
    intro hkey contents hmatch
    have htag : q.tag W = (Replica.start url expected pid).tag W := hcall.tag
    apply hgood
    · rw [htag] at hkey
      exact hkey
    · intro h hh
      exact hmatch h (hcall.expected.trans hh)
  exact hI.2.2

variable {cs : List Call}

/-- Whatever calls were made, and wherever each of them ended. -/
theorem settled_calls (hrun : (calls W).run v cs = some v')
    (hgood : ∀ c ∈ cs, installKey W c.url = key → ∀ contents,
      (∀ h, c.expected = some h → W.sha256 contents = h) → Good contents)
    (h : Settled W Good v key) : Settled W Good v' key := by
  induction cs generalizing v with
  | nil =>
      cases hrun
      exact h
  | cons c cs ih =>
      obtain ⟨u, hst, hu⟩ := (calls W).run_cons_iff.mp hrun
      obtain ⟨s, hs, rfl⟩ := Option.map_eq_some_iff.mp hst
      apply ih hu (fun c' hc' => hgood c' (List.mem_cons_of_mem c hc'))
      exact settled_call hs (hgood c List.mem_cons_self) h

/-- A call that finds `chrome` installed returns at once. -/
theorem found_step {inst : Install} (hinst : v.installs (installKey W url) = some inst)
    (hchrome : inst.tree.isFile [] "chrome" beyond = true) :
    (single W none).step (v, Replica.start url expected pid) (goesOn beyond) =
      some (v, (Replica.start url expected pid).goto (.finished (.ok ()))) := by
  have hfile : binaryIsFile W v (Replica.start url expected pid) ⟨true, beyond, none, none⟩ =
      true := by
    show (v.installs (installKey W url)).any _ = true
    rw [hinst]
    exact hchrome
  rw [single_step]
  show (if binaryIsFile W v (Replica.start url expected pid) ⟨true, beyond, none, none⟩ = true
    then _ else _) = _
  rw [hfile]
  rfl

end

/-- What is at the install path of a URL whose calls expect the same hash, or expect none:
the whole of what an archive with that hash extracts to. -/
def InstalledWhole (W : World) (expected : Option String) (v : Volume) (key : String)
    (inst : Install) : Prop :=
  v.installs key = some inst ∧ ∃ contents, Extracted W contents inst.tree ∧
    ∀ h, expected = some h → W.sha256 contents = h

/-- A call whose process is gone after the first member of the archive was unpacked. -/
def killedCall : Call where
  url := "http://h/a"
  expected := some "3c4741ef7fe0711c148c427be2362a3f4fa3c43c6412919ddee1bee408e554ad"
  pid := 1
  actions := delivery false 200 "OK" [twoFiles] ++ List.replicate 7 (goesOn false)

/-- Whatever calls were made before: where the path is still free, a call that gets a good
archive installs it, and where it is not, there is a whole install, which a call that finds
`chrome` there returns at once. The links of the archive lead to no other path of the volume
and to no directory (`goesOn`), and the download name is no link. -/
theorem install_recovers {cs : List Call} {v' : Volume} {fuel : Nat} {tree : FileTree}
    (hrun : (calls W).run v cs = some v') (hfree : v.free (installKey W url) = true)
    (hsame : ∀ c ∈ cs, installKey W c.url = installKey W url → c.expected = expected)
    (hstatus : 200 ≤ status ∧ status < 300) (hchunks : chunks.flatten = contents)
    (hmatch : ∀ h, expected = some h → W.sha256 contents = h)
    (hextract : extractArchive W beyond fuel contents = some tree) :
    (v'.free (installKey W url) = true →
      ∃ n s, (single W none).run (v', Replica.start url expected pid)
          (delivery beyond status reason chunks ++ List.replicate n (goesOn beyond)) = some s ∧
        Installs W v' (Replica.start url expected pid) tree contents s) ∧
    (v'.free (installKey W url) = false →
      ∃ inst, InstalledWhole W expected v' (installKey W url) inst ∧
        (inst.tree.isFile [] "chrome" beyond = true →
          (single W none).step (v', Replica.start url expected pid) (goesOn beyond) =
            some (v', (Replica.start url expected pid).goto (.finished (.ok ()))))) := by
  constructor
  · intro hfree'
    exact install_succeeds hfree' hstatus hchunks hmatch hextract
  · intro hfull
    have hgood : ∀ c ∈ cs, installKey W c.url = installKey W url → ∀ contents,
        (∀ h, c.expected = some h → W.sha256 contents = h) →
        ∀ h, expected = some h → W.sha256 contents = h := by
      intro c hc hkey contents hmatch h hh
      exact hmatch h ((hsame c hc hkey).trans hh)
    rcases settled_calls hrun hgood (Or.inl hfree) with hfree' | ⟨inst, contents', hinst, hex, hg⟩
    · rw [hfull] at hfree'
      cases hfree'
    · exact ⟨inst, ⟨hinst, contents', hex, hg⟩, found_step hinst⟩

/-- What it leaves under its tag. -/
def killedTemp : Temp where
  files := [twoFiles]
  linked := true
  staging := some { mode := 0o755, entries := [(["chrome"], .file [] 0o755)] }

/-- Its restart has the same process id, finds what is left of the temporaries, and gets the
archive in two chunks. -/
theorem install_recovers_killedCall :
    ∃ v', (calls twoFilesWorld).run Volume.empty [killedCall] = some v' ∧
      v'.temps ⟨"c43fa283946b8145", 1⟩ = killedTemp ∧
      ∃ n s, (single twoFilesWorld none).run (v', Replica.start "http://h/a" killedCall.expected 1)
          (delivery false 200 "OK" [twoFiles.take 9, twoFiles.drop 9] ++
            List.replicate n (goesOn false)) = some s ∧
        Installs twoFilesWorld v' (Replica.start "http://h/a" killedCall.expected 1)
          wholeInstall.tree twoFiles s := by
  have hrun : (((calls twoFilesWorld).run Volume.empty [killedCall]).map fun v' =>
      (v'.free "c43fa283946b8145", v'.temps ⟨"c43fa283946b8145", 1⟩)) =
      some (true, killedTemp) := by
    decide +kernel
  obtain ⟨v', hv', hleft⟩ := Option.map_eq_some_iff.mp hrun
  have hextract : extractArchive twoFilesWorld false 5 twoFiles = some wholeInstall.tree := by
    decide +kernel
  have hmatch : ∀ h, killedCall.expected = some h → twoFilesWorld.sha256 twoFiles = h := by
    intro h hh
    cases hh
    decide +kernel
  have hchunks : [twoFiles.take 9, twoFiles.drop 9].flatten = twoFiles := by
    decide +kernel
  have hfree : v'.free (installKey twoFilesWorld "http://h/a") = true := by
    have hkey : installKey twoFilesWorld "http://h/a" = "c43fa283946b8145" := by
      decide +kernel
    rw [hkey]
    exact congrArg Prod.fst hleft
  have hsame : ∀ c ∈ [killedCall], installKey twoFilesWorld c.url =
      installKey twoFilesWorld "http://h/a" → c.expected = killedCall.expected := by
    intro c hc _
    rw [List.mem_singleton.mp hc]
  exact ⟨v', hv', congrArg Prod.snd hleft,
    (install_recovers hv' rfl hsame (by decide) hchunks hmatch hextract).1 hfree⟩

end Pinokio.BrowserArchive
