/-
# Pinokio.BrowserArchive.Staging -- what a replica's own temporaries hold

As long as nobody else writes under a replica's tag, the download file holds exactly
the bytes the hasher was fed, and the staging directory is what `extractArchive` has
made so far of those bytes. `Prepared` says this for each place a replica can be;
`ownStep_prepared` is that each of the replica's steps on its temporaries keeps it.
-/
import Pinokio.BrowserArchive

namespace Pinokio.BrowserArchive

/-! ## Pure facts -/

/-- A tree is the complete extraction, permissions fixed, of an archive's bytes. -/
def Complete (W : World) (contents : List UInt8) (t : FileTree) : Prop :=
  ∃ beyond fuel, extractArchive W beyond fuel contents = some t

/-- Every member of the archive has been written to the tree. -/
def Unpacked (W : World) (contents : List UInt8) (t : FileTree) : Prop :=
  ∃ format k, detectFormat contents = .ok format ∧
    ∀ n, unpackFrom W format contents (k + n) 0 (FileTree.empty W.dirMode) = some t

/-- The ways a directory of the staging tree is found to hold `chrome`. -/
theorem locate_inside_inv {isFile : Bool} {dir : Option FileTree} {t : FileTree}
    {root : List String} (h : locate isFile dir t = .ok (.inside root)) :
    t.isFile root "chrome" isFile = true ∧ ∀ dir', locate isFile dir' t = .ok (.inside root) := by
  unfold locate at h ⊢
  split at h
  · rename_i hchrome
    injection h with h
    injection h with h
    subst h
    exact ⟨hchrome, fun _ => if_pos hchrome⟩
  · rename_i hno
    simp only [if_neg hno]
    split at h
    · rename_i single hsingle
      split at h
      · rename_i hdir
        split at h
        · rename_i hchrome
          injection h with h
          injection h with h
          subst h
          exact ⟨hchrome, fun _ => if_pos hchrome⟩
        · cases h
      · split at h
        · split at h
          · cases h
          · cases h
        · cases h
      · cases h
    · cases h

/-- The directory that holds `chrome` has it as an entry. -/
theorem chrome_mem_of_locate {isFile : Bool} {dir : Option FileTree} {t : FileTree}
    {root : List String} (h : locate isFile dir t = .ok (.inside root)) :
    root ++ ["chrome"] ∈ t.paths := by
  exact FileTree.mem_paths_of_isFile (by decide) (by decide) (locate_inside_inv h).1

theorem moved_entries_ne_nil {t : FileTree} {root : List String}
    (h : root ++ ["chrome"] ∈ t.paths) : (moved t (.inside root)).1.entries ≠ [] := by
  cases root with
  | nil =>
      intro hnil
      have hpaths : t.paths = [] := by simpa [FileTree.paths, moved] using hnil
      rw [hpaths] at h
      cases h
  | cons n p => exact FileTree.below_entries_ne_nil h

/-- A round sets one mode, of an entry or through a link. -/
theorem visit_cases {t t' : FileTree} {p : List String} {more : List (List String)}
    (h : visit t p = some (t', more)) :
    (t' = t ∨ ∃ q m, t' = t.setMode q m) ∧
      ∃ node, t.lookup p = some node ∧ more = nextEntries t p node := by
  unfold visit at h
  obtain ⟨node, hnode, h⟩ := Option.bind_eq_some_iff.mp h
  split at h
  · rename_i t₁ hchmod
    obtain ⟨q, rfl⟩ := FileTree.setMode_of_chmod hchmod
    cases h
    refine ⟨Or.inr ⟨q, _, rfl⟩, node, hnode, ?_⟩
    unfold nextEntries
    rw [FileTree.children_setMode]
  · cases h
    exact ⟨Or.inl rfl, node, hnode, rfl⟩
  · cases h

theorem chmodChrome_cases {t t' : FileTree} {root : List String}
    (h : chmodChrome t root = some t') : t' = t ∨ ∃ q m, t' = t.setMode q m := by
  unfold chmodChrome at h
  split at h
  · rename_i t₁ hchmod
    obtain ⟨q, rfl⟩ := FileTree.setMode_of_chmod hchmod
    cases h
    exact Or.inr ⟨q, _, rfl⟩
  · cases h
    exact Or.inl rfl
  · cases h

theorem paths_visit {t t' : FileTree} {p : List String} {more : List (List String)}
    (h : visit t p = some (t', more)) : t'.paths = t.paths := by
  obtain ⟨rfl | ⟨q, m, rfl⟩, -⟩ := visit_cases h
  · rfl
  · exact FileTree.paths_setMode q m

theorem paths_makeWorldReadable {fuel : Nat} {t t' : FileTree} {pending : List (List String)}
    (h : makeWorldReadable fuel t pending = some t') : t'.paths = t.paths := by
  induction fuel generalizing t pending with
  | zero =>
      cases pending with
      | nil =>
          cases h
          rfl
      | cons p pending => cases h
  | succ fuel ih =>
      cases pending with
      | nil =>
          cases h
          rfl
      | cons p pending =>
          obtain ⟨⟨u, more⟩, hvisit, h⟩ := Option.bind_eq_some_iff.mp h
          rw [ih h, paths_visit hvisit]

theorem paths_chmodChrome {t t' : FileTree} {root : List String}
    (h : chmodChrome t root = some t') : t'.paths = t.paths := by
  obtain rfl | ⟨q, m, rfl⟩ := chmodChrome_cases h
  · rfl
  · exact FileTree.paths_setMode q m

/-- A finished extraction, put together from its parts. -/
theorem complete_of_parts {W : World} {contents : List UInt8} {isFile : Bool}
    {dir : Option FileTree} {t₀ t₁ t₂ : FileTree} {root : List String} {m : Nat}
    (hunpacked : Unpacked W contents t₀) (hroot : locate isFile dir t₀ = .ok (.inside root))
    (hfix : ∀ n, makeWorldReadable (m + n) t₀ (t₀.children root) = some t₁)
    (hchrome : chmodChrome t₁ root = some t₂) :
    Complete W contents (moved t₂ (.inside root)).1 := by
  obtain ⟨format, k, hformat, hunpack⟩ := hunpacked
  refine ⟨isFile, k + m, ?_⟩
  have hfix' : makeWorldReadable (k + m) t₀ (t₀.children root) = some t₁ := by
    rw [Nat.add_comm]
    exact hfix k
  have hroot' := (locate_inside_inv hroot).2 none
  simp [extractArchive, hformat, Except.toOption, hunpack m, hroot', hfix', hchrome]

/-- A complete extraction is never an empty directory. -/
theorem Complete.entries_ne_nil {W : World} {contents : List UInt8} {t : FileTree}
    (h : Complete W contents t) : t.entries ≠ [] := by
  obtain ⟨isFile, fuel, h⟩ := h
  simp only [extractArchive, Option.bind_eq_bind, Option.bind_eq_some_iff] at h
  obtain ⟨format, -, t₀, -, h⟩ := h
  split at h
  · rename_i root hroot
    obtain ⟨t₁, hfix, h⟩ := Option.bind_eq_some_iff.mp h
    obtain ⟨t₂, hchrome, h⟩ := Option.bind_eq_some_iff.mp h
    injection h with h
    rw [← h]
    refine moved_entries_ne_nil ?_
    rw [paths_chmodChrome hchrome, paths_makeWorldReadable hfix]
    exact chrome_mem_of_locate hroot
  · cases h

theorem unpackFrom_mono {W : World} {format : ArchiveFormat} {contents : List UInt8}
    {fuel k : Nat} {t u : FileTree} (h : unpackFrom W format contents fuel k t = some u) (n : Nat) :
    unpackFrom W format contents (fuel + n) k t = some u := by
  induction fuel generalizing k t with
  | zero => cases h
  | succ fuel ih =>
      have hnext : fuel + 1 + n = fuel + n + 1 := by omega
      rw [hnext]
      unfold unpackFrom at h ⊢
      split at h
      · exact h
      · cases h
      · exact ih h

theorem makeWorldReadable_mono {fuel : Nat} {t u : FileTree} {pending : List (List String)}
    (h : makeWorldReadable fuel t pending = some u) (n : Nat) :
    makeWorldReadable (fuel + n) t pending = some u := by
  induction fuel generalizing t pending with
  | zero =>
      cases pending with
      | nil =>
          cases h
          cases n with
          | zero => rfl
          | succ n => rfl
      | cons p pending => cases h
  | succ fuel ih =>
      have hnext : fuel + 1 + n = fuel + n + 1 := by omega
      rw [hnext]
      cases pending with
      | nil => exact h
      | cons p pending =>
          obtain ⟨q, hq, h⟩ := Option.bind_eq_some_iff.mp h
          rw [makeWorldReadable, hq]
          exact ih h

theorem extractArchive_mono {W : World} {beyond : Bool} {fuel : Nat} {contents : List UInt8}
    {t : FileTree} (h : extractArchive W beyond fuel contents = some t) (n : Nat) :
    extractArchive W beyond (fuel + n) contents = some t := by
  simp only [extractArchive, Option.bind_eq_bind, Option.bind_eq_some_iff] at h ⊢
  obtain ⟨format, hformat, t₀, hunpack, h⟩ := h
  refine ⟨format, hformat, t₀, unpackFrom_mono hunpack n, ?_⟩
  split at h
  · obtain ⟨t₁, hfix, h⟩ := Option.bind_eq_some_iff.mp h
    exact Option.bind_eq_some_iff.mpr ⟨t₁, makeWorldReadable_mono hfix n, h⟩
  · cases h

/-- What an archive extracts to depends on its bytes and on the links out of it only. -/
theorem extractArchive_unique {W : World} {beyond : Bool} {m n : Nat} {contents : List UInt8}
    {t u : FileTree} (h : extractArchive W beyond m contents = some t)
    (h' : extractArchive W beyond n contents = some u) : t = u := by
  have hm := extractArchive_mono h n
  have hn := extractArchive_mono h' m
  rw [Nat.add_comm] at hn
  exact Option.some.inj (hm.symm.trans hn)

/-! ## The download file -/

theorem writeAt_end (c data : List UInt8) : writeAt c c.length data = c ++ data := by
  simp [writeAt]

/-- The download file is there under its name and holds these bytes. -/
def Holds (T : Temp) (contents : List UInt8) : Prop :=
  T.linked = true ∧ T.files.getLast? = some contents

theorem Holds.download {T : Temp} {c : List UInt8} (h : Holds T c) : T.download = some c := by
  rw [Temp.download, if_pos h.1, h.2]

theorem Holds.opened {T : Temp} {c : List UInt8} (h : Holds T c) :
    T.files.getD (T.files.length - 1) [] = c := by
  have hlast : T.files[T.files.length - 1]? = some c := by
    rw [← List.getLast?_eq_getElem?]
    exact h.2
  rw [List.getD_eq_getElem?_getD, hlast]
  rfl

/-- A chunk written to the open file goes to its end. -/
theorem Holds.chunk {T : Temp} {c : List UInt8} (h : Holds T c) (data : List UInt8) :
    Holds { T with files := T.files.modify (T.files.length - 1) fun x => writeAt x c.length data }
      (c ++ data) := by
  refine ⟨h.1, ?_⟩
  show (T.files.modify (T.files.length - 1) _).getLast? = _
  have hlast : T.files[T.files.length - 1]? = some c := by
    rw [← List.getLast?_eq_getElem?]
    exact h.2
  rw [List.getLast?_eq_getElem?, List.length_modify, List.getElem?_modify_eq, hlast]
  show some (writeAt c c.length data) = _
  rw [writeAt_end]

/-! ## The replica's place and its temporaries -/

/-- The first `k` members are written to `t`, and what remains to do is what the whole
extraction has left to do. -/
structure Unpacking (W : World) (contents : List UInt8) (format : ArchiveFormat) (k : Nat)
    (t : FileTree) : Prop where
  detected : detectFormat contents = .ok format
  rest : ∀ n, unpackFrom W format contents (k + n) 0 (FileTree.empty W.dirMode) =
    unpackFrom W format contents n k t

/-- The permission pass on an unpacked tree, some entries still to visit. -/
def Passing (W : World) (contents : List UInt8) (root : List String) (t : FileTree)
    (pending : List (List String)) : Prop :=
  ∃ t₀ isFile dir m, Unpacked W contents t₀ ∧ locate isFile dir t₀ = .ok (.inside root) ∧
    ∀ n, makeWorldReadable (m + n) t₀ (t₀.children root) = makeWorldReadable n t pending

section

variable {W : World} {contents : List UInt8} {format : ArchiveFormat} {k : Nat}
  {t t' : FileTree} {root : List String}

theorem Unpacking.start (h : detectFormat contents = .ok format) :
    Unpacking W contents format 0 (FileTree.empty W.dirMode) := by
  refine ⟨h, ?_⟩
  intro n
  rw [Nat.zero_add]

theorem Unpacking.write (h : Unpacking W contents format k t)
    (hmember : W.member format contents k (some t) = .written t') :
    Unpacking W contents format (k + 1) t' := by
  refine ⟨h.detected, ?_⟩
  intro n
  have hnext : k + 1 + n = k + (n + 1) := by omega
  rw [hnext, h.rest, unpackFrom, hmember]

theorem Unpacking.finish (h : Unpacking W contents format k t)
    (hmember : W.member format contents k (some t) = .finished) : Unpacked W contents t := by
  refine ⟨format, k + 1, h.detected, ?_⟩
  intro n
  have hnext : k + 1 + n = k + (n + 1) := by omega
  rw [hnext, h.rest, unpackFrom, hmember]

theorem Passing.start {isFile : Bool} {dir : Option FileTree} (h : Unpacked W contents t)
    (hroot : locate isFile dir t = .ok (.inside root)) :
    Passing W contents root t (t.children root) := by
  refine ⟨t, isFile, dir, 0, h, hroot, ?_⟩
  intro n
  rw [Nat.zero_add]

theorem Passing.visit {p : List String} {pending more : List (List String)}
    (h : Passing W contents root t (p :: pending)) (hvisit : visit t p = some (t', more)) :
    Passing W contents root t' (more ++ pending) := by
  obtain ⟨t₀, isFile, dir, m, hunpacked, hroot, hrest⟩ := h
  refine ⟨t₀, isFile, dir, m + 1, hunpacked, hroot, ?_⟩
  intro n
  have hnext : m + 1 + n = m + (n + 1) := by omega
  rw [hnext, hrest, makeWorldReadable, hvisit]
  rfl

theorem Passing.finish (h : Passing W contents root t [])
    (hchrome : chmodChrome t root = some t') : Complete W contents (moved t' (.inside root)).1 := by
  obtain ⟨t₀, isFile, dir, m, hunpacked, hroot, hrest⟩ := h
  have hdone : ∀ n, makeWorldReadable (m + n) t₀ (t₀.children root) = some t := by
    intro n
    rw [hrest]
    -- With nothing left to visit, any fuel is enough.
    cases n with
    | zero => rfl
    | succ n => rfl
  exact complete_of_parts hunpacked hroot hdone hchrome

end

/-- What the temporaries hold where the replica is. -/
def Prepared (W : World) (T : Temp) (r : Replica) : Prop :=
  match r.phase with
  | .stream handle => Holds T r.hashed ∧ handle = T.files.length - 1
  | .verify actual => Holds T r.hashed ∧ actual = W.sha256 r.hashed
  | .clearStaging => Holds T r.hashed
  | .createStaging => Holds T r.hashed ∧ T.staging = none
  | .detect => Holds T r.hashed ∧ T.staging = some (FileTree.empty W.dirMode)
  | .openArchive format =>
    Holds T r.hashed ∧ T.staging = some (FileTree.empty W.dirMode) ∧
      detectFormat r.hashed = .ok format
  | .unpack format handle k =>
    Holds T r.hashed ∧ handle = T.files.length - 1 ∧
      ∃ t, T.staging = some t ∧ Unpacking W r.hashed format k t
  | .locate => ∃ t, T.staging = some t ∧ Unpacked W r.hashed t
  | .fix root pending => ∃ t, T.staging = some t ∧ Passing W r.hashed root t pending
  | .fixChrome root => ∃ t, T.staging = some t ∧ Passing W r.hashed root t []
  | .fixAstray _ => False
  | .rename (.inside root) =>
    ∃ t, T.staging = some t ∧ Complete W r.hashed (moved t (.inside root)).1
  | .rename (.astray _) => False
  | _ => True

/-- From the first request on until the cleanup is over: while the call uses its temporaries. -/
def Replica.working (r : Replica) : Bool :=
  match r.phase with
  | .check | .createRoot | .buildClient | .finished _ | .killed => false
  | _ => true

theorem prepared_of_idle {W : World} {T : Temp} {r : Replica} (h : r.working = false) :
    Prepared W T r := by
  unfold Replica.working at h
  unfold Prepared
  split at h <;> simp_all

section

variable {W : World} {T T' : Temp} {r r' : Replica} {a : ReplicaAction}

theorem downloadStep_prepared (hP : Prepared W T r) (h : downloadStep W T r a = some (T', r')) :
    Prepared W T' r' := by
  cases a with
  | fails e =>
      simp only [downloadStep] at h
      split at h
      all_goals cases h
      all_goals trivial
  | respond status reason =>
      simp only [downloadStep] at h
      split at h
      · split at h
        all_goals cases h
        all_goals trivial
      · cases h
  | chunk data =>
      simp only [downloadStep] at h
      split at h
      · rename_i handle hp
        simp only [Prepared, hp] at hP
        cases h
        obtain ⟨hholds, rfl⟩ := hP
        simp only [Prepared, hp, List.length_modify, and_true]
        exact hholds.chunk data
      · cases h
  | writeFails e =>
      simp only [downloadStep] at h
      split at h
      · cases h
        trivial
      · cases h
  | go b =>
      simp only [downloadStep] at h
      split at h
      · cases h
        -- created or truncated, the file is empty and so is the hasher
        refine ⟨⟨rfl, ?_⟩, rfl⟩
        show (if T.linked = true then T.files.dropLast ++ [[]] else T.files ++ [[]]).getLast? = _
        split
        · exact List.getLast?_concat
        · exact List.getLast?_concat
      · rename_i handle hp
        simp only [Prepared, hp] at hP
        cases h
        exact ⟨hP.1, rfl⟩
      · cases h
  | kill => cases h

/-- The directory that holds `chrome` is looked for, and it is one outside the tree. -/
def GoesAstray (T : Temp) (r : Replica) (b : Beyond) : Prop :=
  r.phase = .locate ∧ ∃ t seen, T.staging = some t ∧ locate b.isFile b.dir t = .ok (.astray seen)

theorem extractStep_prepared (hP : Prepared W T r) (hstay : ∀ b, a = .go b → ¬ GoesAstray T r b)
    (h : extractStep W T r a = some (T', r')) : Prepared W T' r' := by
  cases a with
  | fails e =>
      simp only [extractStep] at h
      split at h
      · split at h
        all_goals cases h
        trivial
      all_goals cases h
      all_goals trivial
  | go b =>
      simp only [extractStep] at h
      split at h
      · rename_i hp
        simp only [Prepared, hp] at hP
        cases h
        exact ⟨hP, rfl⟩
      · rename_i hp
        simp only [Prepared, hp] at hP
        cases h
        refine ⟨hP.1, ?_⟩
        show some (T.staging.getD _) = _
        rw [hP.2]
        rfl
      · rename_i hp
        simp only [Prepared, hp] at hP
        simp only [hP.1.download, Option.map_some, Option.some.injEq] at h
        split at h
        · rename_i format hformat
          cases h
          exact ⟨hP.1, hP.2, hformat⟩
        · cases h
          trivial
      · rename_i format hp
        simp only [Prepared, hp] at hP
        split at h
        · cases h
          exact ⟨hP.1, rfl, _, hP.2.1, .start hP.2.2⟩
        · cases h
      · -- One member is written to what the members before it made of the directory.
        rename_i format handle k hp
        simp only [Prepared, hp] at hP
        obtain ⟨hholds, rfl, t, ht, hunpack⟩ := hP
        rw [hholds.opened, ht] at h
        split at h
        -- the last member was the one before
        · rename_i hmember
          cases h
          exact ⟨t, ht, hunpack.finish hmember⟩
        · cases h
          trivial
        · rename_i dest hmember
          cases h
          exact ⟨hholds, rfl, dest, rfl, hunpack.write hmember⟩
      · rename_i hp
        have hno := hstay b rfl
        simp only [Prepared, hp] at hP
        obtain ⟨t, ht, hunpacked⟩ := hP
        simp only [ht, Option.map_some, Option.some.injEq] at h
        split at h
        · rename_i root hroot
          cases h
          exact ⟨t, ht, .start hunpacked hroot⟩
        · rename_i seen hseen
          exact absurd ⟨hp, t, seen, ht, hseen⟩ hno
        · cases h
          trivial
      · rename_i root hp
        simp only [Prepared, hp] at hP
        cases h
        exact hP
      · rename_i root p pending hp
        simp only [Prepared, hp] at hP
        obtain ⟨t, ht, hpass⟩ := hP
        simp only [ht, Option.bind_some] at h
        split at h
        · obtain ⟨q, hq, h⟩ := Option.map_eq_some_iff.mp h
          cases h
          exact ⟨q.1, rfl, hpass.visit hq⟩
        · cases h
      · rename_i root hp
        simp only [Prepared, hp] at hP
        obtain ⟨t, ht, hpass⟩ := hP
        simp only [ht, Option.bind_some] at h
        split at h
        · obtain ⟨t', hchrome, h⟩ := Option.map_eq_some_iff.mp h
          cases h
          exact ⟨t', rfl, hpass.finish hchrome⟩
        · cases h
      · rename_i seen hp
        simp only [Prepared, hp] at hP
      · cases h
  | respond status reason => cases h
  | chunk data => cases h
  | writeFails e => cases h
  | kill => cases h

theorem cleanupStep_prepared (h : cleanupStep T r a = some (T', r')) : Prepared W T' r' := by
  unfold cleanupStep at h
  split at h
  · split at h
    all_goals cases h
    all_goals trivial
  · split at h
    all_goals cases h
    all_goals trivial
  · cases h

/-- A replica's step on its own temporaries keeps them in order. -/
theorem ownStep_prepared (hP : Prepared W T r) (hstay : ∀ b, a = .go b → ¬ GoesAstray T r b)
    (h : ownStep W T r a = some (T', r')) : Prepared W T' r' := by
  unfold ownStep at h
  split at h
  all_goals first
    | exact downloadStep_prepared hP h
    | exact extractStep_prepared hP hstay h
    | exact cleanupStep_prepared h
    | cases h

end

end Pinokio.BrowserArchive
