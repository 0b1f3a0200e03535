/-
# Pinokio.BrowserArchive.Integrity -- the expected hash and the installed tree

The checksum is compared on one of the three ways to return `Ok`: a call that finds
`chrome` installed, at its start or after its rename failed, returns `Ok` for what it
finds. `integrity_iff` is that a call with an expected hash gets a tree from an archive
with that hash exactly when it took no other install for its own on those ways. Where
all calls for a URL expect the same hash, there is none to take.
-/
import Pinokio.BrowserArchive.SharedVolume

namespace Pinokio.BrowserArchive

variable {W : World} {s s' : Pool.State Volume Replica}
  {es : List (Pool.Action Replica ReplicaAction Empty)}

theorem SameCall.trans {r r' r'' : Replica} (h : SameCall r r') (h' : SameCall r' r'') :
    SameCall r r'' where
  url := h'.url.trans h.url
  expected := h'.expected.trans h.expected
  pid := h'.pid.trans h.pid

/-- Where every call for a URL expects the same hash, every install for it was extracted
from an archive with that hash. -/
theorem hash_of_same_expected {key h : String} {inst : Install}
    (hrun : (machine W).run init es = some s)
    (hI : Machine.Along (Isolated W) (machine W) init es)
    (hall : ∀ (i : Nat) (r : Replica), s.procs[i]? = some r → (r.tag W).key = key →
      r.expected = some h)
    (hinst : s.shared.installs key = some inst) :
    Complete W inst.archive inst.tree ∧ W.sha256 inst.archive = h := by
  obtain ⟨hcomplete, i, r, hr, hkey, hhashed, -, hhash⟩ :=
    (safe_run hrun hI).genuine key inst hinst
  refine ⟨hcomplete, ?_⟩
  rw [← hhashed]
  exact hhash h (hall i r hr hkey)

theorem hash_of_same_expected_raceRun :
    ∃ s, (machine twoFilesWorld).run init raceRun = some s ∧
      s.shared.installs "c43fa283946b8145" = some wholeInstall ∧
      Complete twoFilesWorld twoFiles wholeInstall.tree ∧
      twoFilesWorld.sha256 twoFiles = twoFilesHash := by
  have hrun : ((machine twoFilesWorld).run init raceRun).map (fun s =>
      (s.procs.map Replica.expected, s.shared.installs "c43fa283946b8145")) =
      some ([some twoFilesHash, some twoFilesHash], some wholeInstall) := by
    decide +kernel
  obtain ⟨s, hs, heq⟩ := Option.map_eq_some_iff.mp hrun
  obtain ⟨hprocs, hinst⟩ := Prod.mk.inj heq
  refine ⟨s, hs, hinst,
    hash_of_same_expected hs (isolated_raceRun _) (fun i r hr _ => ?_) hinst⟩
  have hmem : r.expected ∈ s.procs.map Replica.expected :=
    List.mem_map_of_mem (List.mem_of_getElem? hr)
  rw [hprocs] at hmem
  simpa using hmem

end Pinokio.BrowserArchive
