/-
# Pinokio.BrowserArchive -- installing a browser archive (`browser_archive.rs`)

`extractArchive` is what unpacking an archive and fixing its permissions makes of
the archive's bytes. `machine` is any number of replicas running
`ensure_installed` over one install root: each replica goes through
`ensure_installed`, `install`, `download_to_file` and `extract_archive` one file
system or network step at a time, may be killed between two of them, and keeps
its temporaries under names that only its archive URL and its process id decide.

Hashing, and what the archive libraries write for one member of an archive, are
parameters. A link that leaves its tree leads wherever the rest of the file system
has it lead: the step that follows it takes what is found there as an argument.
-/
import Pinokio.Lib.FileTree
import Pinokio.Lib.Pool

namespace Pinokio.BrowserArchive

/-! ## Errors and formats -/

inductive InstallError where
  | download (reason : String)
  | checksum (expected actual : String)
  | archive (reason : String)
  | io (reason : String)
  deriving DecidableEq, Repr

def InstallError.message : InstallError → String
  | download reason => s!"download failed: {reason}"
  | checksum expected actual =>
    s!"archive checksum mismatch: expected {expected}, got {actual}"
  | archive reason => s!"archive extraction failed: {reason}"
  | io reason => s!"io error: {reason}"

inductive ArchiveFormat where
  | tarGz
  | zip
  deriving DecidableEq, Repr

/-- Sniffs the archive format from its magic bytes. -/
def detectFormat (contents : List UInt8) : Except InstallError ArchiveFormat :=
  match contents.take 4 with
  | 0x1f :: 0x8b :: _ => .ok .tarGz
  | [0x50, 0x4b, 0x03, 0x04] => .ok .zip
  | [0x50, 0x4b, 0x05, 0x06] => .ok .zip
  | _ => .error (.archive
      "unrecognized archive format, expected a .tar.gz or .zip file")

/-! ## Extraction -/

/-- What the archive library does at the next member of an archive. -/
inductive Member where
  | finished
  | failed (reason : String) (dest : Option FileTree)
  | written (dest : FileTree)
  deriving DecidableEq

/-- What the code takes from elsewhere: SHA-256 as lower-case hex, the mode a new
directory gets, and what unpacking member `k` of an archive does to the
destination, of which nothing outside is written. -/
structure World where
  sha256 : List UInt8 → String
  dirMode : Nat
  member : ArchiveFormat → List UInt8 → Nat → Option FileTree → Member

/-- The directory that holds `chrome`. -/
inductive Root where
  /-- A directory of the staging tree. -/
  | inside (path : List String)
  /-- What the only entry, a link out of the tree, leads to. -/
  | astray (seen : FileTree)
  deriving DecidableEq

def noChrome : InstallError := .archive
  "no chrome executable found at the archive root or in its single top-level directory"

/-- The staging directory itself when it has `chrome`, else its single entry when that
is a directory that has it. A link out of the tree leads to a regular file when `isFile`
holds and to the directory `dir` when there is one. -/
def locate (isFile : Bool) (dir : Option FileTree) (t : FileTree) : Except InstallError Root :=
  if t.isFile [] "chrome" isFile then .ok (.inside [])
  else
    match t.children [] with
    | [single] =>
      match t.lookup single with
      | some (.dir _) =>
        if t.isFile single "chrome" isFile then .ok (.inside single) else .error noChrome
      | some (.link _) =>
        -- Within the tree the link can only lead back to the directory just searched.
        match t.resolve [] (single.getLastD ""), dir with
        | .outside, some seen =>
          if seen.isFile [] "chrome" isFile then .ok (.astray seen) else .error noChrome
        | _, _ => .error noChrome
      | _ => .error noChrome
    | _ => .error noChrome

/-- What `rename` moves away and what it leaves of the staging directory. -/
def moved (t : FileTree) : Root → FileTree × Option FileTree
  | .inside [] => (t, none)
  | .inside (n :: p) => (t.below (n :: p), some (t.without (n :: p)))
  | .astray seen => (seen, some (FileTree.empty t.mode))

/-- The mode `make_world_readable` gives an entry, from what `lstat` says of it. -/
def readableMode (node : FileNode) : Nat :=
  let mode := node.mode ||| 0o444
  if node.isDir || decide (mode &&& 0o111 ≠ 0) then mode ||| 0o111 else mode

/-- The entries to visit after `p`. -/
def nextEntries (t : FileTree) (p : List String) (node : FileNode) : List (List String) :=
  if node.isDir then t.children p else []

/-- One round of the loop of `make_world_readable`: the entry's mode is set, through the
entry if it is a link, and a directory's entries come next. -/
def visit (t : FileTree) (p : List String) : Option (FileTree × List (List String)) :=
  (t.lookup p).bind fun node =>
    match t.chmod p.dropLast (p.getLastD "") (readableMode node) with
    | .changed t' => some (t', nextEntries t' p node)
    | .outside => some (t, nextEntries t p node)
    | .failed => none

/-- `make_world_readable` on the entries still to visit, those of the innermost
directory first. -/
def makeWorldReadable : Nat → FileTree → List (List String) → Option FileTree
  | _, t, [] => some t
  | 0, _, _ :: _ => none
  | fuel + 1, t, p :: pending =>
    (visit t p).bind fun r => makeWorldReadable fuel r.1 (r.2 ++ pending)

/-- `chrome` itself gets mode 0755. -/
def chmodChrome (t : FileTree) (root : List String) : Option FileTree :=
  match t.chmod root "chrome" 0o755 with
  | .changed t' => some t'
  | .outside => some t
  | .failed => none

section

variable (W : World)

/-- The members of an archive from the `k`-th on, written to a destination. -/
def unpackFrom (format : ArchiveFormat) (contents : List UInt8) :
    Nat → Nat → FileTree → Option FileTree
  | 0, _, _ => none
  | fuel + 1, k, dest =>
    match W.member format contents k (some dest) with
    | .finished => some dest
    | .failed _ _ => none
    | .written dest' => unpackFrom format contents fuel (k + 1) dest'

/-- `extract_archive` on an archive with the given bytes, with nobody else in the staging
directory: the tree at the directory it returns. -/
def extractArchive (beyond : Bool) (fuel : Nat) (contents : List UInt8) : Option FileTree := do
  let format ← (detectFormat contents).toOption
  let t ← unpackFrom W format contents fuel 0 (FileTree.empty W.dirMode)
  match locate beyond none t with
  | .ok (.inside root) =>
    let t ← makeWorldReadable fuel t (t.children root)
    let t ← chmodChrome t root
    some (moved t (.inside root)).1
  | _ => none

end

/-! ## The install root -/

/-- What names the temporaries `.download-{key}-{pid}.archive` and `.staging-{key}-{pid}`. -/
structure Tag where
  key : String
  pid : Nat
  deriving DecidableEq, Repr

/-- A path in one of the trees on the volume. -/
inductive Spot where
  | installed (key : String) (path : List String)
  | staged (tag : Tag) (path : List String)
  deriving DecidableEq

/-- What a link out of a tree leads to: whether anything is there, whether it is a
regular file, what it holds when it is a directory, and which path of a tree on the
install volume it is when it is one. -/
structure Beyond where
  present : Bool
  isFile : Bool
  dir : Option FileTree
  spot : Option Spot
  deriving DecidableEq

/-- The two temporaries of a tag: the files that were created under the download name,
the last of which still has that name while `linked`, and the staging directory. -/
structure Temp where
  files : List (List UInt8)
  linked : Bool
  staging : Option FileTree
  deriving DecidableEq

def Temp.none : Temp := ⟨[], false, Option.none⟩

/-- What opening the download file reads. -/
def Temp.download (T : Temp) : Option (List UInt8) :=
  if T.linked then T.files.getLast? else Option.none

/-- An install directory. `archive` is history: the bytes that the replica which put the
directory there had downloaded and hashed. -/
structure Install where
  tree : FileTree
  archive : List UInt8
  deriving DecidableEq

structure Volume where
  temps : Tag → Temp
  installs : String → Option Install

def Volume.empty : Volume := ⟨fun _ => Temp.none, fun _ => none⟩

def Volume.setTemp (v : Volume) (tag : Tag) (T : Temp) : Volume :=
  { v with temps := Function.update v.temps tag T }

def Volume.setInstall (v : Volume) (key : String) (inst : Option Install) : Volume :=
  { v with installs := Function.update v.installs key inst }

section

variable (v : Volume) (tag : Tag) (T : Temp) (key : String) (inst : Option Install)

@[simp] theorem Volume.setTemp_temps_self : (v.setTemp tag T).temps tag = T := by
  simp [Volume.setTemp]

theorem Volume.setTemp_temps_ne {tag' : Tag} (h : tag' ≠ tag) :
    (v.setTemp tag T).temps tag' = v.temps tag' := by
  simp [Volume.setTemp, h]

@[simp] theorem Volume.setTemp_installs : (v.setTemp tag T).installs = v.installs := rfl

@[simp] theorem Volume.setInstall_temps : (v.setInstall key inst).temps = v.temps := rfl

@[simp] theorem Volume.setInstall_installs_self :
    (v.setInstall key inst).installs key = inst := by
  simp [Volume.setInstall]

theorem Volume.setInstall_installs_ne {key' : String} (h : key' ≠ key) :
    (v.setInstall key inst).installs key' = v.installs key' := by
  simp [Volume.setInstall, h]

end

/-- A mode is set through a link into some tree of the volume. -/
def Volume.chmodAt (v : Volume) (m : Nat) : Spot → Volume
  | .installed key p =>
    v.setInstall key ((v.installs key).map fun inst => { inst with tree := inst.tree.setMode p m })
  | .staged tag p =>
    v.setTemp tag { v.temps tag with staging := (v.temps tag).staging.map (·.setMode p m) }

/-! ## A replica -/

/-- Where a replica is. -/
inductive Phase where
  -- `ensure_installed`
  | check
  | createRoot
  | buildClient
  -- `download_to_file`
  | send
  | createFile
  | stream (handle : Nat)
  -- `install`
  | verify (actual : String)
  -- `extract_archive`
  | clearStaging
  | createStaging
  | detect
  | openArchive (format : ArchiveFormat)
  | unpack (format : ArchiveFormat) (handle next : Nat)
  | locate
  | fix (root : List String) (pending : List (List String))
  | fixChrome (root : List String)
  | fixAstray (seen : FileTree)
  -- `install` again
  | rename (root : Root)
  | recheck (error : String)
  -- `ensure_installed` again
  | removeFile (result : Except InstallError Unit)
  | removeStaging (result : Except InstallError Unit)
  | finished (result : Except InstallError Unit)
  | killed
  deriving DecidableEq

/-- One call of `ensure_installed`. `hashed` is what the hasher has been fed; `verified`
is set once the checksum test let the call go on. -/
structure Replica where
  url : String
  expected : Option String
  pid : Nat
  phase : Phase
  hashed : List UInt8
  verified : Bool
  deriving DecidableEq

/-- How a call of `ensure_installed` starts. -/
def Replica.start (url : String) (expected : Option String) (pid : Nat) : Replica :=
  { url, expected, pid, phase := .check, hashed := [], verified := false }

/-- What happens at a replica's step: it goes on, the call under way fails, the server
answers, a chunk arrives, a write fails, or the process is killed. -/
inductive ReplicaAction where
  | go (beyond : Beyond)
  | fails (error : String)
  | respond (status : Nat) (reason : String)
  | chunk (data : List UInt8)
  | writeFails (error : String)
  | kill
  deriving DecidableEq

/-- Bytes written to a file at an offset; a gap before it reads as zeros. -/
def writeAt (contents : List UInt8) (offset : Nat) (data : List UInt8) : List UInt8 :=
  contents.take offset ++ List.replicate (offset - contents.length) 0 ++ data ++
    contents.drop (offset + data.length)

def Replica.goto (r : Replica) (phase : Phase) : Replica := { r with phase }

/-- The call ends with an error, after the cleanup. -/
def Replica.abort (r : Replica) (e : InstallError) : Replica := r.goto (.removeFile (.error e))

section

variable (W : World)

/-- Install directory name: a prefix of the URL's SHA-256. -/
def installKey (url : String) : String :=
  ((W.sha256 url.toUTF8.data.toList).take 16).toString

def Replica.tag (r : Replica) : Tag := { key := installKey W r.url, pid := r.pid }

/-- `download_to_file`. -/
def downloadStep (T : Temp) (r : Replica) : ReplicaAction → Option (Temp × Replica)
  | .fails e =>
    match r.phase with
    | .send => some (T, r.abort (.download e))
    | .createFile => some (T, r.abort (.io e))
    | .stream _ => some (T, r.abort (.download e))
    | _ => none
  | .respond status reason =>
    match r.phase with
    | .send =>
      if 200 ≤ status ∧ status < 300 then some (T, r.goto .createFile)
      else some (T, r.abort (.download s!"HTTP {status} {reason}"))
    | _ => none
  | .chunk data =>
    match r.phase with
    | .stream handle =>
      some ({ T with files := T.files.modify handle fun c => writeAt c r.hashed.length data },
        { r with hashed := r.hashed ++ data })
    | _ => none
  | .writeFails e =>
    match r.phase with
    | .stream _ => some (T, r.abort (.io e))
    | _ => none
  | .go _ =>
    match r.phase with
    -- An existing file of that name is truncated, not replaced.
    | .createFile =>
      let files := if T.linked then T.files.dropLast ++ [[]] else T.files ++ [[]]
      some ({ T with files, linked := true }, { r with
        phase := .stream (files.length - 1), hashed := [] })
    | .stream _ => some (T, r.goto (.verify (W.sha256 r.hashed)))
    | _ => none
  | .kill => none

/-- The comparison with the expected hash in `install`. -/
def verifyStep (r : Replica) (actual : String) : Replica :=
  match r.expected with
  | some expected =>
    if expected ≠ actual then r.abort (.checksum expected actual)
    else { r with phase := .clearStaging, verified := true }
  | none => { r with phase := .clearStaging, verified := true }

/-- Whether a chmod through a link out of the tree can go on. -/
def passes (b : Beyond) : FileTree.Chmod → Bool
  | .outside => b.present
  | _ => true

/-- The change of mode under way in the permission pass. -/
def chmodNow (t : FileTree) : Phase → FileTree.Chmod
  | .fix _ (p :: _) =>
    match t.lookup p with
    | some node => t.chmod p.dropLast (p.getLastD "") (readableMode node)
    | none => .failed
  | .fixChrome root => t.chmod root "chrome" 0o755
  | _ => .failed

/-- `extract_archive`. -/
def extractStep (T : Temp) (r : Replica) : ReplicaAction → Option (Temp × Replica)
  | .fails e =>
    match r.phase with
    | .clearStaging => if T.staging.isSome then some (T, r.abort (.io e)) else none
    | .createStaging | .detect | .openArchive _ | .locate | .fix _ _ | .fixChrome _
    | .fixAstray _ => some (T, r.abort (.io e))
    | .unpack _ _ _ => some (T, r.abort (.archive e))
    | _ => none
  | .go b =>
    match r.phase with
    | .clearStaging => some ({ T with staging := none }, r.goto .createStaging)
    | .createStaging =>
      some ({ T with staging := some (T.staging.getD (FileTree.empty W.dirMode)) }, r.goto .detect)
    | .detect =>
      T.download.map fun contents =>
        match detectFormat contents with
        | .ok format => (T, r.goto (.openArchive format))
        | .error e => (T, r.abort e)
    | .openArchive format =>
      if T.linked then some (T, r.goto (.unpack format (T.files.length - 1) 0)) else none
    | .unpack format handle k =>
      match W.member format (T.files.getD handle []) k T.staging with
      | .finished => some (T, r.goto .locate)
      | .failed reason dest => some ({ T with staging := dest }, r.abort (.archive reason))
      | .written dest =>
        some ({ T with staging := some dest }, r.goto (.unpack format handle (k + 1)))
    | .locate =>
      T.staging.map fun t =>
        match locate b.isFile b.dir t with
        | .ok (.inside root) => (T, r.goto (.fix root (t.children root)))
        | .ok (.astray seen) => (T, r.goto (.fixAstray seen))
        | .error e => (T, r.abort e)
    | .fix root [] => some (T, r.goto (.fixChrome root))
    | .fix root (p :: pending) =>
      T.staging.bind fun t =>
        if passes b (chmodNow t r.phase) then
          (visit t p).map fun q =>
            ({ T with staging := some q.1 }, r.goto (.fix root (q.2 ++ pending)))
        else none
    | .fixChrome root =>
      T.staging.bind fun t =>
        if passes b (chmodNow t r.phase) then
          (chmodChrome t root).map fun t' =>
            ({ T with staging := some t' }, r.goto (.rename (.inside root)))
        else none
    | .fixAstray seen =>
      -- Each entry the link leads to may be another path of the volume.
      if b.spot.isSome then some (T, r) else some (T, r.goto (.rename (.astray seen)))
    | _ => none
  | _ => none

/-- The cleanup in `ensure_installed`, whatever the outcome. -/
def cleanupStep (T : Temp) (r : Replica) : ReplicaAction → Option (Temp × Replica)
  | .go _ =>
    match r.phase with
    | .removeFile result => some ({ T with linked := false }, r.goto (.removeStaging result))
    | .removeStaging result => some ({ T with staging := none }, r.goto (.finished result))
    | _ => none
  | .fails _ =>
    match r.phase with
    | .removeFile result => some (T, r.goto (.removeStaging result))
    | .removeStaging result => some (T, r.goto (.finished result))
    | _ => none
  | _ => none

/-- `binary.is_file()`. -/
def binaryIsFile (v : Volume) (r : Replica) (b : Beyond) : Bool :=
  (v.installs (r.tag W).key).any fun inst => inst.tree.isFile [] "chrome" b.isFile

/-- Nothing is at the install path, or an empty directory. -/
def Volume.free (v : Volume) (key : String) : Bool :=
  match v.installs key with
  | none => true
  | some inst => inst.tree.entries.isEmpty

/-- The directory to rename is still there. -/
def isThere (t : FileTree) : Root → Bool
  | .inside p => (t.lookup p).any FileNode.isDir
  | .astray _ => true

/-- The rename of the extracted directory to the install directory. It fails when there is
a directory with anything in it already. -/
def renameStep (v : Volume) (r : Replica) (root : Root) : Option (Volume × Replica) :=
  (v.temps (r.tag W)).staging.bind fun t =>
    if v.free (r.tag W).key && isThere t root then
      let inst : Install := { tree := (moved t root).1, archive := r.hashed }
      let T := { v.temps (r.tag W) with staging := (moved t root).2 }
      some ((v.setInstall (r.tag W).key (some inst)).setTemp (r.tag W) T,
        r.goto (.removeFile (.ok ())))
    else none

/-- The link a step follows out of the staging tree to another path of the volume. -/
def strayAt (v : Volume) (r : Replica) (b : Beyond) : Option Spot :=
  match r.phase, (v.temps (r.tag W)).staging with
  | .fixAstray _, _ => b.spot
  | phase, some t => if chmodNow t phase = .outside then b.spot else none
  | _, none => none

/-- The volume after the mode a step sets through a link out of its tree. -/
def stray (v v' : Volume) (r : Replica) : ReplicaAction → Volume
  | .go b =>
    match strayAt W v r b with
    | some spot => v'.chmodAt 0o777 spot
    | none => v'
  | _ => v'

/-- A step that concerns the replica's own temporaries only. -/
def ownStep (T : Temp) (r : Replica) (a : ReplicaAction) : Option (Temp × Replica) :=
  match r.phase with
  | .send | .createFile | .stream _ => downloadStep W T r a
  | .clearStaging | .createStaging | .detect | .openArchive _ | .unpack _ _ _ | .locate
  | .fix _ _ | .fixChrome _ | .fixAstray _ => extractStep W T r a
  | .removeFile _ | .removeStaging _ => cleanupStep T r a
  | _ => none

/-- One step of `ensure_installed`. -/
def ensureInstalledStep (v : Volume) (r : Replica) (a : ReplicaAction) :
    Option (Volume × Replica) :=
  match r.phase, a with
  | .finished _, _ => none
  | .killed, _ => none
  | _, .kill => some (v, r.goto .killed)
  | .check, .go b =>
    if binaryIsFile W v r b then some (v, r.goto (.finished (.ok ())))
    else some (v, r.goto .createRoot)
  | .createRoot, .go _ => some (v, r.goto .buildClient)
  | .createRoot, .fails e => some (v, r.goto (.finished (.error (.io e))))
  | .buildClient, .go _ => some (v, r.goto .send)
  | .buildClient, .fails e => some (v, r.goto (.finished (.error (.download e))))
  | .verify actual, .go _ => some (v, verifyStep r actual)
  | .rename root, .go _ => renameStep W v r root
  | .rename _, .fails e => some (v, r.goto (.recheck e))
  -- Another replica sharing the volume may have finished first.
  | .recheck e, .go b =>
    if binaryIsFile W v r b then some (v, r.goto (.removeFile (.ok ())))
    else some (v, r.abort (.io e))
  | _, a =>
    (ownStep W (v.temps (r.tag W)) r a).map fun q =>
      (stray W v (v.setTemp (r.tag W) q.1) r a, q.2)

/-- Replicas call `ensure_installed` with any URL, expected hash and process id. -/
def program : Program Volume Replica ReplicaAction Empty where
  act v _ r a := ensureInstalledStep W v r a
  env _ _ e := nomatch e
  fresh r := decide (r = Replica.start r.url r.expected r.pid)

def machine : Machine (Pool.State Volume Replica) (Pool.Action Replica ReplicaAction Empty) :=
  Pool.machine (program W)

/-- Nobody has called yet and the volume is empty. -/
def init : Pool.State Volume Replica := { shared := Volume.empty, procs := [] }

end

end Pinokio.BrowserArchive
