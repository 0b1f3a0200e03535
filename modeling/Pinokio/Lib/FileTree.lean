/-
# Pinokio.Lib.FileTree -- directory trees with modes and symbolic links

A tree is the list of what lies below one directory, each entry with its path
from there. Resolving a path follows links the way a kernel does: name by name,
a link's target read from the directory the link is in, at most forty links, and
"outside" as soon as the way leaves the tree. Setting a mode follows links,
reading an entry does not.

Setting modes never changes which paths a tree has, nor which of them are links.
`Wf` is what any tree of a real file system meets: below each of its directories
every entry can be reached by the entries in between.
-/
import Mathlib.Data.List.Induction

/-- A link's target, from the root of the file system or from the link's directory. -/
structure LinkTarget where
  absolute : Bool
  names : List String
  deriving DecidableEq, Repr

/-- An entry of a directory. -/
inductive FileNode where
  | file (contents : List UInt8) (mode : Nat)
  | dir (mode : Nat)
  | link (target : LinkTarget)
  deriving DecidableEq, Repr

namespace FileNode

/-- The permission bits `lstat` reports; a link has all of them. -/
def mode : FileNode → Nat
  | file _ m => m
  | dir m => m
  | link _ => 0o777

def withMode (m : Nat) : FileNode → FileNode
  | file c _ => file c m
  | dir _ => dir m
  | link target => link target

def withContents (contents : List UInt8) : FileNode → FileNode
  | file _ m => file contents m
  | node => node

def isDir : FileNode → Bool
  | dir _ => true
  | _ => false

def isFile : FileNode → Bool
  | file _ _ => true
  | _ => false

@[simp] theorem withMode_withMode (m m' : Nat) (node : FileNode) :
    (node.withMode m).withMode m' = node.withMode m' := by
  cases node <;> rfl

end FileNode

/-- A directory with everything below it; the paths do not name the directory itself. -/
structure FileTree where
  mode : Nat
  entries : List (List String × FileNode)
  deriving DecidableEq, Repr

namespace FileTree

/-- Where a path leads once the links on the way are followed. -/
inductive Resolved where
  | found (path : List String)
  | outside
  | missing
  | loop
  deriving DecidableEq, Repr

def empty (mode : Nat) : FileTree := { mode, entries := [] }

/-- The entry at a path, itself and not what it links to. -/
def lookup (t : FileTree) (p : List String) : Option FileNode :=
  if p = [] then some (.dir t.mode) else t.entries.lookup p

/-- The paths of the entries of a directory. -/
def children (t : FileTree) (dir : List String) : List (List String) :=
  (t.entries.map Prod.fst).filter fun p => decide (p ≠ []) && decide (p.dropLast = dir)

/-- Walks down from the directory `cwd`; what a link on the way leads to is left to `follow`. -/
def walk (t : FileTree) (follow : List String → List String → Resolved) :
    List String → List String → Resolved
  | cwd, [] => .found cwd
  | cwd, name :: rest =>
    if name = "." then walk t follow cwd rest
    else if name = ".." then
      if cwd = [] then .outside else walk t follow cwd.dropLast rest
    else
      match t.lookup (cwd ++ [name]) with
      | none => .missing
      | some (.file _ _) => if rest = [] then .found (cwd ++ [name]) else .missing
      | some (.dir _) => walk t follow (cwd ++ [name]) rest
      | some (.link target) =>
        if target.absolute then .outside else follow cwd (target.names ++ rest)

/-- Walks down from `cwd` and follows at most `links` links. -/
def resolveFrom (t : FileTree) : Nat → List String → List String → Resolved
  | 0 => walk t fun _ _ => .loop
  | links + 1 => walk t (resolveFrom t links)

/-- A path resolution gives up after this many links. -/
def maxLinks : Nat := 40

/-- What the entry called `name` in the directory `dir` leads to. -/
def resolve (t : FileTree) (dir : List String) (name : String) : Resolved :=
  t.resolveFrom maxLinks dir [name]

/-- Whether `name` in `dir` leads to a regular file; `beyond` answers for a link out of the tree. -/
def isFile (t : FileTree) (dir : List String) (name : String) (beyond : Bool) : Bool :=
  match t.resolve dir name with
  | .found p => (t.lookup p).any FileNode.isFile
  | .outside => beyond
  | _ => false

/-- The entry at `p` gets another mode. -/
def setMode (t : FileTree) (p : List String) (m : Nat) : FileTree :=
  if p = [] then { t with mode := m }
  else { t with entries := t.entries.map fun e => if e.1 = p then (e.1, e.2.withMode m) else e }

/-- What a change of mode came to. -/
inductive Chmod where
  | changed (t : FileTree)
  | outside
  | failed
  deriving DecidableEq, Repr

/-- Changes the mode of what `name` in `dir` leads to. -/
def chmod (t : FileTree) (dir : List String) (name : String) (m : Nat) : Chmod :=
  match t.resolve dir name with
  | .found p => .changed (t.setMode p m)
  | .outside => .outside
  | _ => .failed

/-- The directory at `p` with everything below it, as a tree of its own. -/
def below (t : FileTree) (p : List String) : FileTree where
  mode := ((t.lookup p).map FileNode.mode).getD 0
  entries := t.entries.filterMap fun e =>
    if p.isPrefixOf e.1 && decide (e.1 ≠ p) then some (e.1.drop p.length, e.2) else none

/-- The tree without the entry at `p` and what is below it. -/
def without (t : FileTree) (p : List String) : FileTree :=
  { t with entries := t.entries.filter fun e => !p.isPrefixOf e.1 }

/-- The names in the tree with the contents of the files, whatever the modes. -/
def plain (t : FileTree) : List (List String × FileNode) :=
  t.entries.map fun e => (e.1, e.2.withMode 0)

/-- The file at `p` gets other contents. -/
def setContents (t : FileTree) (p : List String) (contents : List UInt8) : FileTree :=
  { t with entries := t.entries.map fun e =>
      if e.1 = p then (e.1, e.2.withContents contents) else e }

/-! ## Paths -/

/-- The paths a tree has. -/
def paths (t : FileTree) : List (List String) := t.entries.map Prod.fst

variable {t : FileTree}

@[simp] theorem paths_setMode (p : List String) (m : Nat) : (t.setMode p m).paths = t.paths := by
  unfold setMode paths
  split
  · rfl
  · rw [List.map_map]
    apply List.map_congr_left
    intro e _
    show (if e.1 = p then (e.1, e.2.withMode m) else e).1 = e.1
    split <;> rfl

/-- A change of mode is one at the path that was found. -/
theorem setMode_of_chmod {dir : List String} {name : String} {m : Nat} {t' : FileTree}
    (h : t.chmod dir name m = .changed t') : ∃ p, t' = t.setMode p m := by
  unfold chmod at h
  split at h
  · rename_i p _
    injection h with h
    exact ⟨p, h.symm⟩
  · cases h
  · cases h

theorem mem_entries_of_lookup {p : List String} {node : FileNode} (hp : p ≠ [])
    (h : t.lookup p = some node) : (p, node) ∈ t.entries := by
  rw [lookup, if_neg hp] at h
  obtain ⟨_, _, hsplit, -⟩ := List.lookup_eq_some_iff.mp h
  simp [hsplit]

/-- An entry that is there is one of the paths. -/
theorem mem_paths_of_lookup {p : List String} {node : FileNode} (hp : p ≠ [])
    (h : t.lookup p = some node) : p ∈ t.paths := by
  exact List.mem_map.mpr ⟨(p, node), mem_entries_of_lookup hp h, rfl⟩

/-- What can be resolved in a directory is an entry of it. -/
theorem mem_paths_of_isFile {dir : List String} {name : String} {beyond : Bool}
    (h1 : name ≠ ".") (h2 : name ≠ "..") (h : t.isFile dir name beyond = true) :
    dir ++ [name] ∈ t.paths := by
  have hsome : ∃ node, t.lookup (dir ++ [name]) = some node := by
    by_contra hnone
    have hmissing : t.resolve dir name = .missing := by
      have hl : t.lookup (dir ++ [name]) = none := by
        cases hl : t.lookup (dir ++ [name]) with
        | none => rfl
        | some node => exact absurd ⟨node, hl⟩ hnone
      simp [resolve, maxLinks, resolveFrom, walk, h1, h2, hl]
    rw [isFile, hmissing] at h
    cases h
  obtain ⟨node, hnode⟩ := hsome
  exact mem_paths_of_lookup (by simp) hnode

/-- A directory with an entry in it is not empty on its own either. -/
theorem below_entries_ne_nil {p : List String} {name : String} (h : p ++ [name] ∈ t.paths) :
    (t.below p).entries ≠ [] := by
  obtain ⟨e, he, hfst⟩ := List.mem_map.mp h
  refine List.ne_nil_of_mem (a := (e.1.drop p.length, e.2)) (List.mem_filterMap.mpr ⟨e, he, ?_⟩)
  have hpre : p.isPrefixOf e.1 = true := by
    rw [hfst, List.isPrefixOf_iff_prefix]
    exact List.prefix_append p [name]
  have hne : e.1 ≠ p := by
    rw [hfst]
    intro hp
    have hlen := congrArg List.length hp
    simp at hlen
  simp [hpre, hne]

/-! ## Names and contents -/

@[simp] theorem plain_setMode (p : List String) (m : Nat) : (t.setMode p m).plain = t.plain := by
  unfold setMode plain
  split
  · rfl
  · rw [List.map_map]
    apply List.map_congr_left
    intro e _
    by_cases he : e.1 = p
    · simp [he, FileNode.withMode_withMode]
    · simp [he]

/-- What is below a directory is there by its names and contents. -/
theorem plain_below (t : FileTree) (p : List String) :
    (t.below p).plain = t.plain.filterMap fun e =>
      if p.isPrefixOf e.1 && decide (e.1 ≠ p) then some (e.1.drop p.length, e.2) else none := by
  unfold below plain
  rw [List.map_filterMap, List.filterMap_map]
  congr 1
  funext e
  by_cases he : (p.isPrefixOf e.1 && decide (e.1 ≠ p)) = true
  · simp only [Function.comp_apply, he, if_true, Option.map_some]
  · simp only [Function.comp_apply, he, Bool.false_eq_true, if_false, Option.map_none]

/-! ## Well-formed trees -/

/-- No entry is called `.` or `..`, and each one is in a directory of the tree. -/
structure Wf (t : FileTree) : Prop where
  proper : ∀ p ∈ t.paths, p ≠ [] ∧ ∀ name ∈ p, name ≠ "." ∧ name ≠ ".."
  closed : ∀ p ∈ t.paths, ∃ m, t.lookup p.dropLast = some (.dir m)

theorem mem_paths_iff {p : List String} (hp : p ≠ []) :
    p ∈ t.paths ↔ ∃ node, t.lookup p = some node := by
  constructor
  · intro h
    obtain ⟨e, he, rfl⟩ := List.mem_map.mp h
    cases hl : t.lookup e.1 with
    | some node => exact ⟨node, rfl⟩
    | none =>
        rw [lookup, if_neg hp, List.lookup_eq_none_iff] at hl
        have hne := hl e he
        simp at hne
  · rintro ⟨node, h⟩
    exact mem_paths_of_lookup hp h

theorem mem_children {p dir : List String} :
    p ∈ t.children dir ↔ p ∈ t.paths ∧ p ≠ [] ∧ p.dropLast = dir := by
  simp [children, paths]

theorem exists_name_of_mem_children {p dir : List String} (h : p ∈ t.children dir) :
    ∃ name, p = dir ++ [name] := by
  obtain ⟨-, hne, hdrop⟩ := mem_children.mp h
  refine ⟨p.getLast hne, ?_⟩
  rw [← hdrop]
  exact (List.dropLast_concat_getLast hne).symm

theorem lookup_map_withMode (entries : List (List String × FileNode)) (p q : List String) (m : Nat) :
    (entries.map fun e => if e.1 = p then (e.1, e.2.withMode m) else e).lookup q =
      if q = p then (entries.lookup q).map (FileNode.withMode m) else entries.lookup q := by
  induction entries with
  | nil => simp
  | cons e entries ih =>
      obtain ⟨k, node⟩ := e
      by_cases hkp : k = p
      · subst hkp
        by_cases hqk : q = k
        · simp [hqk]
        · simp only [List.map_cons, if_true, List.lookup_cons, beq_eq_false_iff_ne.mpr hqk]
          exact ih
      · by_cases hqk : q = k
        · simp [hqk, hkp]
        · simp only [List.map_cons, if_neg hkp, List.lookup_cons, beq_eq_false_iff_ne.mpr hqk]
          exact ih

/-- A mode is set at one path and nowhere else. -/
theorem lookup_setMode (p q : List String) (m : Nat) :
    (t.setMode p m).lookup q =
      if q = p then (t.lookup q).map (FileNode.withMode m) else t.lookup q := by
  unfold setMode lookup
  by_cases hp : p = []
  · subst hp
    by_cases hq : q = []
    · simp [hq, FileNode.withMode]
    · simp [hq]
  · by_cases hq : q = []
    · subst hq
      have hne : ([] : List String) ≠ p := fun h => hp h.symm
      simp [hp, hne]
    · simp only [if_neg hp, if_neg hq]
      exact lookup_map_withMode t.entries p q m

theorem lookup_setMode_dir {p q : List String} {m m' : Nat}
    (h : t.lookup q = some (.dir m')) : ∃ m'', (t.setMode p m).lookup q = some (.dir m'') := by
  rw [lookup_setMode, h]
  split
  · exact ⟨m, rfl⟩
  · exact ⟨m', rfl⟩

/-- A link stays one, and nothing becomes one. -/
theorem lookup_setMode_link {p q : List String} {m : Nat} {target : LinkTarget} :
    (t.setMode p m).lookup q = some (.link target) ↔ t.lookup q = some (.link target) := by
  rw [lookup_setMode]
  split
  · cases t.lookup q with
    | none => simp
    | some node => cases node <;> simp [FileNode.withMode]
  · exact Iff.rfl

theorem children_setMode (p dir : List String) (m : Nat) :
    (t.setMode p m).children dir = t.children dir := by
  show ((t.setMode p m).paths).filter _ = t.paths.filter _
  rw [paths_setMode]

/-- The same entries, the same of them directories and links; modes may differ. -/
structure SameShape (t u : FileTree) : Prop where
  paths : u.paths = t.paths
  dir : ∀ {q m}, t.lookup q = some (.dir m) → ∃ m', u.lookup q = some (.dir m')
  link : ∀ {q target}, u.lookup q = some (.link target) ↔ t.lookup q = some (.link target)

theorem SameShape.refl (t : FileTree) : SameShape t t := ⟨rfl, fun h => ⟨_, h⟩, Iff.rfl⟩

theorem SameShape.trans {u w : FileTree} (h : SameShape t u) (h' : SameShape u w) :
    SameShape t w where
  paths := h'.paths.trans h.paths
  dir hq := by
    obtain ⟨m, hu⟩ := h.dir hq
    exact h'.dir hu
  link := h'.link.trans h.link

theorem SameShape.setMode (p : List String) (m : Nat) : SameShape t (t.setMode p m) :=
  ⟨paths_setMode p m, lookup_setMode_dir, lookup_setMode_link⟩

theorem SameShape.wf {u : FileTree} (h : SameShape t u) (hwf : t.Wf) : u.Wf where
  proper q hq := hwf.proper q (by rwa [h.paths] at hq)
  closed q hq := by
    rw [h.paths] at hq
    obtain ⟨m, hdir⟩ := hwf.closed q hq
    exact h.dir hdir

/-- What lies above an entry is a directory. -/
theorem Wf.dir_above (hwf : t.Wf) {p rest : List String} {name : String} {node : FileNode}
    (h : t.lookup (p ++ name :: rest) = some node) : ∃ m, t.lookup p = some (.dir m) := by
  induction rest using List.reverseRecOn generalizing node with
  | nil =>
      have hmem : p ++ [name] ∈ t.paths := mem_paths_of_lookup (by simp) h
      simpa using hwf.closed _ hmem
  | append_singleton rest last ih =>
      have hmem : p ++ name :: (rest ++ [last]) ∈ t.paths := mem_paths_of_lookup (by simp) h
      obtain ⟨m, hdir⟩ := hwf.closed _ hmem
      have hdrop : (p ++ name :: (rest ++ [last])).dropLast = p ++ name :: rest := by
        rw [← List.cons_append, ← List.append_assoc, List.dropLast_concat]
      rw [hdrop] at hdir
      exact ih hdir

/-- The entries of a directory are all that what lies below it is reached through. -/
theorem Wf.child_above (hwf : t.Wf) {p rest : List String} {name : String} {node : FileNode}
    (h : t.lookup (p ++ name :: rest) = some node) : p ++ [name] ∈ t.children p := by
  have hsome : ∃ node', t.lookup (p ++ [name]) = some node' := by
    cases rest with
    | nil => exact ⟨node, h⟩
    | cons next rest =>
        rw [List.append_cons] at h
        obtain ⟨m, hdir⟩ := hwf.dir_above h
        exact ⟨_, hdir⟩
  have hmem : p ++ [name] ∈ t.paths := (mem_paths_iff (by simp)).mpr hsome
  exact mem_children.mpr ⟨hmem, by simp, by simp⟩

/-- An entry that is no link leads to itself. -/
theorem Wf.resolve_self (hwf : t.Wf) {p : List String} {node : FileNode} (hp : p ≠ [])
    (h : t.lookup p = some node) (hlink : ∀ target, node ≠ .link target) :
    t.resolve p.dropLast (p.getLastD "") = .found p := by
  have hproper := (hwf.proper p (mem_paths_of_lookup hp h)).2
  have hsplit : p.dropLast ++ [p.getLastD ""] = p := by
    rw [List.getLastD_eq_getLast?, List.getLast?_eq_some_getLast hp]
    exact List.dropLast_concat_getLast hp
  have hname := hproper (p.getLastD "") (by rw [← hsplit]; simp)
  simp only [resolve, maxLinks, resolveFrom, walk, if_neg hname.1, if_neg hname.2, hsplit, h]
  cases node with
  | file c m => simp
  | dir m => simp
  | link target => exact absurd rfl (hlink target)

end FileTree
