/-
# Pinokio.BrowserArchive.Permissions -- what the permission pass leaves behind

`permissionPass` is the end of `extract_archive`: `make_world_readable` below the
directory that holds `chrome`, then mode 0755 for `chrome` itself. `Fixed` is what it
is there for. The pass reads an entry without following it and sets the mode through
it, so a link is where the two part; and it starts below the directory it is given, so
that directory keeps its mode. `permissions_fixed_iff` is that nothing else goes wrong,
in a tree of any shape.
-/
import Pinokio.BrowserArchive.Staging

namespace Pinokio.BrowserArchive

open FileTree (SameShape)

/-! ## Modes -/

/-- The bits that make an entry readable, and executable if it is a directory or somebody
may execute it already. -/
def addedBits (node : FileNode) : Nat :=
  if node.isDir || decide (node.mode &&& 0o111 ≠ 0) then 0o555 else 0o444

/-- An entry with the mode `make_world_readable` is after. -/
def fixNode (node : FileNode) : FileNode := node.withMode (readableMode node)

theorem or_and_self (m k : Nat) : (m ||| k) &&& k = k := by
  apply Nat.eq_of_testBit_eq
  intro i
  rw [Nat.testBit_and, Nat.testBit_or]
  cases m.testBit i <;> cases k.testBit i <;> rfl

theorem or_and_of_subset (m : Nat) {k w : Nat} (h : k ||| w = k) : (m ||| k) &&& w = w := by
  rw [← h, ← Nat.or_assoc]
  exact or_and_self (m ||| k) w

/-- Bits outside of `k` are not touched by setting those of `k`. -/
theorem or_and_of_disjoint (m : Nat) {k w : Nat} (h : k &&& w = 0) :
    (m ||| k) &&& w = m &&& w := by
  rw [Nat.and_or_distrib_right, h, Nat.or_zero]

theorem readableMode_eq (node : FileNode) : readableMode node = node.mode ||| addedBits node := by
  have hexec : (node.mode ||| 0o444) &&& 0o111 = node.mode &&& 0o111 :=
    or_and_of_disjoint node.mode (by decide)
  simp only [readableMode, addedBits, hexec]
  split
  · rw [Nat.or_assoc]
    rfl
  · rfl

theorem addedBits_file (c : List UInt8) (m : Nat) :
    addedBits (.file c m) = if m &&& 0o111 ≠ 0 then 0o555 else 0o444 := by
  by_cases h : m &&& 0o111 = 0
  · simp [addedBits, FileNode.isDir, FileNode.mode, h]
  · simp [addedBits, FileNode.isDir, FileNode.mode, h]

/-- A second time changes nothing. -/
theorem fixNode_fixNode (node : FileNode) : fixNode (fixNode node) = fixNode node := by
  cases node with
  | link target => rfl
  | dir m =>
      simp only [fixNode, FileNode.withMode, readableMode_eq, FileNode.mode, addedBits,
        FileNode.isDir, Bool.true_or, if_true, Nat.or_assoc, Nat.or_self]
  | file c m =>
      have hexec : addedBits (.file c (m ||| addedBits (.file c m))) = addedBits (.file c m) := by
        simp only [addedBits_file]
        split
        · rename_i h
          have hall : (m ||| 0o555) &&& 0o111 ≠ 0 := by
            rw [Nat.and_or_distrib_right]
            intro h0
            exact h (Nat.or_eq_zero_iff.mp h0).1
          rw [if_pos hall]
        · rename_i h
          rw [if_neg]
          rw [or_and_of_disjoint m (by decide)]
          exact h
      simp only [fixNode, FileNode.withMode, readableMode_eq, FileNode.mode, hexec, Nat.or_assoc,
        Nat.or_self]

/-- What a file's mode becomes. -/
structure FileModeFixed (m m' : Nat) : Prop where
  read : m' &&& 0o444 = 0o444
  exec : m' &&& 0o111 = 0o111 ↔ m &&& 0o111 ≠ 0
  write : m' &&& 0o222 = m &&& 0o222

theorem fileModeFixed_readableMode (c : List UInt8) (m : Nat) :
    FileModeFixed m (readableMode (.file c m)) := by
  rw [readableMode_eq, addedBits_file]
  show FileModeFixed m (m ||| _)
  split
  · rename_i h
    have hall : (m ||| 0o555) &&& 0o111 = 0o111 := or_and_of_subset m (by decide)
    exact ⟨or_and_of_subset m (by decide), iff_of_true hall h, or_and_of_disjoint m (by decide)⟩
  · rename_i h
    refine ⟨or_and_self m 0o444, ?_, or_and_of_disjoint m (by decide)⟩
    rw [or_and_of_disjoint m (by decide), not_not.mp h]
    simp

theorem readableMode_dir (m : Nat) : readableMode (.dir m) &&& 0o555 = 0o555 := by
  rw [readableMode_eq]
  exact or_and_self m 0o555

/-! ## The pass -/

/-- The end of `extract_archive`, once the directory that holds `chrome` is found. -/
def permissionPass (fuel : Nat) (t : FileTree) (root : List String) : Option FileTree :=
  (makeWorldReadable fuel t (t.children root)).bind fun u => chmodChrome u root

/-- The rounds of the loop of `make_world_readable`: the entry each one handles and the
tree it finds. -/
def rounds : Nat → FileTree → List (List String) → List (FileTree × List String)
  | _, _, [] => []
  | 0, _, _ :: _ => []
  | fuel + 1, t, p :: pending =>
    (t, p) :: ((visit t p).map fun r => rounds fuel r.1 (r.2 ++ pending)).getD []

/-- The paths the pass hands to `set_permissions`, each with the tree at the time. -/
def handed (fuel : Nat) (t : FileTree) (root : List String) : List (FileTree × List String) :=
  rounds fuel t (t.children root) ++
    (makeWorldReadable fuel t (t.children root)).toList.map fun u => (u, root ++ ["chrome"])

/-- What the pass is there for, on the tree `t` with result `t'`. -/
structure Fixed (fuel : Nat) (t t' : FileTree) (root : List String) : Prop where
  passed : permissionPass fuel t root = some t'
  dirs : ∀ q m, t'.lookup (root ++ q) = some (.dir m) → m &&& 0o555 = 0o555
  files : ∀ q c m, q ≠ ["chrome"] → t.lookup (root ++ q) = some (.file c m) →
    ∃ m', t'.lookup (root ++ q) = some (.file c m') ∧ FileModeFixed m m'
  chrome : ∀ c m, t.lookup (root ++ ["chrome"]) = some (.file c m) →
    t'.lookup (root ++ ["chrome"]) = some (.file c 0o755)
  /-- No mode is set through a link. -/
  links : ∀ r ∈ handed fuel t root, ∀ target, r.1.lookup r.2 ≠ some (.link target)
  /-- No mode is set outside the staging directory. -/
  inside : ∀ r ∈ handed fuel t root,
    r.1.resolve r.2.dropLast (r.2.getLastD "") ≠ .outside

/-- `extract_archive` returns what the pass leaves of the directory that holds `chrome`. -/
theorem extractArchive_eq_some_iff {W : World} {beyond : Bool} {fuel : Nat}
    {contents : List UInt8} {w : FileTree} :
    extractArchive W beyond fuel contents = some w ↔
      ∃ format t root u, (detectFormat contents).toOption = some format ∧
        unpackFrom W format contents fuel 0 (FileTree.empty W.dirMode) = some t ∧
        locate beyond none t = .ok (.inside root) ∧ permissionPass fuel t root = some u ∧
        (moved u (.inside root)).1 = w := by
  simp only [extractArchive, permissionPass, Option.bind_eq_bind, Option.bind_eq_some_iff]
  constructor
  · rintro ⟨format, hformat, t, hunpack, h⟩
    split at h
    · rename_i root hroot
      obtain ⟨u, hfix, h⟩ := Option.bind_eq_some_iff.mp h
      obtain ⟨u', hchrome, h⟩ := Option.bind_eq_some_iff.mp h
      exact ⟨format, t, root, u', hformat, hunpack, hroot, ⟨u, hfix, hchrome⟩, Option.some.inj h⟩
    · cases h
  · rintro ⟨format, t, root, u', hformat, hunpack, hroot, ⟨u, hfix, hchrome⟩, rfl⟩
    refine ⟨format, hformat, t, hunpack, ?_⟩
    rw [hroot]
    simp [hfix, hchrome]

/-! ## One round -/

section

variable {t u : FileTree} {p : List String} {pending more : List (List String)} {fuel : Nat}

/-- A round sets one mode, of an entry or through a link, and changes nothing else. -/
theorem visit_shape (h : visit t p = some (u, more)) :
    SameShape t u ∧ ∃ node, t.lookup p = some node ∧ more = nextEntries t p node := by
  obtain ⟨rfl | ⟨q, m, rfl⟩, hmore⟩ := visit_cases h
  · exact ⟨SameShape.refl _, hmore⟩
  · exact ⟨SameShape.setMode q m, hmore⟩

theorem makeWorldReadable_shape (h : makeWorldReadable fuel t pending = some u) :
    SameShape t u := by
  induction fuel generalizing t pending with
  | zero =>
      cases pending with
      | nil =>
          cases h
          exact SameShape.refl _
      | cons p pending => cases h
  | succ fuel ih =>
      cases pending with
      | nil =>
          cases h
          exact SameShape.refl _
      | cons p pending =>
          obtain ⟨⟨w, more⟩, hvisit, h⟩ := Option.bind_eq_some_iff.mp h
          exact (visit_shape hvisit).1.trans (ih h)

/-- The entries to visit are there, and there is no link at or below them. -/
structure Plain (t : FileTree) (pending : List (List String)) : Prop where
  there : ∀ p ∈ pending, p ∈ t.paths
  links : ∀ p ∈ pending, ∀ rest target, t.lookup (p ++ rest) ≠ some (.link target)

theorem mem_nextEntries {node : FileNode} {c : List String} (h : c ∈ nextEntries t p node) :
    c ∈ t.paths ∧ ∃ name, c = p ++ [name] := by
  unfold nextEntries at h
  split at h
  · exact ⟨(FileTree.mem_children.mp h).1, FileTree.exists_name_of_mem_children h⟩
  · cases h

theorem Plain.shape (hplain : Plain t pending) (h : SameShape t u) : Plain u pending where
  there p hp := by
    rw [h.paths]
    exact hplain.there p hp
  links p hp rest target hlink := hplain.links p hp rest target (h.link.mp hlink)

theorem Plain.tail (hplain : Plain t (p :: pending)) : Plain t pending where
  there q hq := hplain.there q (List.mem_cons_of_mem p hq)
  links q hq := hplain.links q (List.mem_cons_of_mem p hq)

theorem Plain.next {node : FileNode} (hplain : Plain t (p :: pending)) :
    Plain t (nextEntries t p node) where
  there c hc := (mem_nextEntries hc).1
  links c hc rest target := by
    obtain ⟨-, name, rfl⟩ := mem_nextEntries hc
    rw [List.append_assoc]
    exact hplain.links p List.mem_cons_self ([name] ++ rest) target

theorem Plain.append {a b : List (List String)} (ha : Plain t a) (hb : Plain t b) :
    Plain t (a ++ b) where
  there q hq := (List.mem_append.mp hq).elim (ha.there q) (hb.there q)
  links q hq := (List.mem_append.mp hq).elim (ha.links q) (hb.links q)

/-- Where there are no links, a round fixes the mode of its entry. -/
theorem visit_plain (hwf : t.Wf) (hplain : Plain t (p :: pending)) :
    ∃ node, t.lookup p = some node ∧ (∀ target, node ≠ .link target) ∧
      visit t p = some (t.setMode p (readableMode node), nextEntries t p node) := by
  have hmem := hplain.there p List.mem_cons_self
  have hp := (hwf.proper p hmem).1
  obtain ⟨node, hnode⟩ := (FileTree.mem_paths_iff hp).mp hmem
  have hlink : ∀ target, node ≠ .link target := by
    rintro target rfl
    exact hplain.links p List.mem_cons_self [] target (by rw [List.append_nil, hnode])
  have hself := hwf.resolve_self hp hnode hlink
  refine ⟨node, hnode, hlink, ?_⟩
  simp only [visit, hnode, Option.bind_some, FileTree.chmod, hself]
  unfold nextEntries
  rw [FileTree.children_setMode]

/-! ## What the rounds add up to -/

/-- The entries visited and what is below them have their modes fixed, the rest is as it was. -/
structure Fixes (pending : List (List String)) (t u : FileTree) : Prop where
  covered : ∀ p ∈ pending, ∀ rest,
    u.lookup (p ++ rest) = (t.lookup (p ++ rest)).map fixNode
  rest : ∀ q, (∀ p ∈ pending, ¬ p <+: q) → u.lookup q = t.lookup q

theorem Fixes.visit {node : FileNode} (hwf : t.Wf) (hnode : t.lookup p = some node)
    (h : Fixes (nextEntries t p node ++ pending) (t.setMode p (readableMode node)) u) :
    Fixes (p :: pending) t u := by
  have hself : (t.setMode p (readableMode node)).lookup p = some (fixNode node) := by
    rw [FileTree.lookup_setMode, if_pos rfl, hnode]
    rfl
  have hother : ∀ q, q ≠ p → (t.setMode p (readableMode node)).lookup q = t.lookup q := by
    intro q hq
    rw [FileTree.lookup_setMode, if_neg hq]
  -- the entry itself keeps its new mode, visited again or not
  have hp : u.lookup p = some (fixNode node) := by
    by_cases hcov : ∃ c ∈ nextEntries t p node ++ pending, c <+: p
    · obtain ⟨c, hc, rest, rfl⟩ := hcov
      rw [h.covered c hc rest, hself, Option.map_some, fixNode_fixNode]
    · rw [h.rest p fun c hc hpre => hcov ⟨c, hc, hpre⟩, hself]
  refine ⟨?_, ?_⟩
  · intro q hq rest
    by_cases hqp : q ++ rest = p
    · rw [hqp, hp, hnode, Option.map_some]
    rcases List.mem_cons.mp hq with rfl | hq
    · cases rest with
      | nil => exact absurd (List.append_nil q) hqp
      | cons name rest =>
          cases hsome : t.lookup (q ++ name :: rest) with
          | none =>
              have hnone := hother _ hqp
              rw [hsome] at hnone
              by_cases hcov : ∃ c ∈ nextEntries t q node ++ pending, c <+: q ++ name :: rest
              · obtain ⟨c, hc, more, hmore⟩ := hcov
                rw [← hmore, h.covered c hc more, hmore, hnone]
              · rw [h.rest _ fun c hc hpre => hcov ⟨c, hc, hpre⟩, hnone]
                rfl
          | some below =>
              -- something is below it, so it is a directory and that is reached through an entry
              obtain ⟨m, hdir⟩ := hwf.dir_above hsome
              have hchild : q ++ [name] ∈ nextEntries t q node := by
                rw [hnode] at hdir
                injection hdir with hdir
                subst hdir
                exact hwf.child_above hsome
              have hcov := h.covered _ (List.mem_append_left pending hchild) rest
              rw [← List.append_cons] at hcov
              rw [hcov, hother _ hqp, hsome]
    · rw [h.covered q (List.mem_append_right _ hq) rest, hother _ hqp]
  · intro q hq
    have hqp : q ≠ p := by
      rintro rfl
      exact hq q List.mem_cons_self (List.prefix_refl q)
    rw [h.rest q, hother q hqp]
    intro c hc hpre
    rcases List.mem_append.mp hc with hc | hc
    · obtain ⟨-, name, rfl⟩ := mem_nextEntries hc
      exact hq p List.mem_cons_self ((List.prefix_append p [name]).trans hpre)
    · exact hq c (List.mem_cons_of_mem p hc) hpre

/-- `make_world_readable` fixes the modes of all entries there are, and no others. -/
theorem makeWorldReadable_fixes (hwf : t.Wf) (hplain : Plain t pending)
    (h : makeWorldReadable fuel t pending = some u) : Fixes pending t u := by
  induction fuel generalizing t pending with
  | zero =>
      cases pending with
      | nil =>
          cases h
          exact ⟨(fun p hp => by cases hp), fun _ _ => rfl⟩
      | cons p pending => cases h
  | succ fuel ih =>
      cases pending with
      | nil =>
          cases h
          exact ⟨(fun p hp => by cases hp), fun _ _ => rfl⟩
      | cons p pending =>
          obtain ⟨node, hnode, -, hvisit⟩ := visit_plain hwf hplain
          rw [makeWorldReadable, hvisit] at h
          have hshape : SameShape t (t.setMode p (readableMode node)) := SameShape.setMode _ _
          exact Fixes.visit hwf hnode
            (ih (hshape.wf hwf) ((hplain.next.append hplain.tail).shape hshape) h)

theorem makeWorldReadable_append {m n : Nat} {w : FileTree} {a b : List (List String)}
    (ha : makeWorldReadable m t a = some u) (hb : makeWorldReadable n u b = some w) :
    makeWorldReadable (m + n) t (a ++ b) = some w := by
  induction m generalizing t a with
  | zero =>
      cases a with
      | nil =>
          cases ha
          simpa using hb
      | cons p a => cases ha
  | succ m ih =>
      cases a with
      | nil =>
          cases ha
          rw [List.nil_append, Nat.add_comm]
          exact makeWorldReadable_mono hb (m + 1)
      | cons p a =>
          obtain ⟨r, hvisit, ha⟩ := Option.bind_eq_some_iff.mp ha
          have hnext : m + 1 + n = m + n + 1 := by omega
          rw [hnext, List.cons_append, makeWorldReadable, hvisit]
          show makeWorldReadable (m + n) r.1 (r.2 ++ (a ++ b)) = some w
          rw [← List.append_assoc]
          exact ih ha

/-- Without links the pass comes to its end: each level of directories is one less. -/
theorem makeWorldReadable_total_of_depth {depth bound : Nat} (hwf : t.Wf)
    (hplain : Plain t pending) (hbound : ∀ q ∈ t.paths, q.length < bound)
    (hdepth : ∀ p ∈ pending, bound ≤ p.length + depth) :
    ∃ fuel u, makeWorldReadable fuel t pending = some u := by
  induction depth generalizing t pending with
  | zero =>
      cases pending with
      | nil => exact ⟨0, t, rfl⟩
      | cons p pending =>
          have hp := hbound p (hplain.there p List.mem_cons_self)
          have hp' := hdepth p List.mem_cons_self
          omega
  | succ depth ih =>
      induction pending generalizing t with
      | nil => exact ⟨0, t, rfl⟩
      | cons p pending ih' =>
          obtain ⟨node, -, -, hvisit⟩ := visit_plain hwf hplain
          have hshape : SameShape t (t.setMode p (readableMode node)) := SameShape.setMode _ _
          obtain ⟨m, u, hu⟩ := ih (hshape.wf hwf) (hplain.next.shape hshape)
            (by rwa [hshape.paths]) (by
              intro c hc
              obtain ⟨-, name, rfl⟩ := mem_nextEntries hc
              have hp := hdepth p List.mem_cons_self
              simp only [List.length_append, List.length_singleton]
              omega)
          have hshape' := hshape.trans (makeWorldReadable_shape hu)
          obtain ⟨n, w, hw⟩ := ih' (hshape'.wf hwf) (hplain.tail.shape hshape')
            (by rwa [hshape'.paths]) (fun q hq => hdepth q (List.mem_cons_of_mem p hq))
          refine ⟨m + n + 1, w, ?_⟩
          rw [makeWorldReadable, hvisit]
          exact makeWorldReadable_append hu hw

theorem exists_length_bound (l : List (List String)) : ∃ bound, ∀ q ∈ l, q.length < bound := by
  induction l with
  | nil => exact ⟨0, fun q hq => by cases hq⟩
  | cons p l ih =>
      obtain ⟨bound, h⟩ := ih
      refine ⟨max bound (p.length + 1), ?_⟩
      intro q hq
      rcases List.mem_cons.mp hq with rfl | hq
      · omega
      · have := h q hq
        omega

theorem makeWorldReadable_total (hwf : t.Wf) (hplain : Plain t pending) :
    ∃ fuel u, makeWorldReadable fuel t pending = some u := by
  obtain ⟨bound, hbound⟩ := exists_length_bound t.paths
  have hdepth : ∀ p ∈ pending, bound ≤ p.length + bound := by
    intro p _
    omega
  exact makeWorldReadable_total_of_depth hwf hplain hbound hdepth

/-! ## The entries handed to `set_permissions` -/

/-- Where there are no links, each round handles an entry that is none. -/
theorem rounds_plain (hwf : t.Wf) (hplain : Plain t pending) {r : FileTree × List String}
    (hr : r ∈ rounds fuel t pending) :
    r.1.Wf ∧ r.2 ≠ [] ∧ ∃ node, r.1.lookup r.2 = some node ∧ ∀ target, node ≠ .link target := by
  induction fuel generalizing t pending with
  | zero => cases pending <;> cases hr
  | succ fuel ih =>
      cases pending with
      | nil => cases hr
      | cons p pending =>
          obtain ⟨node, hnode, hlink, hvisit⟩ := visit_plain hwf hplain
          have hshape : SameShape t (t.setMode p (readableMode node)) := SameShape.setMode _ _
          rw [rounds, hvisit] at hr
          rcases List.mem_cons.mp hr with rfl | hr
          · exact ⟨hwf, (hwf.proper p (hplain.there p List.mem_cons_self)).1, node, hnode, hlink⟩
          · exact ih (hshape.wf hwf) ((hplain.next.append hplain.tail).shape hshape) hr

/-- A pass that comes to its end has handled every link there is. -/
theorem link_mem_rounds {rest : List String} {target : LinkTarget} (hwf : t.Wf)
    (h : makeWorldReadable fuel t pending = some u) (hp : p ∈ pending)
    (hlink : t.lookup (p ++ rest) = some (.link target)) :
    ∃ r ∈ rounds fuel t pending, r.1.lookup r.2 = some (.link target) := by
  induction fuel generalizing t pending p rest with
  | zero => cases pending <;> cases hp <;> cases h
  | succ fuel ih =>
      cases pending with
      | nil => cases hp
      | cons q pending =>
          obtain ⟨⟨w, more⟩, hvisit, h⟩ := Option.bind_eq_some_iff.mp h
          obtain ⟨hshape, node, hnode, hmore⟩ := visit_shape hvisit
          have later : ∀ p' rest', p' ∈ more ++ pending → p' ++ rest' = p ++ rest →
              ∃ r ∈ rounds (fuel + 1) t (q :: pending), r.1.lookup r.2 = some (.link target) := by
            intro p' rest' hp' heq
            have hlink' : w.lookup (p' ++ rest') = some (.link target) := by
              rw [heq]
              exact hshape.link.mpr hlink
            obtain ⟨r, hr, hl⟩ := ih (hshape.wf hwf) h hp' hlink'
            refine ⟨r, ?_, hl⟩
            rw [rounds, hvisit]
            exact List.mem_cons_of_mem _ hr
          rcases List.mem_cons.mp hp with rfl | hp
          · cases rest with
            | nil =>
                refine ⟨(t, p), ?_, by rwa [List.append_nil] at hlink⟩
                rw [rounds]
                exact List.mem_cons_self
            | cons name rest =>
                obtain ⟨m, hdir⟩ := hwf.dir_above hlink
                refine later (p ++ [name]) rest (List.mem_append_left _ ?_) (by simp)
                rw [hnode] at hdir
                injection hdir with hdir
                subst hdir
                rw [hmore]
                exact hwf.child_above hlink
          · exact later p rest (List.mem_append_right _ hp) rfl

end

/-! ## The pass on an extracted tree -/

section

variable {t u : FileTree} {root : List String} {fuel : Nat}

theorem plain_children (h : ∀ q target, t.lookup (root ++ q) ≠ some (.link target)) :
    Plain t (t.children root) where
  there p hp := (FileTree.mem_children.mp hp).1
  links p hp rest target := by
    obtain ⟨name, rfl⟩ := FileTree.exists_name_of_mem_children hp
    rw [List.append_assoc]
    exact h ([name] ++ rest) target

/-- The directory the pass is given is not one of the entries it fixes. -/
theorem Fixes.lookup_root (h : Fixes (t.children root) t u) : u.lookup root = t.lookup root := by
  apply h.rest
  intro p hp hpre
  obtain ⟨name, rfl⟩ := FileTree.exists_name_of_mem_children hp
  have hlen := hpre.length_le
  simp only [List.length_append, List.length_singleton] at hlen
  omega

theorem Fixes.lookup_below {q : List String} (hwf : t.Wf) (h : Fixes (t.children root) t u)
    (hq : q ≠ []) : u.lookup (root ++ q) = (t.lookup (root ++ q)).map fixNode := by
  by_cases hcov : ∃ p ∈ t.children root, p <+: root ++ q
  · obtain ⟨p, hp, rest, hrest⟩ := hcov
    rw [← hrest]
    exact h.covered p hp rest
  · rw [h.rest _ fun p hp hpre => hcov ⟨p, hp, hpre⟩]
    cases hsome : t.lookup (root ++ q) with
    | none => rfl
    | some node =>
        cases q with
        | nil => exact absurd rfl hq
        | cons name rest =>
            refine absurd ⟨root ++ [name], hwf.child_above hsome, rest, ?_⟩ hcov
            rw [List.append_assoc, List.singleton_append]

/-- `chrome` is a regular file, so its mode is set where it is. -/
theorem chmodChrome_file {c : List UInt8} {m : Nat} (hwf : t.Wf)
    (h : t.lookup (root ++ ["chrome"]) = some (.file c m)) :
    chmodChrome t root = some (t.setMode (root ++ ["chrome"]) 0o755) := by
  have hself := hwf.resolve_self (by simp) h (fun target heq => by cases heq)
  have hdrop : (root ++ ["chrome"]).dropLast = root := by simp
  have hlast : (root ++ ["chrome"]).getLastD "" = "chrome" := by simp
  rw [hdrop, hlast] at hself
  simp only [chmodChrome, FileTree.chmod, hself]

theorem Fixes.lookup_chrome {c : List UInt8} {m : Nat} (hwf : t.Wf)
    (h : Fixes (t.children root) t u)
    (hchrome : t.lookup (root ++ ["chrome"]) = some (.file c m)) :
    u.lookup (root ++ ["chrome"]) = some (.file c (readableMode (.file c m))) := by
  rw [h.lookup_below hwf (by simp), hchrome]
  rfl

/-- With no links below it and its own mode right, the directory is fixed. -/
theorem fixed_of_plain {c : List UInt8} {m mode : Nat} (hwf : t.Wf)
    (hchrome : t.lookup (root ++ ["chrome"]) = some (.file c m))
    (hroot : t.lookup root = some (.dir mode)) (hmode : mode &&& 0o555 = 0o555)
    (hlinks : ∀ q target, t.lookup (root ++ q) ≠ some (.link target))
    (h : makeWorldReadable fuel t (t.children root) = some u) :
    Fixed fuel t (u.setMode (root ++ ["chrome"]) 0o755) root := by
  have hplain := plain_children hlinks
  have hfix := makeWorldReadable_fixes hwf hplain h
  have hshape := makeWorldReadable_shape h
  have hchrome' := hfix.lookup_chrome hwf hchrome
  have hother : ∀ q, q ≠ ["chrome"] →
      (u.setMode (root ++ ["chrome"]) 0o755).lookup (root ++ q) = u.lookup (root ++ q) := by
    intro q hq
    rw [FileTree.lookup_setMode, if_neg fun heq => hq (List.append_cancel_left heq)]
  have hsame : (u.setMode (root ++ ["chrome"]) 0o755).lookup (root ++ ["chrome"]) =
      some (.file c 0o755) := by
    rw [FileTree.lookup_setMode, if_pos rfl, hchrome']
    rfl
  have hhanded : ∀ r ∈ handed fuel t root, r.1.Wf ∧ r.2 ≠ [] ∧
      ∃ node, r.1.lookup r.2 = some node ∧ ∀ target, node ≠ .link target := by
    intro r hr
    rcases List.mem_append.mp hr with hr | hr
    · exact rounds_plain hwf hplain hr
    · rw [h] at hr
      simp only [Option.toList_some, List.map_cons, List.map_nil, List.mem_singleton] at hr
      subst hr
      exact ⟨hshape.wf hwf, by simp, _, hchrome', fun target heq => by cases heq⟩
  refine
    { passed := ?_
      dirs := ?_
      files := ?_
      chrome := ?_
      links := ?_
      inside := ?_ }
  · rw [permissionPass, h]
    exact chmodChrome_file (hshape.wf hwf) hchrome'
  · intro q m' hq
    by_cases hqc : q = ["chrome"]
    · rw [hqc, hsame] at hq
      cases hq
    rw [hother q hqc] at hq
    by_cases hnil : q = []
    · rw [hnil, List.append_nil, hfix.lookup_root, hroot] at hq
      cases hq
      exact hmode
    · rw [hfix.lookup_below hwf hnil] at hq
      obtain ⟨node, -, hnode⟩ := Option.map_eq_some_iff.mp hq
      cases node with
      | dir m =>
          cases hnode
          exact readableMode_dir m
      | file c m => cases hnode
      | link target => cases hnode
  · intro q c' m' hqc hq
    have hnil : q ≠ [] := by
      rintro rfl
      rw [List.append_nil, hroot] at hq
      cases hq
    refine ⟨readableMode (.file c' m'), ?_, fileModeFixed_readableMode c' m'⟩
    rw [hother q hqc, hfix.lookup_below hwf hnil, hq]
    rfl
  · intro c' m' hc
    rw [hchrome] at hc
    cases hc
    exact hsame
  · intro r hr target hlink
    obtain ⟨-, -, node, hnode, hne⟩ := hhanded r hr
    rw [hnode] at hlink
    exact hne target (Option.some.inj hlink)
  · intro r hr
    obtain ⟨hwf', hne, node, hnode, hlink⟩ := hhanded r hr
    rw [hwf'.resolve_self hne hnode hlink]
    exact fun heq => by cases heq

/-- Whether the pass does what it is there for: exactly when no link is below the directory
that holds `chrome` and that directory is open to all from the archive. -/
theorem permissions_fixed_iff {c : List UInt8} {m : Nat} (hwf : t.Wf)
    (hchrome : t.lookup (root ++ ["chrome"]) = some (.file c m)) :
    (∃ fuel t', Fixed fuel t t' root) ↔
      (∃ mode, t.lookup root = some (.dir mode) ∧ mode &&& 0o555 = 0o555) ∧
        ∀ q target, t.lookup (root ++ q) ≠ some (.link target) := by
  obtain ⟨mode, hroot⟩ := hwf.dir_above hchrome
  constructor
  · rintro ⟨fuel, t', hfixed⟩
    obtain ⟨u, hu, hpass⟩ := Option.bind_eq_some_iff.mp hfixed.passed
    have hlinks : ∀ q target, t.lookup (root ++ q) ≠ some (.link target) := by
      intro q target hlink
      cases q with
      | nil =>
          rw [List.append_nil, hroot] at hlink
          cases hlink
      | cons name rest =>
          have hchild := hwf.child_above hlink
          rw [List.append_cons] at hlink
          obtain ⟨r, hr, hl⟩ := link_mem_rounds hwf hu hchild hlink
          exact hfixed.links r (List.mem_append_left _ hr) target hl
    refine ⟨⟨mode, hroot, ?_⟩, hlinks⟩
    have hfix := makeWorldReadable_fixes hwf (plain_children hlinks) hu
    have hshape := makeWorldReadable_shape hu
    have hchrome' := hfix.lookup_chrome hwf hchrome
    rw [chmodChrome_file (hshape.wf hwf) hchrome'] at hpass
    injection hpass with hpass
    apply hfixed.dirs []
    rw [← hpass, List.append_nil, FileTree.lookup_setMode, if_neg (by simp), hfix.lookup_root, hroot]
  · rintro ⟨⟨mode', hroot', hmode⟩, hlinks⟩
    obtain ⟨fuel, u, hu⟩ := makeWorldReadable_total hwf (plain_children hlinks)
    exact ⟨fuel, _, fixed_of_plain hwf hchrome hroot' hmode hlinks hu⟩

end

/-! ## A tree that is fixed and one that is not -/

/-- An archive with one top-level folder. -/
def folderTree : FileTree where
  mode := 0o755
  entries := [(["app"], .dir 0o775), (["app", "chrome"], .file [] 0o700),
    (["app", "locales"], .dir 0o700), (["app", "locales", "en.pak"], .file [] 0o600)]

theorem permissions_fixed_iff_folderTree : ∃ fuel t', Fixed fuel folderTree t' ["app"] := by
  have hwf : folderTree.Wf := by
    refine ⟨by decide, ?_⟩
    intro p hp
    simp only [FileTree.paths, folderTree, List.map_cons, List.map_nil, List.mem_cons,
      List.not_mem_nil, or_false] at hp
    rcases hp with rfl | rfl | rfl | rfl <;> exact ⟨_, rfl⟩
  refine (permissions_fixed_iff (c := []) (m := 0o700) hwf rfl).mpr ⟨⟨0o775, rfl, by decide⟩, ?_⟩
  intro q target h
  have hmem := FileTree.mem_entries_of_lookup (by simp) h
  simp [folderTree] at hmem

/-- An archive with a versioned library: a link next to the file it names. -/
def libraryTree : FileTree where
  mode := 0o755
  entries := [(["chrome"], .file [] 0o755), (["lib.so"], .file [] 0o644),
    (["lib.so.1"], .link ⟨false, ["lib.so"]⟩)]

/-- The library ends up writable by all. -/
theorem unfixed_libraryTree :
    libraryTree.Wf ∧ locate false none libraryTree = .ok (.inside []) ∧
      libraryTree.lookup ["chrome"] = some (.file [] 0o755) ∧
      ((permissionPass 3 libraryTree []).bind fun t => t.lookup ["lib.so"]) =
        some (.file [] 0o777) ∧
      ¬ ∃ fuel t', Fixed fuel libraryTree t' [] := by
  have hwf : libraryTree.Wf := by
    refine ⟨by decide, ?_⟩
    intro p hp
    simp only [FileTree.paths, libraryTree, List.map_cons, List.map_nil, List.mem_cons,
      List.not_mem_nil, or_false] at hp
    rcases hp with rfl | rfl | rfl <;> exact ⟨_, rfl⟩
  refine ⟨hwf, by decide, by decide, by decide, ?_⟩
  rintro ⟨fuel, t', hfixed⟩
  -- any pass that ends handles the link
  obtain ⟨u, hu, -⟩ := Option.bind_eq_some_iff.mp hfixed.passed
  have hlink : libraryTree.lookup (["lib.so.1"] ++ []) =
      some (.link ⟨false, ["lib.so"]⟩) := by decide
  obtain ⟨r, hr, hl⟩ := link_mem_rounds hwf hu (by decide) hlink
  exact hfixed.links r (List.mem_append_left _ hr) _ hl

end Pinokio.BrowserArchive
