import FileDigest.Proofs.Disk.Order

/-!
# Where a walk comes to

A walk comes to the nodes below its root that lie behind directories it can list
(`Node.Reaches`), and what it visits is what these nodes are
(`Node.mem_walk_iff`): files, and directories that cannot be listed, at which it
fails. If it fails nowhere it comes to all positions of the tree, so that it
visits the files of the tree, and then the order of directories does not count
(`Disk.Reordered.forall_passable_walk`).

The files that a walk visits are some of the files of the tree, in their order.
Their paths relative to the root are told apart by their components, since no
directory has two entries of one name (`Disk.pairwise_relatives`).
-/

namespace FileDigest

def Visit.place : Visit → Path
  | file path _ => path
  | failed path _ => path

namespace Node

/-- What a walk visits when it comes to a node at a path, apart from the entries
of a directory. -/
def visit? (path : Path) : Node → Option Visit
  | file _ _ content =>
      some (.file path (if path.isShort
        then .known (UInt64.ofNat content.length) else .unknown))
  | directory _ listable _ =>
      if !path.isShort then some (.failure path .nameTooLong)
      else if !listable then some (.failure path .permissionDenied)
      else none
  | link _ => none
  | special _ => none

/-- A walk from a node at a path comes to a node at some names below it: every
directory on the way can be listed. -/
inductive Reaches : Path → Node → List Bytes → Node → Prop where
  | here (path : Path) (n : Node) : Reaches path n [] n
  | entry {path : Path} {id : UInt64} {entries : List (Bytes × Node)}
      {name : Bytes} {child n : Node}
      {names : List Bytes} (hshort : path.isShort = true)
        (hmem : (name, child) ∈ entries)
      (h : Reaches (path.join ⟨name⟩) child names n) :
      Reaches path (directory id true entries) (name :: names) n

theorem mem_walkEntries {path : Path} {entries : List (Bytes × Node)}
    {v : Visit} :
    v ∈ walkEntries path entries ↔ ∃ e ∈ entries,
      v ∈ e.2.walk (path.join ⟨e.1⟩) := by
  induction entries with
  | nil => simp
  | cons e entries ih =>
      obtain ⟨name, node⟩ := e
      rw [walkEntries_cons, List.mem_append, ih]
      simp

theorem walk_eq_singleton {path : Path} {n : Node} {v : Visit}
    (h : n.visit? path = some v) : n.walk path = [v] ∧ v.place = path := by
  cases n with
  | file id modified content =>
      cases h
      exact ⟨rfl, rfl⟩
  | directory id listable entries =>
      rw [visit?] at h
      rw [walk]
      split at h
      · cases h
        rw [if_pos ‹_›]
        exact ⟨rfl, rfl⟩
      · split at h
        · cases h
          rw [if_neg ‹_›, if_pos ‹_›]
          exact ⟨rfl, rfl⟩
        · cases h
  | link target => cases h
  | special id => cases h

theorem listable_of_visit?_eq_none {path : Path} {id : UInt64} {listable : Bool}
    {entries : List (Bytes × Node)}
    (h : (directory id listable entries).visit? path = none) :
    listable = true ∧ path.isShort = true := by
  rw [visit?] at h
  split at h
  · cases h
  · split at h
    · cases h
    · simp_all

theorem walk_directory {path : Path} (id : UInt64)
    (entries : List (Bytes × Node)) (hshort : path.isShort = true) :
    (directory id true entries).walk path = walkEntries path entries := by
  rw [walk, hshort]
  rfl

theorem mem_walk_iff {n : Node} {path : Path} {v : Visit} :
    v ∈ n.walk path ↔
      ∃ names m, Reaches path n names m ∧
      m.visit? (path.under names) = some v := by
  constructor
  · intro hv
    induction n using inductionOn generalizing path with
    | file id modified content =>
        rw [walk, List.mem_singleton] at hv
        subst hv
        exact ⟨[], _, .here _ _, rfl⟩
    | directory id listable entries ih =>
        cases hvisit : (directory id listable entries).visit? path with
        | some w =>
            rw [(walk_eq_singleton hvisit).1, List.mem_singleton] at hv
            subst hv
            exact ⟨[], _, .here _ _, hvisit⟩
        | none =>
            obtain ⟨rfl, hshort⟩ := listable_of_visit?_eq_none hvisit
            rw [walk_directory id entries hshort, mem_walkEntries] at hv
            obtain ⟨e, he, hv⟩ := hv
            obtain ⟨names, m, hreach, hm⟩ := ih e he hv
            exact ⟨e.1 :: names, m, .entry hshort he hreach, hm⟩
    | link target => cases hv
    | special id => cases hv
  · rintro ⟨names, m, hreach, hm⟩
    induction hreach with
    | here path n =>
        rw [Path.under_nil] at hm
        rw [(walk_eq_singleton hm).1]
        exact List.mem_singleton_self v
    | entry hshort hmem _ ih =>
        rw [walk_directory _ _ hshort, mem_walkEntries]
        exact ⟨_, hmem, ih hm⟩

variable {path : Path} {n m : Node} {names : List Bytes}

theorem Reaches.at?_eq (h : Reaches path n names m) (hn : n.WellFormed) :
    n.at? names = some m := by
  induction h with
  | here path n => rfl
  | @entry path id entries name child m names hshort hmem _ ih =>
      rw [at?_cons, child?, lookup_of_mem (hn [] id true entries rfl).1 hmem]
      exact ih (hn.of_mem hmem)

theorem Reaches.isName (h : Reaches path n names m) (hn : n.WellFormed) :
    ∀ name ∈ names, Path.IsName name := by
  induction h with
  | here path n => simp
  | @entry path id entries name child m names hshort hmem _ ih =>
      refine List.forall_mem_cons.2 ⟨(hn [] id true entries rfl).2 _ hmem, ?_⟩
      exact ih (hn.of_mem hmem)

/-- A walk that can list every directory it comes to comes to every position. -/
theorem reaches_of_at? (hall : ∀ names id listable entries,
      Reaches path n names (directory id listable entries) →
        listable = true ∧ (path.under names).isShort = true)
    (h : n.at? names = some m) : Reaches path n names m := by
  induction names generalizing path n with
  | nil =>
      cases h
      exact .here path _
  | cons name names ih =>
      rw [at?_cons] at h
      obtain ⟨child, hchild, hat⟩ := Option.bind_eq_some_iff.1 h
      cases n with
      | directory id listable entries =>
          obtain ⟨rfl, hshort⟩ := hall [] id listable entries (.here _ _)
          have hmem : (name, child) ∈ entries := mem_of_lookup hchild
          refine .entry hshort hmem
            (ih (fun names' id' listable' entries' hreach => ?_) hat)
          exact hall (name :: names') id' listable' entries'
            (.entry hshort hmem hreach)
      | _ => cases hchild

end Node

/-- A visit that is no failure, of a file of which something holds. -/
def Visit.Passable (p : Path → Prop) : Visit → Prop
  | file path _ => p path
  | failed _ _ => False

/-- A walk can go on at a node: a directory can be listed, and of a file
something holds. -/
def Node.Passable (p : Path → Prop) (path : Path) : Node → Prop
  | file _ _ _ => p path
  | directory _ listable _ => listable = true ∧ path.isShort = true
  | link _ => True
  | special _ => True

namespace Node

variable {p : Path → Prop} {path : Path} {n m : Node}

theorem passable_iff : n.Passable p path ↔ ∀ v, n.visit? path = some v →
    v.Passable p := by
  cases n with
  | file id modified content => simp [Passable, visit?, Visit.Passable]
  | directory id listable entries =>
      cases hshort : path.isShort <;> cases listable <;>
        simp [Passable, visit?, hshort, Visit.failure, Visit.Passable]
  | link target => simp [Passable, visit?]
  | special id => simp [Passable, visit?]

theorem passable_congr (h : n.face = m.face) : n.Passable p path ↔
    m.Passable p path := by
  cases n <;> cases m <;> simp_all [face, Passable]

theorem forall_passable_walk_iff :
    (∀ v ∈ n.walk path, v.Passable p) ↔
      ∀ names m, Reaches path n names m → m.Passable p (path.under names) := by
  constructor
  · intro hall names m hreach
    exact passable_iff.2 fun v hv =>
      hall v (mem_walk_iff.2 ⟨names, m, hreach, hv⟩)
  · intro hall v hv
    obtain ⟨names, m, hreach, hvisit⟩ := mem_walk_iff.1 hv
    exact passable_iff.1 (hall names m hreach) v hvisit

theorem forall_passable_iff (hn : n.WellFormed) :
    (∀ names m, Reaches path n names m → m.Passable p (path.under names)) ↔
      ∀ names m, n.at? names = some m → m.Passable p (path.under names) := by
  constructor
  · intro hall names m hat
    refine hall names m
      (reaches_of_at? (fun names' id listable entries hreach => ?_) hat)
    exact hall names' _ hreach
  · intro hall names m hreach
    exact hall names m (hreach.at?_eq hn)

theorem Alike.forall_passable_walk (h : n.Alike m) (hn : n.WellFormed)
    (hm : m.WellFormed) (hall : ∀ v ∈ n.walk path, v.Passable p) :
    ∀ v ∈ m.walk path, v.Passable p := by
  rw [forall_passable_walk_iff, forall_passable_iff hn] at hall
  rw [forall_passable_walk_iff, forall_passable_iff hm]
  intro names m' hm'
  obtain ⟨n', hn', halike⟩ := h.symm.exists_at? hm'
  exact (passable_congr halike.face_eq).2 (hall names n' hn')

end Node

def Visit.path? : Visit → Option Path
  | file path _ => some path
  | failed _ _ => none

def Visit.relatives (root : Path) (visits : List Visit) : List Path :=
  (visits.filterMap path?).map (·.below root)

namespace Node

theorem filterMap_walkEntries_sublist {entries : List (Bytes × Node)}
    {path : Path} (hentries : ∀ e ∈ entries, ∀ path,
      ((e.2.walk path).filterMap Visit.path?).Sublist
      (e.2.files.map fun f => path.under f.1)) :
    ((walkEntries path entries).filterMap Visit.path?).Sublist
      ((filesOf entries).map fun f => path.under f.1) := by
  induction entries with
  | nil => exact List.Sublist.slnil
  | cons e entries ih =>
      obtain ⟨name, node⟩ := e
      obtain ⟨hnode, hrest⟩ := List.forall_mem_cons.1 hentries
      rw [walkEntries_cons, filesOf_cons, List.filterMap_append,
        List.map_append, List.map_map]
      exact (hnode (path.join ⟨name⟩)).append (ih hrest)

theorem filterMap_walk_sublist (n : Node) (path : Path) :
    ((n.walk path).filterMap Visit.path?).Sublist (n.files.map fun f =>
      path.under f.1) := by
  induction n using inductionOn generalizing path with
  | file id modified content => exact List.Sublist.refl _
  | directory id listable entries ih =>
      rw [walk, files]
      split
      · exact List.nil_sublist _
      · split
        · exact List.nil_sublist _
        · exact filterMap_walkEntries_sublist fun e he path => ih e he path
  | link target => exact List.Sublist.refl _
  | special id => exact List.Sublist.refl _

end Node

namespace Disk

variable {disk : Disk} {root : Path} {tree : Node}

theorem walk_of_treeAt_error {e : IoError} (h : disk.treeAt root = .error e) :
    disk.walk root = [.failure root e] := by
  unfold treeAt at h
  unfold walk
  cases hfalse : disk.find false root with
  | error e' =>
      rw [hfalse] at h
      cases h
      rfl
  | ok node =>
      rw [hfalse] at h
      cases node with
      | link target =>
          cases htrue : disk.find true root with
          | error e' =>
              rw [htrue] at h
              cases h
              rfl
          | ok node' =>
              rw [htrue] at h
              cases node' <;> cases h
      | _ => cases h

/-- A walk over a disk goes on at every visit exactly if the root is found and
the walk can go on at every node that it comes to. -/
theorem forall_passable_walk_iff {p : Path → Prop} :
    (∀ v ∈ disk.walk root, v.Passable p) ↔ ∃ tree, disk.treeAt root = .ok tree ∧
      ∀ names n, Node.Reaches root tree names n →
      n.Passable p (root.under names) := by
  cases h : disk.treeAt root with
  | error e =>
      rw [walk_of_treeAt_error h]
      simp [Visit.failure, Visit.Passable]
  | ok tree =>
      rw [walk_of_treeAt h, Node.forall_passable_walk_iff]
      simp only [Except.ok.injEq, exists_eq_left']

theorem walk_eq_visits {p : Path → Prop}
    (hall : ∀ v ∈ disk.walk root, v.Passable p) :
    ∃ tree, disk.treeAt root = .ok tree ∧ disk.walk root =
      tree.files.map (Node.visit root) := by
  obtain ⟨tree, h, -⟩ := forall_passable_walk_iff.1 hall
  refine ⟨tree, h, ?_⟩
  rw [walk_of_treeAt h] at hall ⊢
  exact Node.walk_eq fun path cause hmem => hall _ hmem

/-- A root of a disk on which no directory has two entries of one name leads to
such a tree. -/
theorem wellFormed_treeAt (hdisk : disk.root.WellFormed)
    (h : disk.treeAt root = .ok tree) : tree.WellFormed := by
  by_cases hlink : tree.IsLink
  · cases tree with
    | link target => exact Node.wellFormed_link target
    | _ => exact absurd hlink (fun hlink => hlink)
  · obtain ⟨q, hq⟩ := find_eq_ok.1 (find_of_treeAt h hlink)
    have hat := at?_of_follow (locate_eq_there.1 hq).2.2.2
    intro names id listable entries hnode
    refine hdisk (q ++ names) id listable entries ?_
    rw [Node.at?_append, hat]
    exact hnode

/-- Whether a walk can go on everywhere does not hang on the order of
directories. -/
theorem Reordered.forall_passable_walk {disk' : Disk} {p : Path → Prop}
    (h : disk.Reordered disk') (hdisk : disk.root.WellFormed)
    (hdisk' : disk'.root.WellFormed) (hall : ∀ v ∈ disk.walk root,
      v.Passable p) : ∀ v ∈ disk'.walk root, v.Passable p := by
  obtain ⟨tree, htree, -⟩ := forall_passable_walk_iff.1 hall
  obtain ⟨tree', htree', halike⟩ := h.exists_treeAt htree
  rw [walk_of_treeAt htree] at hall
  rw [walk_of_treeAt htree']
  exact halike.forall_passable_walk (wellFormed_treeAt hdisk htree)
    (wellFormed_treeAt hdisk' htree') hall

theorem bytes_ne_nil_of_mem_files (h : disk.treeAt root = .ok tree)
    {f : List Bytes × Bytes} (hf : f ∈ tree.files) : root.bytes ≠ [] := by
  refine bytes_ne_nil_of_find (find_of_treeAt h fun hlink => ?_)
  cases tree with
  | link target => cases hf
  | _ => exact hlink

theorem below_of_mem_files (hdisk : disk.root.WellFormed)
    (h : disk.treeAt root = .ok tree) {f : List Bytes × Bytes}
    (hf : f ∈ tree.files) : (root.under f.1).below root = .ofNames f.1 :=
  Path.below_under (bytes_ne_nil_of_mem_files h hf)
    (Node.isName_of_mem_files (wellFormed_treeAt hdisk h) hf)

/-- No two files of a walk have the same path relative to the root, however the
root is spelled. -/
theorem pairwise_relatives (hdisk : disk.root.WellFormed) (root : Path) :
    (Visit.relatives root (disk.walk root)).Pairwise fun p q =>
      p.same q = false := by
  cases h : disk.treeAt root with
  | error e =>
      rw [walk_of_treeAt_error h]
      exact List.Pairwise.nil
  | ok tree =>
      have hwf := wellFormed_treeAt hdisk h
      have hnames : ∀ f ∈ tree.files, ∀ name ∈ f.1, Path.IsName name :=
        fun f hf => Node.isName_of_mem_files hwf hf
      have hbelow : (tree.files.map fun f => root.under f.1).map
          (·.below root) =
          tree.files.map fun f => Path.ofNames f.1 := by
        rw [List.map_map]
        exact List.map_congr_left fun f hf => below_of_mem_files hdisk h hf
      have hsub := (tree.filterMap_walk_sublist root).map (·.below root)
      rw [hbelow] at hsub
      rw [Visit.relatives, walk_of_treeAt h]
      refine List.Pairwise.sublist hsub ?_
      have hdistinct : tree.files.Pairwise fun f g => f.1 ≠ g.1 :=
        List.pairwise_map.1 (Node.nodup_names_files hwf)
      refine List.pairwise_map.2
        (hdistinct.imp_of_mem fun {f g} hf hg hne => ?_)
      refine Bool.eq_false_iff.2 fun hsame => hne ?_
      exact Path.same_ofNames (hnames f hf) (hnames g hg) hsame

theorem exists_under_of_mem_walk (hdisk : disk.root.WellFormed) {v : Visit}
    (h : v ∈ disk.walk root) :
    ∃ names, (∀ name ∈ names, Path.IsName name) ∧
    v.place = root.under names := by
  cases htree : disk.treeAt root with
  | error e =>
      rw [walk_of_treeAt_error htree, List.mem_singleton] at h
      subst h
      exact ⟨[], by simp, rfl⟩
  | ok tree =>
      rw [walk_of_treeAt htree] at h
      obtain ⟨names, m, hreach, hm⟩ := Node.mem_walk_iff.1 h
      exact ⟨names, hreach.isName (wellFormed_treeAt hdisk htree),
        (Node.walk_eq_singleton hm).2⟩

end Disk

end FileDigest
