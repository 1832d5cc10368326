import FileDigest.Proofs.Tree.Reference

/-!
# Directories in another order

Nothing but a walk sees the order in which a directory enumerates its entries. A
path is followed by asking directories for names, so on two disks with the same
nodes in the same positions every path leads to the same position
(`Disk.Reordered.locate_bare`), a file has the same status and content under it,
and a root names the same tree up to this order
(`Disk.Reordered.exists_treeAt`).

`Node.Alike` compares two trees position by position. A directory is compared by
its `face`, which leaves out its entries: those are at positions of their own.
-/

namespace FileDigest

namespace Node

/-- A node without the entries of a directory. -/
def face : Node → Node
  | directory id listable _ => directory id listable []
  | n => n

/-- The same nodes lie at the same positions, so the trees differ at most in the
order of the entries of their directories. -/
def Alike (n m : Node) : Prop :=
  ∀ names, (n.at? names).map face = (m.at? names).map face

variable {n m : Node}

theorem Alike.refl (n : Node) : n.Alike n := fun _ => rfl

theorem Alike.symm (h : n.Alike m) : m.Alike n := fun names => (h names).symm

theorem Alike.face_eq (h : n.Alike m) : n.face = m.face := by
  simpa using h []

/-- A position has a node in both trees or in neither, and the nodes are alike
again. -/
theorem Alike.at?_cases (h : n.Alike m) (names : List Bytes) :
    (n.at? names = none ∧ m.at? names = none) ∨
      ∃ n' m', n.at? names = some n' ∧ m.at? names = some m' ∧ n'.Alike m' := by
  have hmap := h names
  cases hn : n.at? names with
  | none =>
      rw [hn] at hmap
      exact Or.inl ⟨rfl, Option.map_eq_none_iff.1 hmap.symm⟩
  | some n' =>
      rw [hn] at hmap
      obtain ⟨m', hm, -⟩ := Option.map_eq_some_iff.1 hmap.symm
      refine Or.inr ⟨n', m', rfl, hm, fun more => ?_⟩
      have hmore := h (names ++ more)
      rwa [at?_append, at?_append, hn, hm, Option.bind_some, Option.bind_some]
        at hmore

theorem Alike.at? (h : n.Alike m) {names : List Bytes} {n' m' : Node}
    (hn : n.at? names = some n') (hm : m.at? names = some m') :
    n'.Alike m' := by
  rcases h.at?_cases names with ⟨hnone, -⟩ | ⟨n'', m'', hn', hm', halike⟩
  · cases hn.symm.trans hnone
  · cases hn.symm.trans hn'
    cases hm.symm.trans hm'
    exact halike

theorem Alike.exists_at? (h : n.Alike m) {names : List Bytes} {n' : Node}
    (hn : n.at? names = some n') : ∃ m', m.at? names = some m' ∧
    n'.Alike m' := by
  rcases h.at?_cases names with ⟨hnone, -⟩ | ⟨n'', m', hn', hm, halike⟩
  · cases hn.symm.trans hnone
  · cases hn.symm.trans hn'
    exact ⟨m', hm, halike⟩

theorem Alike.lookup {id id' : UInt64} {listable listable' : Bool}
    {entries entries' : List (Bytes × Node)}
    (h : (directory id listable entries).Alike
      (directory id' listable' entries')) (name : Bytes) :
    (entries.lookup name).map face = (entries'.lookup name).map face := by
  have hname := h [name]
  rw [at?_cons, at?_cons, child?, child?] at hname
  cases hl : entries.lookup name <;> cases hl' : entries'.lookup name <;>
    simp_all

theorem alike_of_perm (id : UInt64) (listable : Bool)
    {entries entries' : List (Bytes × Node)} (h : entries.Perm entries')
    (hnodup : (entries.map (·.1)).Nodup) :
    (directory id listable entries).Alike (directory id listable entries') := by
  intro names
  cases names with
  | nil => rfl
  | cons name names =>
      rw [at?_cons, at?_cons, child?, child?, lookup_perm h hnodup]

theorem Alike.at?_file (h : n.Alike m) {names : List Bytes} {id : UInt64}
    {modified : Timestamp} {content : Bytes}
    (hn : n.at? names = some (file id modified content)) :
    m.at? names = some (file id modified content) := by
  obtain ⟨m', hm, halike⟩ := h.exists_at? hn
  have hface := halike.face_eq
  rw [hm]
  cases m' with
  | file id' modified' content' => exact congrArg some hface.symm
  | _ => cases hface

theorem Alike.files_perm (h : n.Alike m) (hn : n.WellFormed)
    (hm : m.WellFormed) : n.files.Perm m.files := by
  rw [List.perm_ext_iff_of_nodup (nodup_files hn) (nodup_files hm)]
  rintro ⟨names, content⟩
  rw [mem_files_iff hn, mem_files_iff hm]
  exact exists₂_congr fun id modified => ⟨h.at?_file, h.symm.at?_file⟩

theorem isLink_iff_of_face_eq (h : n.face = m.face) : n.IsLink ↔ m.IsLink := by
  cases n <;> cases m <;> simp_all [face, IsLink]

end Node

/-- The end of a way, without the entries of a directory there. -/
def Spot.bare : Spot → Spot
  | there position node => there position node.face
  | absent position => absent position

namespace Disk

/-- The disks hold the same, but their directories may enumerate it in another
order. -/
structure Reordered (disk disk' : Disk) : Prop where
  working : disk.working = disk'.working
  alike : disk.root.Alike disk'.root

namespace Reordered

variable {disk disk' : Disk}
  {behind behind' : List Bytes → List Bytes → Except IoError Spot}

theorem symm (h : disk.Reordered disk') : disk'.Reordered disk :=
  ⟨h.working.symm, h.alike.symm⟩

theorem turn_eq (h : disk.Reordered disk') (position : List Bytes)
    (piece : Bytes) : disk.turn position piece = disk'.turn position piece := by
  unfold turn
  rcases h.alike.at?_cases position with ⟨hn, hm⟩ | ⟨n, m, hn, hm, hnm⟩
  · rw [hn, hm]
  · have hface := hnm.face_eq
    rw [hn, hm]
    cases n with
    | directory id listable entries =>
        cases m with
        | directory id' listable' entries' =>
            -- only the entry under the name of the piece is looked at, and of
            -- it only its face
            have hlookup := hnm.lookup piece
            dsimp only
            cases hl : entries.lookup piece with
            | none =>
                rw [hl] at hlookup
                rw [Option.map_eq_none_iff.1 hlookup.symm]
            | some c =>
                rw [hl] at hlookup
                obtain ⟨c', hl', hc⟩ := Option.map_eq_some_iff.1 hlookup.symm
                rw [hl']
                cases c <;> cases c' <;> simp_all [Node.face]
        | _ => cases hface
    | _ => cases m <;> simp_all [Node.face]

theorem followPieces_bare (h : disk.Reordered disk') (fl : Bool)
    (hbehind : ∀ start ts, (behind start ts).map Spot.bare =
      (behind' start ts).map Spot.bare)
    (position ps : List Bytes) :
    (disk.followPieces fl behind position ps).map Spot.bare =
      (disk'.followPieces fl behind' position ps).map Spot.bare := by
  induction ps generalizing position with
  | nil =>
      rw [followPieces_nil, followPieces_nil]
      rcases h.alike.at?_cases position with ⟨hn, hm⟩ | ⟨n, m, hn, hm, hnm⟩
      · rw [hn, hm]
      · rw [hn, hm]
        simp only [Except.map, Spot.bare, hnm.face_eq]
  | cons piece rest ih =>
      rw [followPieces_cons, followPieces_cons, h.turn_eq]
      cases disk'.turn position piece with
      | on position' => exact ih position'
      | link position' start target =>
          dsimp only
          split
          · rfl
          · exact hbehind start _
      | absent position' => rfl
      | error e => rfl

theorem follow_bare (h : disk.Reordered disk') (fl : Bool) (links : Nat)
    (position ps : List Bytes) :
    (disk.follow fl links position ps).map Spot.bare =
      (disk'.follow fl links position ps).map Spot.bare := by
  induction links generalizing position ps with
  | zero => exact h.followPieces_bare fl (fun _ _ => rfl) position ps
  | succ links ih => exact h.followPieces_bare fl ih position ps

/-- A path leads to the same position on both disks. -/
theorem locate_bare (h : disk.Reordered disk') (fl : Bool) (path : Path) :
    (disk.locate fl path).map Spot.bare =
      (disk'.locate fl path).map Spot.bare := by
  unfold locate
  rw [h.working]
  split
  · rfl
  · split
    · rfl
    · split
      · rfl
      · exact h.follow_bare fl linkLimit _ _

theorem find_face (h : disk.Reordered disk') (fl : Bool) (path : Path) :
    (disk.find fl path).map Node.face = (disk'.find fl path).map Node.face := by
  unfold find
  rcases Except.map_eq_map (h.locate_bare fl path) with ⟨e, hl, hl'⟩ |
    ⟨spot, spot', hl, hl', hbare⟩
  · rw [hl, hl']
  · rw [hl, hl']
    cases spot <;> cases spot' <;> simp_all [Spot.bare, Except.map]

theorem stat_content_eq (h : disk.Reordered disk') (path : Path) :
    disk.stat path = disk'.stat path ∧ disk.content path =
      disk'.content path := by
  unfold stat content
  rcases Except.map_eq_map (h.find_face true path) with ⟨e, hf, hf'⟩ |
    ⟨n, m, hf, hf', hface⟩
  · rw [hf, hf']
    exact ⟨rfl, rfl⟩
  · rw [hf, hf']
    cases n <;> cases m <;> simp_all [Node.face, statusOf]

theorem view_eq (h : disk.Reordered disk') : disk.view = disk'.view := by
  unfold view
  congr 1
  · funext path
    exact (h.stat_content_eq path).1
  · funext path
    rw [read, read, (h.stat_content_eq path).2]

theorem treeAt_face (h : disk.Reordered disk') (root : Path) :
    (disk.treeAt root).map Node.face = (disk'.treeAt root).map Node.face := by
  unfold treeAt
  rcases Except.map_eq_map (h.find_face false root) with ⟨e, hf, hf'⟩ |
    ⟨n, m, hf, hf', hface⟩
  · rw [hf, hf']
  · rw [hf, hf']
    cases n with
    | link target =>
        cases m with
        | link target' =>
            cases hface
            rcases Except.map_eq_map (h.find_face true root) with
              ⟨e, ht, ht'⟩ | ⟨n, m, ht, ht', hface⟩
            · rw [ht, ht']
            · rw [ht, ht']
              cases n <;> cases m <;> simp_all [Node.face, Except.map]
        | _ => cases hface
    | _ => cases m <;> simp_all [Node.face, Except.map]

/-- A root names the same tree on both disks, up to the order of the entries of
directories. -/
theorem exists_treeAt (h : disk.Reordered disk') {root : Path} {tree : Node}
    (htree : disk.treeAt root = .ok tree) :
    ∃ tree', disk'.treeAt root = .ok tree' ∧ tree.Alike tree' := by
  rcases Except.map_eq_map (h.treeAt_face root) with ⟨e, ht, -⟩ |
    ⟨n, tree', ht, htree', hface⟩
  · cases htree.symm.trans ht
  · cases htree.symm.trans ht
    refine ⟨tree', htree', ?_⟩
    by_cases hlink : tree.IsLink
    · have hsame : tree = tree' := by
        cases tree <;> cases tree' <;> simp_all [Node.face, Node.IsLink]
      rw [hsame]
      exact .refl tree'
    · obtain ⟨q, hq⟩ := find_eq_ok.1 (find_of_treeAt htree hlink)
      obtain ⟨q', hq'⟩ := find_eq_ok.1
        (find_of_treeAt htree' (mt (Node.isLink_iff_of_face_eq hface).2 hlink))
      have hbare := h.locate_bare true root
      rw [hq, hq'] at hbare
      obtain ⟨rfl, -⟩ := Spot.there.inj (Except.ok.inj hbare)
      exact h.alike.at? (at?_of_follow (locate_eq_there.1 hq).2.2.2)
        (at?_of_follow (locate_eq_there.1 hq').2.2.2)

end Reordered

end Disk

end FileDigest
