import FileDigest.Proofs.Aggregate.Accepted
import FileDigest.Proofs.Disk.Resolution
import FileDigest.Proofs.Process.Stores
import FileDigest.Proofs.Resolver.Uninterrupted
import FileDigest.Proofs.Tree.Files
import FileDigest.Proofs.Tree.Visits

/-!
# What the digest of a tree is

The digest of a tree is the exclusive or, over its regular files, of a hash of
the names that lead to the file together with the hash of its content. Neither
the order in which directories are enumerated nor the spelling of the root shows
in it.

The walk visits the files of the tree under paths of the root and names, and
each of these paths leads back to the file. The store may be in use; as long as
it holds only digests that match the files as they are, a visit finds the digest
of the content whether the store answers or not, and what it puts in matches
again, because no two visited paths have the same components. The aggregate
refuses none of them for the same reason.
-/

namespace FileDigest

/-- What a file contributes to the digest of a tree: its names, preceded by the
length of what they are written as, and the hash of its content. -/
def fileHash (f : List Bytes × Bytes) : Bytes :=
  let rel := List.intercalate [Path.slash] f.1
  Blake3.hash (Bytes.littleEndian 8 rel.length ++ rel ++ Blake3.hash f.2)

def referenceDigest (files : List (List Bytes × Bytes)) : Digest :=
  files.foldl (fun total f => List.zipWith (· ^^^ ·) total (fileHash f))
    (List.replicate 32 0)

theorem contribution_ofNames (names : List Bytes) (content : Bytes) :
    contribution (.ofNames names) (Blake3.hash content) =
      fileHash (names, content) := rfl

theorem length_fileHash (f : List Bytes × Bytes) : (fileHash f).length = 32 :=
  Blake3.length_hash _

theorem length_of_mem_fileHashes {files : List (List Bytes × Bytes)} :
    ∀ x ∈ files.map fileHash, x.length = 32 := by
  intro x hx
  obtain ⟨f, -, rfl⟩ := List.mem_map.1 hx
  exact length_fileHash f

theorem referenceDigest_eq (files : List (List Bytes × Bytes)) :
    referenceDigest files = Bytes.xorAll 32 (files.map fileHash) := by
  rw [referenceDigest, Bytes.xorAll, List.foldl_map]

theorem referenceDigest_perm {files files' : List (List Bytes × Bytes)}
    (h : files.Perm files') :
    referenceDigest files = referenceDigest files' := by
  rw [referenceDigest_eq, referenceDigest_eq]
  exact Bytes.xorAll_perm length_of_mem_fileHashes (h.map fileHash)

/-- What an aggregate that has taken in the files gives in the end. -/
theorem finish_files (files : List (List Bytes × Bytes)) (seen : List Path) :
    UnorderedDigest.finish
        ⟨files.foldl (fun t f => Bytes.combineInto t (fileHash f)) [], seen⟩ =
      referenceDigest files := by
  have hfold : files.foldl (fun t f => Bytes.combineInto t (fileHash f)) [] =
      (files.map fileHash).foldl Bytes.combine [] := by
    rw [List.foldl_map]
    simp only [Bytes.combineInto_eq_combine]
  rw [hfold, referenceDigest_eq,
    UnorderedDigest.finish_foldl_combine length_of_mem_fileHashes]

/-- A digest under a key is the digest of the content of every file, of some
given ones, that has an equal key now. -/
def FileView.Fits (view : FileView) (among : Path → Prop) (k : CacheKey)
    (d : Digest) : Prop :=
  ∀ path status, among path → view.stat path = .ok status →
    (k == ⟨path, status⟩) = true → view.read path = .ok (some d)

/-- The store in use of a cache, if there is one, holds only digests that
fit. -/
def Site.Matches (view : FileView) (among : Path → Prop) (i : Nat)
    (s : Site) : Prop :=
  ∀ st, (s.cache i).inUse = some st → st.All (view.Fits among)

theorem FileView.Fits.of_beq {view : FileView} {among : Path → Prop}
    {j k : CacheKey} {d : Digest} (hjk : (j == k) = true)
    (h : view.Fits among j d) : view.Fits among k d :=
  fun path status hpath hstat hk => h path status hpath hstat (BEq.trans hjk hk)

namespace Site

variable {view : FileView} {among : Path → Prop} {s : Site}

theorem Matches.access {i g : Nat} (hs : s.Matches view among i) {a : Access}
    (ha : ∀ k d, a = .put k d → view.Fits among k d) {s' : Site}
    (hs' : s'.cache i = a.toGeneration g (s.cache i)) :
    s'.Matches view among i := by
  intro st hst
  rw [hs', Access.inUse_toGeneration] at hst
  split at hst
  · obtain ⟨st₀, hst₀, rfl⟩ := Option.map_eq_some_iff.1 hst
    cases a with
    | ask k => exact (hs st₀ hst₀).get (fun _ _ _ => FileView.Fits.of_beq) k
    | put k d => exact (hs st₀ hst₀).insert (ha k d rfl)
  · exact hs st hst

theorem Matches.answer {i g : Nat} (hs : s.Matches view among i)
    (hg : (s.cache i).current = some g) {path : Path} (hpath : among path)
    {status : FileStatus} (hstat : view.stat path = .ok status) {d : Digest}
    (h : ((s.cache i).getAt g ⟨path, status⟩).1 = some d) :
    view.read path = .ok (some d) := by
  have huse := Cache.inUse_of_current hg
  unfold Cache.getAt at h
  split at h
  · have hfits :=
      (hs _ (huse.trans ‹_›)).answer (fun _ _ _ => FileView.Fits.of_beq) h
    exact hfits path status hpath hstat BEq.rfl
  · cases h

/-- A computation on a file finds the digest of its content, and the store
matches as before. -/
theorem Matches.compute {r : Resolver} (hs : s.Matches view among r.cache)
    (hamong : ∀ p q, among p → among q → p.components = q.components → p = q)
    {path : Path} (hpath : among path) (size : SizeHint)
    {status : FileStatus} {d : Digest} (hstat : view.stat path = .ok status)
    (hread : view.read path = .ok (some d)) :
    (s.compute view r path size).1 = .digest d ∧
      (s.compute view r path size).2.Matches view among r.cache := by
  have hout : view.outcome path size = .digest d :=
    FileView.outcome_eq_digest_iff.2 hread
  unfold Site.compute
  cases hg : (s.cache r.cache).current with
  | none => exact ⟨hout, hs⟩
  | some g =>
      simp only [hstat]
      have hasked : (s.setCache r.cache
          ((s.cache r.cache).getAt g ⟨path, status⟩).2).Matches view
            among r.cache :=
        hs.access (a := .ask ⟨path, status⟩) (fun k d h => by cases h)
          (cache_setCache_getAt s r.cache g ⟨path, status⟩)
      cases hfound : ((s.cache r.cache).getAt g ⟨path, status⟩).1 with
      | some d' =>
          have hd' := hs.answer hg hpath hstat hfound
          rw [hread, Except.ok.injEq, Option.some.injEq] at hd'
          exact ⟨by rw [hd'], hasked⟩
      | none =>
          refine ⟨hout, ?_⟩
          rw [hread]
          -- the key that is put in is the current key of no other file
          have hfits : view.Fits among ⟨path, status⟩ d := by
            intro path' status' hpath' hstat' hk
            have hcomponents : path.components = path'.components :=
              congrArg Prod.fst (CacheKey.beq_iff.1 hk)
            rw [← hamong path path' hpath hpath' hcomponents]
            exact hread
          refine hasked.access (a := .put ⟨path, status⟩ d) (fun k d' h => ?_)
            (cache_setCache_insertAt _ r.cache g ⟨path, status⟩ d)
          cases h
          exact hfits

end Site

/-- The tree that a root names: a link there is followed when it leads to a
directory, and otherwise holds no files. -/
def Disk.treeAt (disk : Disk) (root : Path) : Except IoError Node :=
  match disk.find false root with
  | .ok (.link target) =>
      match disk.find true root with
      | .ok (.directory id listable entries) =>
          .ok (.directory id listable entries)
      | .ok _ => .ok (.link target)
      | .error e => .error e
  | found => found

def Disk.Visited (disk : Disk) (root path : Path) : Prop :=
  ∃ size, Visit.file path size ∈ disk.walk root

/-- A root names a well-formed tree of which everything can be read, no large
read is under way, and the cache is off or holds only digests that match the
files of the tree. -/
structure Disk.Digestible (disk : Disk) (root : Path) (tree : Node)
    (r : Resolver) (s : Site) : Prop where
  treeAt : disk.treeAt root = .ok tree
  wellFormed : tree.WellFormed
  readable : ∀ v ∈ disk.walk root, ∃ path size content,
    v = .file path size ∧ disk.content path = .ok content
  gate : (s.gate r.gate).held = false
  fits : s.Matches disk.view (disk.Visited root) r.cache

namespace Disk

variable {disk : Disk} {root : Path} {tree : Node} {r : Resolver} {s : Site}

theorem walk_of_treeAt (h : disk.treeAt root = .ok tree) :
    disk.walk root = tree.walk root := by
  unfold treeAt at h
  unfold walk
  cases hfalse : disk.find false root with
  | error e =>
      rw [hfalse] at h
      cases h
  | ok node =>
      rw [hfalse] at h
      cases node with
      | link target =>
          cases htrue : disk.find true root with
          | error e =>
              rw [htrue] at h
              cases h
          | ok node' =>
              rw [htrue] at h
              cases node' <;> cases h <;> rfl
      | _ =>
          cases h
          rfl

theorem find_of_treeAt (h : disk.treeAt root = .ok tree)
    (hlink : ¬ tree.IsLink) : disk.find true root = .ok tree := by
  unfold treeAt at h
  cases hfalse : disk.find false root with
  | error e =>
      rw [hfalse] at h
      cases h
  | ok node =>
      rw [hfalse] at h
      cases node with
      | link target =>
          cases htrue : disk.find true root with
          | error e =>
              rw [htrue] at h
              cases h
          | ok node' =>
              rw [htrue] at h
              cases node' with
              | directory id listable entries =>
                  cases h
                  rfl
              | _ =>
                  cases h
                  exact absurd trivial hlink
      | _ =>
          cases h
          exact find_of_not_isLink hfalse hlink

theorem bytes_ne_nil_of_find {fl : Bool} {path : Path} {n : Node}
    (h : disk.find fl path = .ok n) :
    path.bytes ≠ [] := by
  obtain ⟨q, hq⟩ := find_eq_ok.1 h
  exact (locate_eq_there.1 hq).2.1

namespace Digestible

theorem walk_eq (h : disk.Digestible root tree r s) :
    disk.walk root = tree.files.map (Node.visit root) := by
  rw [walk_of_treeAt h.treeAt]
  refine Node.walk_eq fun path cause hmem => ?_
  rw [← walk_of_treeAt h.treeAt] at hmem
  obtain ⟨path', size, content, heq, -⟩ := h.readable _ hmem
  cases heq

theorem visited_iff (h : disk.Digestible root tree r s) {path : Path} :
    disk.Visited root path ↔ ∃ f ∈ tree.files, root.under f.1 = path := by
  unfold Visited
  rw [h.walk_eq]
  constructor
  · rintro ⟨size, hmem⟩
    obtain ⟨f, hf, heq⟩ := List.mem_map.1 hmem
    exact ⟨f, hf, (Visit.file.inj heq).1⟩
  · rintro ⟨f, hf, rfl⟩
    exact ⟨_, List.mem_map.2 ⟨f, hf, rfl⟩⟩

theorem find_file (h : disk.Digestible root tree r s) {f : List Bytes × Bytes}
    (hf : f ∈ tree.files) :
    root.bytes ≠ [] ∧
      ∃ id modified, disk.find true (root.under f.1) =
        .ok (.file id modified f.2) := by
  have hlink : ¬ tree.IsLink := by
    intro hlink
    cases tree with
    | link target => cases hf
    | _ => exact hlink
  have hroot := find_of_treeAt h.treeAt hlink
  have hvisit : Node.visit root f ∈ disk.walk root := by
    rw [h.walk_eq]
    exact List.mem_map.2 ⟨f, hf, rfl⟩
  obtain ⟨path, size, content, heq, hcontent⟩ := h.readable _ hvisit
  rw [← (Visit.file.inj heq).1] at hcontent
  obtain ⟨id, modified, hfind⟩ := find_of_content hcontent
  obtain ⟨id', modified', hat⟩ := (Node.mem_files_iff h.wellFormed).1 hf
  have hsame := find_under hroot hat (fun hlink => hlink)
    (Node.isName_of_mem_files h.wellFormed hf) hfind
  refine ⟨bytes_ne_nil_of_find hroot, id, modified, ?_⟩
  rw [hfind, (Node.file.inj hsame).2.2]

theorem stat_read (h : disk.Digestible root tree r s) {f : List Bytes × Bytes}
    (hf : f ∈ tree.files) :
    (∃ status, disk.view.stat (root.under f.1) = .ok status) ∧
      disk.view.read (root.under f.1) = .ok (some (Blake3.hash f.2)) := by
  obtain ⟨-, id, modified, hfind⟩ := h.find_file hf
  constructor
  · refine ⟨statusOf (.file id modified f.2), ?_⟩
    change disk.stat (root.under f.1) = _
    rw [Disk.stat, hfind]
  · change disk.read (root.under f.1) = _
    rw [Disk.read, Disk.content, hfind]

/-- Files that are visited under paths with the same components are visited
under the same path. -/
theorem visited_inj (h : disk.Digestible root tree r s) (p q : Path)
    (hp : disk.Visited root p) (hq : disk.Visited root q)
    (hpq : p.components = q.components) :
    p = q := by
  obtain ⟨f, hf, rfl⟩ := h.visited_iff.1 hp
  obtain ⟨g, hg, rfl⟩ := h.visited_iff.1 hq
  obtain ⟨hroot, -⟩ := h.find_file hf
  rw [Path.components_under hroot (Node.isName_of_mem_files h.wellFormed hf),
    Path.components_under hroot (Node.isName_of_mem_files h.wellFormed hg)]
      at hpq
  have hnames : f.1 = g.1 :=
    (List.map_inj_right fun _ _ => Component.name.inj).1
      (List.append_cancel_left hpq)
  rw [hnames]

end Digestible

theorem add_ofNames (total d : Digest) {names : List Bytes}
    {seen : List (List Bytes)} (hnames : ∀ name ∈ names, Path.IsName name)
    (hseen : ∀ ns ∈ seen, ∀ name ∈ ns, Path.IsName name) (hnew : names ∉ seen) :
    (UnorderedDigest.mk total (seen.map .ofNames)).add (.ofNames names) d =
      .ok ⟨Bytes.combineInto total (contribution (.ofNames names) d),
        (names :: seen).map .ofNames⟩ := by
  have hnot : (UnorderedDigest.mk total (seen.map .ofNames)).contains
      (.ofNames names) = false := by
    rw [UnorderedDigest.contains, List.any_eq_false]
    intro p hp hsame
    obtain ⟨ns, hns, rfl⟩ := List.mem_map.1 hp
    exact hnew (Path.same_ofNames (hseen ns hns) hnames hsame ▸ hns)
  rw [UnorderedDigest.add, hnot]
  rfl

/-- The files of a tree are digested one after another, whatever the aggregate
holds of other files of the tree already. -/
theorem Digestible.digestVisits (h : disk.Digestible root tree r s)
    {files : List (List Bytes × Bytes)} (hfiles : ∀ f ∈ files, f ∈ tree.files)
    (hnodup : (files.map (·.1)).Nodup) {seen : List (List Bytes)}
    (hseen : ∀ names ∈ seen, names ∉ files.map (·.1))
    (hnames : ∀ names ∈ seen, ∀ name ∈ names, Path.IsName name)
    (total : Digest) {site : Site} (hgate : (site.gate r.gate).held = false)
    (hsite : site.Matches disk.view (disk.Visited root) r.cache)
    (fast : Path → Except IoError (Option Digest)) :
    ((disk.view.host fast).withoutFast.digestVisits r root
      (files.map (Node.visit root))
        ⟨total, seen.map .ofNames⟩ site).1 =
      some (.digest (UnorderedDigest.finish
        ⟨files.foldl (fun t f => Bytes.combineInto t (fileHash f)) total,
          []⟩)) := by
  induction files generalizing seen total site with
  | nil => rfl
  | cons f files ih =>
      have hf := hfiles f List.mem_cons_self
      obtain ⟨⟨status, hstat⟩, hread⟩ := h.stat_read hf
      obtain ⟨hroot, -⟩ := h.find_file hf
      have hfnames := Node.isName_of_mem_files h.wellFormed hf
      have hvisited : disk.Visited root (root.under f.1) :=
        h.visited_iff.2 ⟨f, hf, rfl⟩
      have hone : ∀ size, (disk.view.host fast).withoutFast.digestWithFallback r
          (root.under f.1) size site =
            (some (site.compute disk.view r (root.under f.1) size).1,
              (site.compute disk.view r (root.under f.1) size).2) :=
        fun size => Site.computeManually_host hgate (root.under f.1) size
      have hadd := add_ofNames total (Blake3.hash f.2) hfnames hnames
        fun hmem => hseen f.1 hmem List.mem_cons_self
      rw [contribution_ofNames] at hadd
      rw [List.map_cons, Node.visit, Host.digestVisits_file, hone]
      obtain ⟨hdigest, hnext⟩ := hsite.compute h.visited_inj hvisited
        (if (root.under f.1).isShort then .known (UInt64.ofNat f.2.length)
          else .unknown)
        hstat hread
      rw [hdigest, Path.below_under hroot hfnames]
      dsimp only
      rw [hadd]
      rw [List.map_cons, List.nodup_cons] at hnodup
      refine ih (fun g hg => hfiles g (List.mem_cons_of_mem f hg)) hnodup.2
        ?_ ?_ _ ?_ hnext
      · intro names hmem hin
        rcases List.mem_cons.1 hmem with rfl | hmem
        · exact hnodup.1 hin
        · exact hseen names hmem (List.mem_cons_of_mem _ hin)
      · intro names hmem
        rcases List.mem_cons.1 hmem with rfl | hmem
        · exact hfnames
        · exact hnames names hmem
      · rw [Site.gate_compute]
        exact hgate

theorem Digestible.digestTree_eq (h : disk.Digestible root tree r s)
    (fast : Path → Except IoError (Option Digest)) :
    ((disk.view.host fast).withoutFast.digestTree r root (disk.walk root) s).1 =
      some (.digest (referenceDigest tree.files)) := by
  have hnone : ∀ names ∈ ([] : List (List Bytes)),
      names ∉ tree.files.map (·.1) := by simp
  have hdigest := h.digestVisits (fun _ hf => hf)
    (Node.nodup_names_files h.wellFormed) hnone (by simp)
    [] h.gate h.fits fast
  rw [finish_files] at hdigest
  rw [Host.digestTree, h.walk_eq]
  exact hdigest

theorem Digestible.files_perm (h : disk.Digestible root tree r s)
    {files : List (List Bytes × Bytes)} (hnodup : files.Nodup)
    (hfiles : ∀ names content, (names, content) ∈ files ↔
      ∃ id modified, tree.at? names = some (.file id modified content)) :
    tree.files.Perm files := by
  rw [List.perm_ext_iff_of_nodup (Node.nodup_files h.wellFormed) hnodup]
  rintro ⟨names, content⟩
  rw [Node.mem_files_iff h.wellFormed, hfiles]

/-- The digest of a tree is what the reference says of its files, in whichever
order they are listed. So two trees with the same files have the same digest,
wherever they are and however their roots are spelled. -/
theorem digestTree_eq_reference (h : disk.Digestible root tree r s)
    (fast : Path → Except IoError (Option Digest)) :
    (∀ files : List (List Bytes × Bytes), files.Nodup →
      (∀ names content, (names, content) ∈ files ↔
        ∃ id modified, tree.at? names = some (.file id modified content)) →
      ((disk.view.host fast).withoutFast.digestTree r root
        (disk.walk root) s).1 =
        some (.digest (referenceDigest files))) ∧
    ∀ (disk' : Disk) (root' : Path) (tree' : Node) (r' : Resolver) (s' : Site)
      (fast' : Path → Except IoError (Option Digest)),
        disk'.Digestible root' tree' r' s' →
      (∀ names content,
        (∃ id modified, tree.at? names = some (.file id modified content)) ↔
        ∃ id modified, tree'.at? names = some (.file id modified content)) →
      ((disk.view.host fast).withoutFast.digestTree r root
        (disk.walk root) s).1 =
        ((disk'.view.host fast').withoutFast.digestTree r' root'
          (disk'.walk root') s').1 := by
  constructor
  · intro files hnodup hfiles
    rw [h.digestTree_eq, referenceDigest_perm (h.files_perm hnodup hfiles)]
  · intro disk' root' tree' r' s' fast' h' hsame
    have hperm : tree.files.Perm tree'.files := by
      refine h.files_perm (Node.nodup_files h'.wellFormed) fun names content =>
        ?_
      rw [Node.mem_files_iff h'.wellFormed, hsame]
    rw [h.digestTree_eq, h'.digestTree_eq, referenceDigest_perm hperm]

def fileEntry : Bytes × Node :=
  (Bytes.ofText "a", .file 4 .epoch [1])

def directoryEntry : Bytes × Node :=
  (Bytes.ofText "s", .directory 5 true [(Bytes.ofText "b", .file 6 .epoch [2])])

theorem wellFormed_fileEntry : fileEntry.2.WellFormed :=
  Node.wellFormed_file 4 .epoch [1]

theorem wellFormed_directoryEntry : directoryEntry.2.WellFormed := by
  refine Node.wellFormed_directory 5 true (by decide) (by decide) fun e he => ?_
  rw [List.mem_singleton.1 he]
  exact Node.wellFormed_file 6 .epoch [2]

/-- A tree that holds a link beside two files. -/
def linkedTree : Node :=
  .directory 2 true [fileEntry, directoryEntry,
    (Bytes.ofText "l", .link (Bytes.ofText "a"))]

/-- A tree that holds the same files in another order. -/
def plainTree : Node :=
  .directory 3 true [directoryEntry, fileEntry]

/-- A disk with both trees and a link to one of them. -/
def twoTrees : Disk :=
  ⟨.directory 1 true
    [(Bytes.ofText "t", linkedTree),
      (Bytes.ofText "k", .link (Bytes.ofText "t")),
      (Bytes.ofText "u", plainTree)], []⟩

theorem digestible_linkedTree :
    twoTrees.Digestible (.ofText "k") linkedTree ⟨0, 0⟩
      (Site.initial.addCache (some 4)) where
  treeAt := rfl
  wellFormed := by
    refine Node.wellFormed_directory 2 true (by decide) (by decide) ?_
    simp [wellFormed_fileEntry, wellFormed_directoryEntry, Node.wellFormed_link]
  readable := by
    have hwalk : twoTrees.walk (.ofText "k") =
        [.file (.ofText "k/a") (.known 1),
          .file (.ofText "k/s/b") (.known 1)] := rfl
    rw [hwalk]
    rintro v hv
    rcases List.mem_cons.1 hv with rfl | hv
    · exact ⟨_, _, [1], rfl, rfl⟩
    · exact ⟨_, _, [2], List.mem_singleton.1 hv, rfl⟩
  gate := rfl
  fits := by
    intro st hst
    cases hst
    exact Store.all_empty _ _

theorem digestible_plainTree :
    twoTrees.Digestible (.ofText "/t/../u//.") plainTree ⟨0, 0⟩
      (Site.initial.addCache (some 4)) where
  treeAt := rfl
  wellFormed := by
    refine Node.wellFormed_directory 3 true (by decide) (by decide) ?_
    simp [wellFormed_fileEntry, wellFormed_directoryEntry]
  readable := by
    have hwalk : twoTrees.walk (.ofText "/t/../u//.") =
        [.file (.ofText "/t/../u//./s/b") (.known 1),
          .file (.ofText "/t/../u//./a") (.known 1)] := rfl
    rw [hwalk]
    rintro v hv
    rcases List.mem_cons.1 hv with rfl | hv
    · exact ⟨_, _, [2], rfl, rfl⟩
    · exact ⟨_, _, [1], List.mem_singleton.1 hv, rfl⟩
  gate := rfl
  fits := by
    intro st hst
    cases hst
    exact Store.all_empty _ _

/-- One tree is named by a link, the other by a path with dots and slashes; they
have one digest, which does not count the link inside. -/
theorem digestTree_eq_reference_twoTrees :
    let s := Site.initial.addCache (some 4)
    let host := (twoTrees.view.host fun _ => .ok none).withoutFast
    let digest (root : Path) :=
      (host.digestTree ⟨0, 0⟩ root (twoTrees.walk root) s).1
    digest (.ofText "k") =
        some (.digest (referenceDigest [([[115], [98]], [2]), ([[97]], [1])])) ∧
      digest (.ofText "k") = digest (.ofText "/t/../u//.") := by
  intro s host digest
  have hlinked : linkedTree.files = [([[97]], [1]), ([[115], [98]], [2])] := rfl
  have hplain : plainTree.files = [([[115], [98]], [2]), ([[97]], [1])] := rfl
  have hfiles : ∀ names content,
      (names, content) ∈ plainTree.files ↔
      (names, content) ∈ linkedTree.files := by
    intro names content
    simp only [hlinked, hplain, List.mem_cons, List.not_mem_nil, or_false]
    exact Or.comm
  constructor
  · refine (digestTree_eq_reference digestible_linkedTree _).1
      plainTree.files ?_ ?_
    · exact Node.nodup_files digestible_plainTree.wellFormed
    · intro names content
      rw [hfiles, Node.mem_files_iff digestible_linkedTree.wellFormed]
  · refine (digestTree_eq_reference digestible_linkedTree _).2
      _ _ _ _ _ _ digestible_plainTree ?_
    intro names content
    rw [← Node.mem_files_iff digestible_linkedTree.wellFormed, ← hfiles,
      Node.mem_files_iff digestible_plainTree.wellFormed]

end Disk

end FileDigest
