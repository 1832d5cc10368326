import FileDigest.Proofs.Resolver.Failures
import FileDigest.Proofs.Tree.Pairs
import FileDigest.Proofs.Tree.Reached
import Mathlib.Data.List.Perm.Basic

/-!
# When a tree has a digest

A tree digest ends in a digest of all regular files of the tree
(`Disk.whole_of_yields`), or at the first place where the walk or a file fails,
and then the failure names this place (`Host.exists_place_of_failed`). Both hold
whatever the store holds and the file system answers. That no file is refused as
a duplicate is `UnorderedDigest.Admits`: a walk starts with it, and every file
that is added keeps it.

Without a store and with fixed answers the files can be taken one by one. So
there is a digest exactly if nothing that the walk comes to fails, and the order
of directories does not count: a walk that fails nowhere comes to all positions.
-/

namespace FileDigest

/-- None of the files that are still to be visited has contributed, and no two
of them have the same path. -/
structure UnorderedDigest.Admits (a : UnorderedDigest) (root : Path)
    (visits : List Visit) : Prop where
  new : ∀ p ∈ Visit.relatives root visits, a.contains p = false
  apart : (Visit.relatives root visits).Pairwise fun p q => p.same q = false

theorem UnorderedDigest.Admits.exists_add {a : UnorderedDigest}
    {root path : Path} {size : SizeHint} {rest : List Visit}
    (h : a.Admits root (.file path size :: rest)) (d : Digest) :
    ∃ b, a.add (path.below root) d = .ok b ∧
    b.seen = path.below root :: a.seen ∧
      b.Admits root rest := by
  obtain ⟨hnew, hrest⟩ := List.forall_mem_cons.1 h.new
  obtain ⟨hapart, hpairwise⟩ := List.pairwise_cons.1 h.apart
  have hadd := add_of_not_contains (d := d) hnew
  refine ⟨_, hadd, rfl, fun p hp => ?_, hpairwise⟩
  rw [contains_of_add hadd, hapart p hp, hrest p hp, Bool.false_or]

theorem Disk.admits_walk {disk : Disk} (hdisk : disk.root.WellFormed)
    (root : Path) : UnorderedDigest.empty.Admits root (disk.walk root) :=
  ⟨fun _ _ => rfl, disk.pairwise_relatives hdisk root⟩

inductive Visit.Yields (root : Path) (P : Path → Digest → Prop) :
    Visit → Path × Digest → Prop where
  | file {path : Path} {size : SizeHint} {d : Digest} (h : P path d) :
      Yields root P (.file path size) (path.below root, d)

theorem Visit.passable_of_yields {root : Path} {P : Path → Digest → Prop}
    {visits : List Visit} {pairs : List (Path × Digest)}
    (h : List.Forall₂ (Yields root P) visits pairs) :
    ∀ v ∈ visits, v.Passable fun path => ∃ d, P path d := by
  induction h with
  | nil => simp
  | cons hv _ ih =>
      cases hv with
      | file hd => exact List.forall_mem_cons.2 ⟨⟨_, hd⟩, ih⟩

namespace Host

variable {σ : Type} (host : Host σ) {r : Resolver} {root path : Path}
  {size : SizeHint} {visits rest : List Visit} {a : UnorderedDigest}
  {s : σ} {x : Digest}

theorem digestVisits_of_digest (ha : a.Admits root (.file path size :: rest))
    {d : Digest}
    (h : (host.digestWithFallback r path size s).1 = some (.digest d)) :
    ∃ b, b.Admits root rest ∧ b.seen = path.below root :: a.seen ∧
      host.digestVisits r root (.file path size :: rest) a s =
        host.digestVisits r root rest b
          (host.digestWithFallback r path size s).2 := by
  obtain ⟨b, hadd, hseen, hb⟩ := ha.exists_add d
  refine ⟨b, hb, hseen, ?_⟩
  rw [digestVisits_file, h]
  simp only [hadd]

/-- A tree digest goes on after a file that has a digest, and ends with any
other outcome of a file. -/
theorem digestVisits_cases (ha : a.Admits root (.file path size :: rest)) :
    (∃ d b, (host.digestWithFallback r path size s).1 = some (.digest d) ∧
      b.Admits root rest ∧ b.seen = path.below root :: a.seen ∧
      host.digestVisits r root (.file path size :: rest) a s =
        host.digestVisits r root rest b
          (host.digestWithFallback r path size s).2) ∨
    ((¬ ∃ d, (host.digestWithFallback r path size s).1 = some (.digest d)) ∧
      (host.digestVisits r root (.file path size :: rest) a s).1 =
        (host.digestWithFallback r path size s).1) := by
  by_cases h : ∃ d, (host.digestWithFallback r path size s).1 = some (.digest d)
  · obtain ⟨d, hd⟩ := h
    obtain ⟨b, hb, hseen, heq⟩ := host.digestVisits_of_digest ha hd
    exact Or.inl ⟨d, b, hd, hb, hseen, heq⟩
  · refine Or.inr ⟨h, ?_⟩
    rw [digestVisits_file]
    split
    · exact absurd ⟨_, ‹_›⟩ h
    · rfl

/-- A tree digest that fails does so at a place of the walk. -/
theorem exists_place_of_failed (ha : a.Admits root visits) {e : DigestError}
    (h : (host.digestVisits r root visits a s).1 = some (.failed e)) :
    ∃ v ∈ visits, ∃ cause, e = .io v.place cause := by
  induction visits generalizing a s with
  | nil => cases h
  | cons v rest ih =>
      cases v with
      | failed path cause =>
          cases h
          exact ⟨_, List.mem_cons_self, cause, rfl⟩
      | file path size =>
          rcases host.digestVisits_cases ha with
            ⟨d, b, -, hb, -, heq⟩ | ⟨-, heq⟩
          · rw [heq] at h
            obtain ⟨v, hv, hcause⟩ := ih hb h
            exact ⟨v, List.mem_cons_of_mem _ hv, hcause⟩
          · rw [heq] at h
            exact ⟨_, List.mem_cons_self, host.digestWithFallback_eq_failed h⟩

/-- A walk that ends in a digest has a pair for every visit, and what holds of
each digest that is found holds of the pair. -/
theorem forall₂_treePairs {P : Path → Digest → Prop} {Q : σ → Prop}
    (hone : ∀ path size s d, Q s → (host.digestWithFallback r path size s).1 =
      some (.digest d) → P path d ∧ Q (host.digestWithFallback r path size s).2)
    (hs : Q s)
    (h : (host.digestVisits r root visits a s).1 = some (.digest x)) :
    List.Forall₂ (Visit.Yields root P) visits
      (host.treePairs r root visits s) := by
  induction visits generalizing a s with
  | nil => exact .nil
  | cons v rest ih =>
      cases v with
      | failed path cause => cases h
      | file path size =>
          rw [digestVisits_file] at h
          split at h
          · rename_i d hd
            split at h
            · obtain ⟨hd', hnext⟩ := hone path size s d hs hd
              rw [treePairs_file host hd]
              exact .cons (.file hd') (ih hnext h)
            · cases h
          · rename_i hnone
            exact absurd h (hnone x)

end Host

/-- The digest that is found for a path: the one at hand, or else the one that
comes of reading. -/
inductive FileView.Finds (view : FileView)
    (fast : Path → Except IoError (Option Digest)) (path : Path) :
    Digest → Prop where
  | atHand {d : Digest} (h : fast path = .ok (some d)) : Finds view fast path d
  | read {d : Digest} (hfast : fast path = .ok none) (h : view.read path =
      .ok (some d)) :
      Finds view fast path d

def FileView.Findable (view : FileView)
    (fast : Path → Except IoError (Option Digest)) (path : Path) : Prop :=
  ∃ d, view.Finds fast path d

/-- No store is in use and no large read is under way. -/
structure Site.Plain (s : Site) (r : Resolver) : Prop where
  off : (s.cache r.cache).current = none
  gate : (s.gate r.gate).held = false

variable {view : FileView} {fast : Path → Except IoError (Option Digest)}

theorem FileView.Finds.unique {path : Path} {d d' : Digest}
    (h : view.Finds fast path d) (h' : view.Finds fast path d') : d = d' := by
  cases h with
  | atHand h =>
      cases h' with
      | atHand h' => exact Option.some.inj (Except.ok.inj (h.symm.trans h'))
      | read hfast _ => cases h.symm.trans hfast
  | read hfast h =>
      cases h' with
      | atHand h' => cases hfast.symm.trans h'
      | read _ h' => exact Option.some.inj (Except.ok.inj (h.symm.trans h'))

namespace Site.Plain

variable {s : Site} {r : Resolver}

theorem digestWithFallback_eq (h : s.Plain r) (path : Path) (size : SizeHint) :
    (view.host fast).digestWithFallback r path size s =
      match fast path with
      | .error e => (some (.failed (.io path e)), s)
      | .ok (some d) => (some (.digest d), s.report (.fastDigest path))
      | .ok none => (some (view.outcome path size), s) := by
  have hcompute : (view.host fast).computeManually r path size s = _ :=
    computeManually_host h.gate path size
  simp only [Site.compute, h.off] at hcompute
  simp only [Host.digestWithFallback, FileView.host] at hcompute ⊢
  cases fast path with
  | error e => rfl
  | ok found =>
      cases found with
      | none => exact hcompute
      | some d => rfl

theorem next (h : s.Plain r) (path : Path) (size : SizeHint) :
    ((view.host fast).digestWithFallback r path size s).2.Plain r := by
  rw [h.digestWithFallback_eq]
  split
  · exact h
  · exact ⟨h.off, h.gate⟩
  · exact h

theorem digest_iff (h : s.Plain r) (path : Path) (size : SizeHint)
    (d : Digest) :
    ((view.host fast).digestWithFallback r path size s).1 = some (.digest d) ↔
      view.Finds fast path d := by
  rw [h.digestWithFallback_eq]
  constructor
  · intro hd
    split at hd
    · cases hd
    · cases hd
      exact .atHand ‹_›
    · exact .read ‹_› (FileView.outcome_eq_digest_iff.1 (Option.some.inj hd))
  · intro hd
    cases hd with
    | atHand hfast => rw [hfast]
    | read hfast hread => rw [hfast, FileView.outcome_eq_digest_iff.2 hread]

end Site.Plain

theorem Site.Plain.exists_digest_iff {s : Site} {r : Resolver}
    (hs : s.Plain r) {root : Path} {visits : List Visit} {a : UnorderedDigest}
    (ha : a.Admits root visits) :
    (∃ x, ((view.host fast).digestVisits r root visits a s).1 =
      some (.digest x)) ↔
      ∀ v ∈ visits, v.Passable (view.Findable fast) := by
  induction visits generalizing a s with
  | nil =>
      rw [Host.digestVisits_nil]
      simp
  | cons v rest ih =>
      rw [List.forall_mem_cons]
      cases v with
      | failed path cause =>
          rw [Host.digestVisits_failed]
          simp [Visit.Passable]
      | file path size =>
          have hfound :
              (∃ d, ((view.host fast).digestWithFallback r path size s).1 =
              some (.digest d)) ↔
              (Visit.file path size).Passable (view.Findable fast) :=
            exists_congr (hs.digest_iff path size)
          rw [← hfound]
          rcases (view.host fast).digestVisits_cases ha with
            ⟨d, b, hd, hb, -, heq⟩ | ⟨hnone, heq⟩
          · rw [heq, ih (hs.next path size) hb]
            exact (and_iff_right ⟨d, hd⟩).symm
          · rw [heq]
            exact iff_of_false hnone fun hall => hnone hall.1

/-- A digest is that of all regular files of the tree that a root names: each of
them contributes under its names, with a digest of which something holds. -/
def Disk.Whole (disk : Disk) (root : Path) (P : Path → Digest → Prop)
    (x : Digest) : Prop :=
  ∃ tree pairs, disk.treeAt root = .ok tree ∧
    List.Forall₂ (fun f c => c.1 = .ofNames f.1 ∧ P (root.under f.1) c.2)
      tree.files pairs ∧
    UnorderedDigest.empty.AcceptsAll pairs ∧
    x = (UnorderedDigest.empty.addAll pairs).finish

namespace Disk

variable {disk disk' : Disk} {root : Path} {x x' : Digest}

theorem walk_eq_of_digestTree {σ : Type} {host : Host σ} {r : Resolver} {s : σ}
    (h : (host.digestTree r root (disk.walk root) s).1 = some (.digest x)) :
    ∃ tree, disk.treeAt root = .ok tree ∧ disk.walk root =
      tree.files.map (Node.visit root) :=
  walk_eq_visits
    (Visit.passable_of_yields (host.forall₂_treePairs (P := fun _ _ => True)
    (Q := fun _ => True) (by simp) trivial h))

theorem whole_of_yields (hdisk : disk.root.WellFormed) {σ : Type}
    {host : Host σ} {r : Resolver} {s : σ} {P : Path → Digest → Prop}
    (h : (host.digestTree r root (disk.walk root) s).1 = some (.digest x))
    (hpairs : List.Forall₂ (Visit.Yields root P) (disk.walk root)
      (host.treePairs r root (disk.walk root) s)) :
    disk.Whole root P x := by
  obtain ⟨tree, htree, hwalk⟩ := walk_eq_of_digestTree h
  obtain ⟨haccepts, rfl⟩ := host.digestTree_eq_digest h
  generalize host.treePairs r root (disk.walk root) s = pairs
    at haccepts hpairs ⊢
  rw [hwalk, List.forall₂_map_left_iff] at hpairs
  have hmem := (List.forall₂_and_left (p := (· ∈ tree.files)) _ _).2
    ⟨fun f hf => hf, hpairs⟩
  refine ⟨tree, pairs, htree, hmem.imp fun f c hfc => ?_, haccepts, rfl⟩
  obtain ⟨hf, ⟨hP⟩⟩ := hfc
  exact ⟨below_of_mem_files hdisk htree hf, hP⟩

/-- Which files there are does not hang on the order of directories, so nor does
their digest. -/
theorem Whole.unique {P : Path → Digest → Prop} (h : disk.Whole root P x)
    (h' : disk'.Whole root P x')
    (hP : ∀ path d d', P path d → P path d' → d = d')
    (hdisk : disk.root.WellFormed) (hdisk' : disk'.root.WellFormed)
    (hreordered : disk.Reordered disk') : x = x' := by
  obtain ⟨tree, pairs, htree, hpairs, haccepts, rfl⟩ := h
  obtain ⟨tree', pairs', htree', hpairs', haccepts', rfl⟩ := h'
  obtain ⟨tree'', htree'', halike⟩ := hreordered.exists_treeAt htree
  cases htree'.symm.trans htree''
  have hfiles : tree'.files.Perm tree.files :=
    (halike.files_perm (wellFormed_treeAt hdisk htree)
      (wellFormed_treeAt hdisk' htree')).symm
  obtain ⟨others, hothers, hperm⟩ := List.perm_comp_forall₂ hfiles hpairs
  have hright : Relator.RightUnique fun (f : List Bytes × Bytes)
      (c : Path × Digest) =>
      c.1 = .ofNames f.1 ∧ P (root.under f.1) c.2 := by
    intro f c c' hc hc'
    exact Prod.ext (hc.1.trans hc'.1.symm) (hP _ _ _ hc.2 hc'.2)
  obtain rfl := List.right_unique_forall₂' hright hpairs' hothers
  rw [haccepts.finish_eq, haccepts'.finish_eq, UnorderedDigest.xorOf_perm hperm]

theorem whole_of_plain (hdisk : disk.root.WellFormed) {r : Resolver} {s : Site}
    (hs : s.Plain r)
    (h : ((view.host fast).digestTree r root (disk.walk root) s).1 =
      some (.digest x)) :
    disk.Whole root (view.Finds fast) x := by
  refine whole_of_yields hdisk h
    ((view.host fast).forall₂_treePairs (Q := (·.Plain r)) ?_ hs h)
  intro path size s d hs hd
  exact ⟨(hs.digest_iff path size d).1 hd, hs.next path size⟩

theorem digestTree_of_reordered (hdisk : disk.root.WellFormed)
    (hdisk' : disk'.root.WellFormed) (hreordered : disk.Reordered disk')
    {r : Resolver} {s : Site} (hs : s.Plain r)
    (h : ((view.host fast).digestTree r root (disk.walk root) s).1 =
      some (.digest x)) :
    ((view.host fast).digestTree r root (disk'.walk root) s).1 =
      some (.digest x) := by
  have hall := (hs.exists_digest_iff (admits_walk hdisk root)).1 ⟨x, h⟩
  obtain ⟨x', h'⟩ := (hs.exists_digest_iff (admits_walk hdisk' root)).2
    (hreordered.forall_passable_walk hdisk hdisk' hall)
  have hsame : x = x' :=
    (whole_of_plain hdisk hs h).unique (whole_of_plain hdisk' hs h')
      (fun _ _ _ hd hd' => hd.unique hd') hdisk hdisk' hreordered
  rw [hsame]
  exact h'

/-- No file of a tree is refused as a duplicate. A failure names the root or a
path below it, and a digest is that of all files of the tree; this holds in
every state and whatever the file system answers. Without a store and with fixed
answers there is a digest exactly if the root is found, every directory that the
walk comes to can be listed, and a digest is found for every file that it comes
to. It is the digest of the digests found, and the order of directories changes
neither. -/
theorem digestTree_isDigest_iff (hdisk : disk.root.WellFormed) (root : Path) :
    ((Visit.relatives root (disk.walk root)).Pairwise fun p q =>
      p.same q = false) ∧
    (∀ (σ : Type) (host : Host σ) (r : Resolver) (s : σ),
      (∀ e, (host.digestTree r root (disk.walk root) s).1 = some (.failed e) →
        ∃ names cause, (∀ name ∈ names, Path.IsName name) ∧
        e = .io (root.under names) cause) ∧
      ∀ x, (host.digestTree r root (disk.walk root) s).1 = some (.digest x) →
        disk.Whole root (fun _ _ => True) x) ∧
    ∀ (view : FileView) (fast : Path → Except IoError (Option Digest))
      (r : Resolver) (s : Site),
      s.Plain r →
      let digest (d : Disk) :=
  ((view.host fast).digestTree r root (d.walk root) s).1
      ((∃ x, digest disk = some (.digest x)) ↔ ∃ tree, disk.treeAt root =
        .ok tree ∧ ∀ names n, Node.Reaches root tree names n →
          n.Passable (view.Findable fast) (root.under names)) ∧
      (∀ x, digest disk = some (.digest x) →
        disk.Whole root (view.Finds fast) x) ∧
      ∀ disk', disk'.root.WellFormed → disk.Reordered disk' →
        ∀ x, digest disk = some (.digest x) ↔
        digest disk' = some (.digest x) := by
  refine ⟨pairwise_relatives hdisk root, fun σ host r s =>
    ⟨fun e he => ?_, fun x hx => ?_⟩, fun view fast r s hs =>
      ⟨?_, fun x hx => whole_of_plain hdisk hs hx, ?_⟩⟩
  · obtain ⟨v, hv, cause, rfl⟩ :=
      host.exists_place_of_failed (admits_walk hdisk root) he
    obtain ⟨names, hnames, hplace⟩ := exists_under_of_mem_walk hdisk hv
    exact ⟨names, cause, hnames, by rw [hplace]⟩
  · exact whole_of_yields hdisk hx
      (host.forall₂_treePairs (P := fun _ _ => True)
      (Q := fun _ => True) (by simp) trivial hx)
  · exact (hs.exists_digest_iff (admits_walk hdisk root)).trans
      forall_passable_walk_iff
  · intro disk' hdisk' hreordered x
    exact ⟨digestTree_of_reordered hdisk hdisk' hreordered hs,
      digestTree_of_reordered hdisk' hdisk hreordered.symm hs⟩

def entriesAB : List (Bytes × Node) :=
  [fileEntry, (Bytes.ofText "b", .file 6 .epoch [2])]

theorem wellFormed_entriesAB {entries : List (Bytes × Node)}
    (h : entriesAB.Perm entries) :
    (Node.directory 1 true entries).WellFormed := by
  have hnodup : (entriesAB.map (·.1)).Nodup := by decide
  refine Node.wellFormed_directory 1 true ((h.map _).nodup_iff.1 hnodup) ?_ ?_
  · intro e he
    have hnames : ∀ e ∈ entriesAB, Path.IsName e.1 := by decide
    exact hnames e (h.mem_iff.2 he)
  · intro e he
    rcases List.mem_cons.1 (h.mem_iff.2 he) with rfl | he
    · exact wellFormed_fileEntry
    · rw [List.mem_singleton.1 he]
      exact Node.wellFormed_file 6 .epoch [2]

/-- A tree of two files of which one cannot be read, but has a digest at hand.
It has a digest, in both orders the same, and with nothing at hand there is
none. -/
theorem digestTree_isDigest_iff_twoFiles :
    let disk (entries : List (Bytes × Node)) :
    Disk := ⟨.directory 1 true entries, []⟩
    let view : FileView := ⟨fun _ => .error .notFound, fun path =>
      if path = .ofText "./b" then .ok (some [9]) else .error .permissionDenied⟩
    let atHand (path : Path) : Except IoError (Option Digest) :=
      if path = .ofText "./a" then .ok (some [7]) else .ok none
    let digest (fast : Path → Except IoError (Option Digest))
        (entries : List (Bytes × Node)) :=
      ((view.host fast).digestTree ⟨0, 0⟩ (.ofText ".")
        ((disk entries).walk (.ofText ".")) Site.initial).1
    (∃ x, digest atHand entriesAB = some (.digest x) ∧
      digest atHand entriesAB.reverse = some (.digest x)) ∧
    ¬ ∃ x, digest (fun _ => .ok none) entriesAB = some (.digest x) := by
  intro disk view atHand digest
  have hperm := (List.reverse_perm entriesAB).symm
  have hdisk : (disk entriesAB).root.WellFormed :=
    wellFormed_entriesAB (.refl _)
  obtain ⟨-, -, hplain⟩ := digestTree_isDigest_iff hdisk (.ofText ".")
  constructor
  · obtain ⟨hiff, -, hreordered⟩ :=
      hplain view atHand ⟨0, 0⟩ Site.initial ⟨rfl, rfl⟩
    obtain ⟨x, hx⟩ :=
      hiff.2 ⟨.directory 1 true entriesAB, rfl, fun names n hreach => by
        cases hreach with
        | here => exact ⟨rfl, rfl⟩
        | entry _ hmem hreach =>
            rcases List.mem_cons.1 hmem with hmem | hmem
            · cases hmem
              cases hreach
              exact ⟨[7], .atHand rfl⟩
            · cases List.mem_singleton.1 hmem
              cases hreach
              exact ⟨[9], .read rfl rfl⟩⟩
    refine ⟨x, hx,
      (hreordered (disk entriesAB.reverse) (wellFormed_entriesAB hperm) ?_ x).1
        hx⟩
    exact ⟨rfl, Node.alike_of_perm 1 true hperm (by decide)⟩
  · obtain ⟨hiff, -⟩ :=
      hplain view (fun _ => .ok none) ⟨0, 0⟩ Site.initial ⟨rfl, rfl⟩
    rintro hx
    obtain ⟨tree, htree, hall⟩ := hiff.1 hx
    cases htree
    have hpassable :=
      hall [Bytes.ofText "a"] _ (.entry rfl List.mem_cons_self (.here _ _))
    obtain ⟨d, hd⟩ := hpassable
    cases hd with
    | atHand h => cases h
    | read _ h => cases h

end Disk

end FileDigest
