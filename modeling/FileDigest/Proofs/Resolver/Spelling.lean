import FileDigest.Proofs.Cache.InUse
import FileDigest.Proofs.Disk.Spelling
import FileDigest.Proofs.Tree.Reference
import FileDigest.Proofs.Tree.Warm

/-!
# Spellings of a path in a cache

Equal keys may come from different spellings of a path. On a disk that is sound:
spellings that have a status have one status, and what is read under one of them
is read under all. So a digest that was found under one spelling answers for the
others (`Disk.respelled_path_same_digest`). The status is asked for under the
spelling of the call, and before the cache; a spelling that the disk refuses
fails there.

That the store in use holds the digest of the content under the keys of the
path, and nothing else, is kept by whatever is asked while the disk stays as it
is.
-/

namespace FileDigest

open Recency

/-- The file system is as given while the act is done, and no digest is put in
by hand under a spelling of the path. -/
def Act.Spares (view : FileView) (p : Path) : Act → Prop
  | .request m => m.view = view
  | .insert _ k _ => k.path.same p = false

theorem Act.within_true (a : Act) : a.Within fun _ _ => True := by
  cases a with
  | request m => exact fun _ _ _ _ _ => trivial
  | insert i k d => trivial

theorem Store.kept_all_fits (view : FileView) (among : Path → Prop) :
    Store.Kept (view.Fits among) (Store.All (view.Fits among)) where
  empty capacity _ := Store.all_empty _ capacity
  get k hst := hst.get (fun _ _ _ => FileView.Fits.of_beq) k
  insert hd hst := hst.insert hd

theorem Store.kept_tidy :
    Store.Kept (fun _ _ => True) (fun st => st.Tidy ∧ 0 < st.capacity) where
  empty capacity hpos := ⟨Store.tidy_empty capacity, hpos⟩
  get {st} k h := ⟨h.1.access (.ask k), by rw [Store.capacity_get]; exact h.2⟩
  insert {st k d} _ h :=
    ⟨h.1.access (.put k d), by rw [Store.capacity_insert]; exact h.2⟩

namespace Disk

variable {disk : Disk} {p q : Path} {among : Path → Prop}

theorem yields_fits (disk : Disk) (among : Path → Prop) :
    disk.view.Yields (disk.view.Fits among) := by
  intro path status d hstat hread path' status' hpath' hstat' hk
  have hsame : path.same path' = true :=
    Path.same_iff.2 (congrArg Prod.fst (CacheKey.beq_iff.1 hk))
  exact read_of_same hsame hread hstat'

theorem within_fits {a : Act} (ha : a.Spares disk.view p) :
    a.Within (disk.view.Fits fun path => path.same p = true) := by
  cases a with
  | request m =>
      have hview : m.view = disk.view := ha
      exact hview ▸ disk.yields_fits _
  | insert i k d =>
      intro path status hpath hstat hk
      have hsame : k.path.same path = true :=
        Path.same_iff.2 (congrArg Prod.fst (CacheKey.beq_iff.1 hk))
      have hother : k.path.same p = false := ha
      rw [Path.same_trans hsame hpath] at hother
      cases hother

/-- The store that has just got the digest of a content holds it under all keys
that equal the key, and nothing else. -/
theorem all_fits_put {status : FileStatus} {d : Digest}
    {entries : List (CacheKey × Digest)} {st : Store}
    (hstat : disk.stat p = .ok status) (hread : disk.read p = .ok (some d))
    (hentries : st.entries = (put ⟨p, status⟩ d entries).take st.capacity) :
    st.All (disk.view.Fits fun path => path.same p = true) := by
  intro e he
  rw [hentries] at he
  rcases List.mem_cons.1 (List.mem_of_mem_take he) with rfl | he
  · exact disk.yields_fits _ p status d hstat hread
  · intro path status' hpath hstat' hk
    -- the other entries are under other keys, and the key of the path is the
    -- same for all spellings
    have hother : (e.1 == ⟨p, status⟩) = false := by
      simpa using (List.mem_filter.1 he).2
    have hkey : (CacheKey.mk path status' == ⟨p, status⟩) = true := by
      rw [CacheKey.beq_iff, CacheKey.identity, CacheKey.identity,
        Path.same_iff.1 hpath, stat_eq_of_same hpath hstat' hstat]
    rw [BEq.trans hk hkey] at hother
    cases hother

end Disk

theorem Cache.get_fst_of_off {c : Cache} (h : c.inUse = none) (k : CacheKey) :
    (c.get k).1 = none := by
  unfold Cache.get
  split
  · rw [inUse_of_current ‹_›] at h
    rw [getAt, h]
  · rfl

namespace Site

variable {view : FileView} {fast : Path → Except IoError (Option Digest)}
  {s : Site} {r : Resolver}

theorem Resting.tallied (hs : s.Resting) (path : Path) (size : SizeHint)
    (calls : Scenario.Calls) :
    ((view.tallied fast).computeManually r path size (s, calls)).1 =
        some (s.compute view r path size).1 ∧
      ((view.tallied fast).computeManually r path size (s, calls)).2.1 =
        (s.compute view r path size).2 := by
  rw [computeManually_tallied view fast r path size calls (hs.free r.gate)]
  simp only [Host.compute, Host.consult, FileView.tallied, Site.compute,
    FileView.outcome]
  cases (s.cache r.cache).current with
  | none => exact ⟨rfl, rfl⟩
  | some g =>
      cases view.stat path with
      | error e => exact ⟨rfl, rfl⟩
      | ok status =>
          dsimp only
          split <;> exact ⟨rfl, rfl⟩

theorem Resting.resting_tallied (hs : s.Resting) (path : Path) (size : SizeHint)
    (calls : Scenario.Calls) :
    ((view.tallied fast).computeManually r path size
      (s, calls)).2.1.Resting := by
  rw [(hs.tallied path size calls).2]
  exact (hs.sameButMisses.compute view r path size).2.resting

theorem Resting.computeManually_of_stat_error {disk : Disk} (hs : s.Resting)
    {q : Path} {e : IoError} (h : disk.stat q = .error e) (size : SizeHint)
    (calls : Scenario.Calls) :
    ((disk.view.tallied fast).computeManually r q size (s, calls)).1 =
      some (.failed (.io q e)) ∧
      ((disk.view.tallied fast).computeManually r q size (s, calls)).2.1 =
        s := by
  have hread : disk.view.read q = .error e := Disk.read_of_stat_error h
  cases hg : (s.cache r.cache).current with
  | none =>
      rw [computeManually_off_of_readFails disk.view fast r q size calls
        (hs.free r.gate) hg (.error hread)]
      exact ⟨rfl, rfl⟩
  | some g =>
      rw [FileDigest.computeManually_of_stat_error disk.view fast r q size calls
        (hs.free r.gate) hg h]
      exact ⟨rfl, rfl⟩

/-- While the store in use holds only the digest of the content under the key of
a file, the file has this digest. -/
theorem Resting.computeManually_of_fits {among : Path → Prop} (hs : s.Resting)
    (hfits : s.Matches view among r.cache) {q : Path} (hq : among q)
    {status : FileStatus} {d : Digest} (hstat : view.stat q = .ok status)
    (hread : view.read q = .ok (some d)) (size : SizeHint)
    (calls : Scenario.Calls) :
    ((view.tallied fast).computeManually r q size (s, calls)).1 =
      some (.digest d) := by
  have hout : view.outcome q size = .digest d :=
    FileView.outcome_eq_digest_iff.2 hread
  rw [(hs.tallied q size calls).1]
  unfold Site.compute
  cases hg : (s.cache r.cache).current with
  | none => exact congrArg some hout
  | some g =>
      simp only [hstat]
      cases hfound : ((s.cache r.cache).getAt g ⟨q, status⟩).1 with
      | none => exact congrArg some hout
      | some d' =>
          have hd' := hfits.answer hg hq hstat hfound
          rw [hread, Except.ok.injEq, Option.some.injEq] at hd'
          rw [hd']

/-- A digest that the cache holds under one spelling of a path answers for
another one with the same status, without a read. -/
theorem Resting.computeManually_of_held (hs : s.Resting)
    (htidy : s.InUse (fun st => st.Tidy ∧ 0 < st.capacity) r.cache) {p q : Path}
    (hsame : p.same q = true) {status : FileStatus}
    (hstat : view.stat q = .ok status) {x : Digest}
    (hx : ((s.cache r.cache).get ⟨p, status⟩).1 = some x) (size : SizeHint)
    (calls : Scenario.Calls) :
    ((view.tallied fast).computeManually r q size (s, calls)).1 =
      some (.digest x) ∧
      ((view.tallied fast).computeManually r q size (s, calls)).2.2.read =
        calls.read := by
  have hkey : (CacheKey.mk p status == ⟨q, status⟩) = true := by
    rw [CacheKey.beq_iff, CacheKey.identity, CacheKey.identity,
      Path.same_iff.1 hsame]
  cases huse : (s.cache r.cache).inUse with
  | none =>
      rw [Cache.get_fst_of_off huse] at hx
      cases hx
  | some st =>
      rw [Cache.get_fst_of_inUse huse, find?_congr hkey] at hx
      have hstocked : s.Stocked r st :=
        ⟨huse, (htidy st huse).1, hs.free r.gate⟩
      obtain ⟨s', -, hcall⟩ : ∃ s', _ ∧
        (view.tallied fast).computeManually r q size (s, calls) = _ :=
        hstocked.computeManually_hit size hstat hx calls
      rw [hcall]
      exact ⟨rfl, rfl⟩

theorem exists_stocked {caches : List (Option UInt64)}
    {thresholds : List UInt64} {acts : List Act} {r : Resolver}
    (hon :
      (((fresh caches thresholds).afterActs acts).cache r.cache).isEnabled =
        true) :
    ∃ st, ((fresh caches thresholds).afterActs acts).Stocked r st ∧
    0 < st.capacity := by
  obtain ⟨st, hst⟩ := Option.isSome_iff_exists.1 hon
  have hrest := resting_fresh caches thresholds
  have htidy : ((fresh caches thresholds).afterActs acts).InUse _ r.cache :=
    (InUse.fresh Store.kept_tidy caches thresholds).afterActs
      Store.kept_tidy hrest
      fun a _ => a.within_true
  exact ⟨st, ⟨hst, (htidy st hst).1, (hrest.afterActs acts).free r.gate⟩,
    (htidy st hst).2⟩

end Site

/-- Spellings of one path that have a status have one status, and what is read
under them is the same. A digest that was found under one of them is found under
the others, without reading as long as the cache holds it, even when other
requests come between; and a spelling that the disk refuses fails whatever the
cache holds. -/
theorem Disk.respelled_path_same_digest (disk : Disk) {p q : Path}
    (hsame : p.same q = true) :
    (∀ status status', disk.stat p = .ok status → disk.stat q = .ok status' →
      status = status') ∧
    (∀ x y, disk.read p = .ok x → disk.read q = .ok y → x = y) ∧
    ∀ (caches : List (Option UInt64)) (thresholds : List UInt64)
      (before : List Act) (r r' : Resolver)
      (size size' : SizeHint) (fast : Path → Except IoError (Option Digest))
        (calls : Scenario.Calls)
      (d : Digest),
      let host := disk.view.tallied fast
      let s := (Site.fresh caches thresholds).afterActs before
      let first := host.computeManually r p size (s, calls)
      (s.cache r.cache).isEnabled = true → first.1 = some (.digest d) →
      r'.cache = r.cache →
      (first.2.2.read = calls.read ∨ disk.read p = .ok (some d)) ∧
      ∀ later : List Act, (∀ a ∈ later, a.Spares disk.view p) →
        let s' := first.2.1.afterActs later
        let second := host.computeManually r' q size' (s', first.2.2)
        (∀ e, disk.stat q = .error e →
          second.1 = some (.failed (.io q e)) ∧ second.2.1 = s') ∧
        ∀ status, disk.stat q = .ok status →
          (∀ x, ((s'.cache r.cache).get ⟨p, status⟩).1 = some x →
            second.1 = some (.digest x) ∧ second.2.2.read = first.2.2.read) ∧
          (later = [] → ((s'.cache r.cache).get ⟨p, status⟩).1 = some d) ∧
          (disk.read p = .ok (some d) → second.1 = some (.digest d)) := by
  refine ⟨fun _ _ => stat_eq_of_same hsame, fun _ _ =>
    read_eq_of_same hsame, ?_⟩
  intro caches thresholds before r r' size size' fast calls d host s
    first hon hfirst hcache
  obtain ⟨st, hstocked, hroom⟩ := Site.exists_stocked hon
  obtain ⟨status, st₁, hstat, hnext, hcapacity, hentries, hread⟩ :=
    hstocked.computeManually_digest hfirst
  refine ⟨hread, fun later hlater => ?_⟩
  have hrest : s.Resting :=
    (Site.resting_fresh caches thresholds).afterActs before
  have hrest₁ : first.2.1.Resting := hrest.resting_tallied p size calls
  have htidy₁ : first.2.1.InUse (fun st => st.Tidy ∧
      0 < st.capacity) r.cache := by
    intro st' hst'
    cases hnext.inUse.symm.trans hst'
    exact ⟨hnext.tidy, hcapacity ▸ hroom⟩
  intro s' second
  have hrest' : s'.Resting := hrest₁.afterActs later
  refine ⟨fun e he => hrest'.computeManually_of_stat_error he size' first.2.2,
    fun status' hstat' => ?_⟩
  obtain rfl : status = status' := stat_eq_of_same hsame hstat hstat'
  refine ⟨fun x hx => ?_, fun hnone => ?_, fun hcontent => ?_⟩
  · have htidy : s'.InUse _ r.cache :=
      htidy₁.afterActs Store.kept_tidy hrest₁ fun a _ => a.within_true
    rw [← hcache] at htidy hx
    exact hrest'.computeManually_of_held htidy hsame hstat' hx size' first.2.2
  · subst hnone
    obtain ⟨n, hn⟩ :=
      Nat.exists_eq_add_one_of_ne_zero (Nat.pos_iff_ne_zero.1 hroom)
    change ((first.2.1.cache r.cache).get _).1 = _
    rw [Cache.get_fst_of_inUse hnext.inUse, hentries, hn, put,
      List.take_succ_cons, find?_cons, if_pos BEq.rfl]
  · have hfits₁ : first.2.1.Matches disk.view
        (fun path => path.same p = true) r.cache := by
      intro st' hst'
      cases hnext.inUse.symm.trans hst'
      rw [← hcapacity] at hentries
      exact all_fits_put hstat hcontent hentries
    have hfits : s'.Matches disk.view (fun path => path.same p =
        true) r.cache :=
      Site.InUse.afterActs (Store.kept_all_fits _ _) hfits₁ hrest₁
        fun a ha => within_fits (hlater a ha)
    rw [← hcache] at hfits
    have hq : q.same p = true := by rwa [Path.same_comm]
    exact hrest'.computeManually_of_fits hfits hq hstat'
      (read_of_same hsame hcontent hstat') size'
      first.2.2

/-- A file behind a link is digested. Under another spelling it is found in the
cache; the spelling that asks for a directory fails, although its key is the
same. -/
theorem Disk.respelled_path_same_digest_link :
    let host := twoTrees.view.tallied fun _ => .ok none
    let first := host.computeManually ⟨0, 0⟩ (.ofText "k/a") .unknown
      (Site.fresh [some 2] [], ⟨0, 0, 0⟩)
    let again (q : Path) := host.computeManually ⟨0, 0⟩ q .unknown first.2
    first.1 = some (.digest (Blake3.hash [1])) ∧ first.2.2.read = 1 ∧
      (again (.ofText "k/.//a")).1 = some (.digest (Blake3.hash [1])) ∧
      (again (.ofText "k/.//a")).2.2.read = 1 ∧
      (again (.ofText "k/a/")).1 =
        some (.failed (.io (.ofText "k/a/") .notADirectory)) ∧
      (again (.ofText "k/a/")).2.1 = first.2.1 := by
  intro host first again
  have hfirst : first.1 = some (.digest (Blake3.hash [1])) := rfl
  obtain ⟨-, -, hspelled⟩ := twoTrees.respelled_path_same_digest
    (p := .ofText "k/a") (q := .ofText "k/.//a") (by decide +kernel)
  obtain ⟨-, -, hrefused⟩ := twoTrees.respelled_path_same_digest
    (p := .ofText "k/a") (q := .ofText "k/a/") (by decide +kernel)
  obtain ⟨-, hspelled⟩ :=
    hspelled [some 2] [] [] ⟨0, 0⟩ ⟨0, 0⟩ .unknown .unknown
      (fun _ => .ok none) ⟨0, 0, 0⟩ (Blake3.hash [1]) rfl hfirst rfl
  obtain ⟨-, hrefused⟩ :=
    hrefused [some 2] [] [] ⟨0, 0⟩ ⟨0, 0⟩ .unknown .unknown
      (fun _ => .ok none) ⟨0, 0, 0⟩ (Blake3.hash [1]) rfl hfirst rfl
  obtain ⟨hheld, hnext, -⟩ := (hspelled [] (by simp)).2 ⟨4, .epoch, 1⟩ rfl
  obtain ⟨hdigest, hread⟩ := hheld _ (hnext rfl)
  obtain ⟨hfailed, hsite⟩ := (hrefused [] (by simp)).1 .notADirectory rfl
  exact ⟨hfirst, rfl, hdigest, hread, hfailed, hsite⟩

end FileDigest
