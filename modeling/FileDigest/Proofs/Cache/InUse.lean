import FileDigest.Proofs.Cache.Misses
import FileDigest.Proofs.Process.Stores

/-!
# What requests keep of the store in use

Whatever a site is asked, the store in use of a cache is only asked for digests,
takes in digests, or gives way to a fresh store or to none. So a property of
stores that holds of fresh ones, and that a question and a permitted digest keep
(`Store.Kept`), is kept by a whole run of requests (`Site.InUse.afterActs`). A
computation puts in what it read, under the status that the file had.
-/

namespace FileDigest

/-- The property holds of fresh stores, and is kept by questions and by
permitted digests. -/
structure Store.Kept (permitted : CacheKey → Digest → Prop)
    (Q : Store → Prop) : Prop where
  empty : ∀ capacity, 0 < capacity → Q (.empty capacity)
  get : ∀ {st} k, Q st → Q (st.get k).2
  insert : ∀ {st k d}, permitted k d → Q st → Q (st.insert k d)

theorem Store.Kept.of_configure {permitted : CacheKey → Digest → Prop}
    {Q : Store → Prop} (hQ : Kept permitted Q) {c : Cache}
    {capacity : UInt64} {st : Store}
    (h : (c.configure capacity).inUse = some st) : Q st := by
  rw [Cache.inUse_configure] at h
  split at h
  · cases h
  · cases h
    exact hQ.empty _ (Nat.pos_of_ne_zero fun hzero =>
      ‹¬ capacity = 0› (UInt64.toNat_inj.1 hzero))

def FileView.Yields (view : FileView) (permitted : CacheKey → Digest → Prop) :
    Prop :=
  ∀ path status d, view.stat path = .ok status → view.read path = .ok (some d) →
    permitted ⟨path, status⟩ d

def Act.Within (permitted : CacheKey → Digest → Prop) : Act → Prop
  | .request m => m.view.Yields permitted
  | .insert _ k d => permitted k d

def Site.InUse (Q : Store → Prop) (i : Nat) (s : Site) : Prop :=
  ∀ st, (s.cache i).inUse = some st → Q st

namespace Site.InUse

variable {permitted : CacheKey → Digest → Prop} {Q : Store → Prop}
  {i : Nat} {s : Site} {view : FileView}

theorem access (hQ : Store.Kept permitted Q) (hs : s.InUse Q i) {a : Access}
    (ha : ∀ k d, a = .put k d → permitted k d) (j g : Nat) :
    (s.setCache j (a.toGeneration g (s.cache j))).InUse Q i := by
  intro st hst
  rw [Task.cache_setCache_work s ⟨0, j, g, a⟩ i, Work.on] at hst
  split at hst
  · rw [Access.inUse_toGeneration] at hst
    split at hst
    · obtain ⟨st₀, hst₀, rfl⟩ := Option.map_eq_some_iff.1 hst
      cases a with
      | ask k => exact hQ.get k (hs st₀ hst₀)
      | put k d => exact hQ.insert (ha k d rfl) (hs st₀ hst₀)
    · exact hs st hst
  · exact hs st hst

theorem report (hs : s.InUse Q i) (e : Event) : (s.report e).InUse Q i :=
  hs

theorem compute (hQ : Store.Kept permitted Q) (hs : s.InUse Q i)
    (hview : view.Yields permitted) (r : Resolver) (path : Path)
    (size : SizeHint) : (s.compute view r path size).2.InUse Q i := by
  unfold Site.compute
  cases (s.cache r.cache).current with
  | none => exact hs
  | some g =>
      cases hstat : view.stat path with
      | error e => exact hs
      | ok status =>
          have hasked := hs.access hQ (a := .ask ⟨path, status⟩) (fun k d h =>
            by cases h) r.cache g
          dsimp only
          split
          · exact hasked.report _
          · unfold Site.record
            split
            · have hput : permitted ⟨path, status⟩ _ :=
                hview path status _ hstat ‹_›
              refine (hasked.access hQ (a := .put ⟨path, status⟩ _)
                (fun k d h => ?_) r.cache g).report _
              cases h
              exact hput
            · exact hasked

variable {fast : Path → Except IoError (Option Digest)}

theorem computeManually (hQ : Store.Kept permitted Q) (hs : s.InUse Q i)
    (hrest : s.Resting) (hview : view.Yields permitted) (r : Resolver)
    (path : Path) (size : SizeHint) :
    ((view.host fast).computeManually r path size s).2.InUse Q i := by
  rw [computeManually_host (hrest.free r.gate)]
  exact hs.compute hQ hview r path size

theorem digestWithFallback (hQ : Store.Kept permitted Q) (hs : s.InUse Q i)
    (hrest : s.Resting) (hview : view.Yields permitted) (r : Resolver)
    (path : Path) (size : SizeHint) :
    ((view.host fast).digestWithFallback r path size s).2.InUse Q i := by
  unfold Host.digestWithFallback
  cases hfast : fast path with
  | error e => simpa [FileView.host, hfast] using hs
  | ok found =>
      cases found with
      | some d => simpa [FileView.host, hfast] using hs.report _
      | none =>
          simpa [FileView.host, hfast] using
            hs.computeManually hQ hrest hview r path size

theorem digestVisits (hQ : Store.Kept permitted Q) (hs : s.InUse Q i)
    (hrest : s.Resting) (hview : view.Yields permitted) (r : Resolver)
    (root : Path) (visits : List Visit) (a : UnorderedDigest) :
    ((view.host fast).digestVisits r root visits a s).2.InUse Q i := by
  induction visits generalizing a s with
  | nil => exact hs.report _
  | cons v visits ih =>
      cases v with
      | failed path cause => exact hs
      | file path size =>
          have hone :
              ((view.host fast).digestWithFallback r path size s).2.InUse Q i :=
            hs.digestWithFallback hQ hrest hview r path size
          have hnext :=
            (hrest.sameButMisses.digestWithFallback view fast r path
              size).2.resting
          rw [Host.digestVisits_file]
          split
          · split
            · exact ih hone hnext _
            · exact hone
          · exact hone

theorem configure (hQ : Store.Kept permitted Q) (hs : s.InUse Q i) (j : Nat)
    (capacity : UInt64) : (s.configure j capacity).InUse Q i := by
  intro st hst
  rcases cache_configure_cases s j i capacity with hcache | hcache
  · rw [hcache] at hst
    exact hQ.of_configure hst
  · rw [hcache] at hst
    exact hs st hst

theorem get (hQ : Store.Kept permitted Q) (hs : s.InUse Q i) (j : Nat)
    (k : CacheKey) : (s.get j k).2.InUse Q i := by
  change (s.setCache j ((s.cache j).get k).2).InUse Q i
  unfold Cache.get
  split
  · exact hs.access hQ (a := .ask k) (fun k d h => by cases h) j _
  · rw [setCache_cache_self]
    exact hs

theorem insert (hQ : Store.Kept permitted Q) (hs : s.InUse Q i) (j : Nat)
    {k : CacheKey} {d : Digest} (hk : permitted k d) :
    (s.insert j k d).InUse Q i := by
  unfold Site.insert
  dsimp only
  split
  · refine InUse.report ?_ _
    rw [Cache.insert, ‹(s.cache j).current = some _›]
    refine hs.access hQ (a := .put k d) (fun k' d' h => ?_) j _
    cases h
    exact hk
  · exact hs

theorem act (hQ : Store.Kept permitted Q) (hs : s.InUse Q i)
    (hrest : s.Resting) {a : Act} (ha : a.Within permitted) :
    (a.after s).InUse Q i := by
  cases a with
  | insert j k d => exact hs.insert hQ j ha
  | request m =>
      obtain ⟨view, fast, request⟩ := m
      cases request with
      | compute r path size => exact hs.computeManually hQ hrest ha r path size
      | resolve r path size =>
          exact hs.digestWithFallback hQ hrest ha r path size
      | tree r root visits =>
          exact hs.digestVisits hQ hrest ha r root visits .empty
      | configure j capacity => exact hs.configure hQ j capacity
      | lookup j k => exact hs.get hQ j k
      | inspect j => exact hs

/-- A whole run keeps what each of its acts keeps. -/
theorem afterActs (hQ : Store.Kept permitted Q) (hs : s.InUse Q i)
    (hrest : s.Resting) {acts : List Act}
    (hacts : ∀ a ∈ acts, a.Within permitted) :
    (s.afterActs acts).InUse Q i := by
  induction acts generalizing s with
  | nil => exact hs
  | cons a acts ih =>
      have ha : a.Within permitted := hacts a List.mem_cons_self
      exact ih (hs.act hQ hrest ha) (hrest.sameButMisses.act a).2.resting
        fun b hb => hacts b (List.mem_cons_of_mem a hb)

theorem fresh (hQ : Store.Kept permitted Q) (caches : List (Option UInt64))
    (thresholds : List UInt64) : (Site.fresh caches thresholds).InUse Q i := by
  refine cache_fresh (p := fun c => ∀ st, c.inUse = some st → Q st) ?_ ?_
    caches thresholds i
  · intro st hst
    cases hst
  · intro n st hst
    exact hQ.of_configure hst

end Site.InUse

end FileDigest
