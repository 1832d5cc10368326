import FileDigest.Proofs.Cache.Transparency
import FileDigest.Proofs.Resolver.Failures

/-!
# Runs with a failed call left out

Nothing that a site does hangs on the questions that its stores had no answer
to, except for the counter that is read off them. So two sites that are the same
but for these (`Site.SameButMisses`) answer every request alike and stay the
same but for these. A failed call leaves a miss at most, and a run in which it
is left out therefore goes on as before.

A run is a list of requests and of digests put in by hand, each answered before
the next one comes. Every request is answered in a file system of its own, which
does not change while it is asked.
-/

namespace FileDigest

def Store.forgetMisses (s : Store) : Store :=
  { s with misses := 0 }

def Cache.forgetMisses (c : Cache) : Cache :=
  { c with stores := c.stores.map Store.forgetMisses }

def Site.forgetMisses (s : Site) : Site :=
  { s with caches := s.caches.map Cache.forgetMisses }

namespace Store

variable {s s' : Store}

def SameButMisses (s s' : Store) : Prop :=
  s.forgetMisses = s'.forgetMisses

theorem SameButMisses.get (h : s.SameButMisses s') (k : CacheKey) :
    (s.get k).1 = (s'.get k).1 ∧ (s.get k).2.SameButMisses (s'.get k).2 := by
  obtain ⟨capacity, entries, hits, misses, evictions⟩ := s
  obtain ⟨capacity', entries', hits', misses', evictions'⟩ := s'
  simp only [SameButMisses, forgetMisses, Store.mk.injEq, true_and] at h
  obtain ⟨rfl, rfl, rfl, rfl⟩ := h
  unfold Store.get
  cases Recency.find? k entries with
  | none => exact ⟨rfl, rfl⟩
  | some d => exact ⟨rfl, rfl⟩

theorem SameButMisses.insert (h : s.SameButMisses s') (k : CacheKey)
    (d : Digest) : (s.insert k d).SameButMisses (s'.insert k d) := by
  obtain ⟨capacity, entries, hits, misses, evictions⟩ := s
  obtain ⟨capacity', entries', hits', misses', evictions'⟩ := s'
  simp only [SameButMisses, forgetMisses, Store.mk.injEq, true_and] at h
  obtain ⟨rfl, rfl, rfl, rfl⟩ := h
  rfl

end Store

namespace Cache

variable {c c' : Cache}

structure SameButMisses (c c' : Cache) : Prop where
  current : c.current = c'.current
  stores : c.stores.map Store.forgetMisses = c'.stores.map Store.forgetMisses

theorem sameButMisses_iff : c.SameButMisses c' ↔
    c.forgetMisses = c'.forgetMisses := by
  rw [forgetMisses, forgetMisses, Cache.mk.injEq]
  exact ⟨fun h => ⟨h.stores, h.current⟩, fun h => ⟨h.2, h.1⟩⟩

theorem SameButMisses.store (h : c.SameButMisses c') (g : Nat) :
    (c.stores[g]?).map Store.forgetMisses =
      (c'.stores[g]?).map Store.forgetMisses := by
  rw [← List.getElem?_map, h.stores, List.getElem?_map]

theorem SameButMisses.inUse (h : c.SameButMisses c') :
    c.inUse.map Store.forgetMisses = c'.inUse.map Store.forgetMisses := by
  rw [Cache.inUse, Cache.inUse, h.current]
  cases c'.current with
  | none => rfl
  | some g => exact h.store g

theorem SameButMisses.set (h : c.SameButMisses c') (g : Nat) {s s' : Store}
    (hs : s.SameButMisses s') :
    ({ c with stores := c.stores.set g s } : Cache).SameButMisses
      { c' with stores := c'.stores.set g s' } where
  current := h.current
  stores := by
    have hforget : s.forgetMisses = s'.forgetMisses := hs
    simp only [List.map_set, h.stores, hforget]

theorem SameButMisses.getAt (h : c.SameButMisses c') (g : Nat) (k : CacheKey) :
    (c.getAt g k).1 = (c'.getAt g k).1 ∧
    (c.getAt g k).2.SameButMisses (c'.getAt g k).2 := by
  have hstore := h.store g
  unfold Cache.getAt
  cases hs : c.stores[g]? with
  | none =>
      rw [hs] at hstore
      rw [Option.map_eq_none_iff.1 hstore.symm]
      exact ⟨rfl, h⟩
  | some s =>
      rw [hs] at hstore
      obtain ⟨s', hs', heq⟩ := Option.map_eq_some_iff.1 hstore.symm
      have hget := Store.SameButMisses.get heq.symm k
      rw [hs']
      exact ⟨hget.1, h.set g hget.2⟩

theorem SameButMisses.insertAt (h : c.SameButMisses c') (g : Nat) (k : CacheKey)
    (d : Digest) : (c.insertAt g k d).SameButMisses (c'.insertAt g k d) := by
  have hstore := h.store g
  unfold Cache.insertAt
  cases hs : c.stores[g]? with
  | none =>
      rw [hs] at hstore
      rw [Option.map_eq_none_iff.1 hstore.symm]
      exact h
  | some s =>
      rw [hs] at hstore
      obtain ⟨s', hs', heq⟩ := Option.map_eq_some_iff.1 hstore.symm
      rw [hs']
      exact h.set g (Store.SameButMisses.insert heq.symm k d)

theorem SameButMisses.configure (h : c.SameButMisses c') (capacity : UInt64) :
    (c.configure capacity).SameButMisses (c'.configure capacity) := by
  have hlength : c.stores.length = c'.stores.length := by
    simpa using congrArg List.length h.stores
  unfold Cache.configure
  by_cases hoff : capacity = 0
  · rw [if_pos hoff, if_pos hoff]
    exact ⟨rfl, h.stores⟩
  · rw [if_neg hoff, if_neg hoff]
    refine ⟨by rw [hlength], ?_⟩
    rw [List.map_append, List.map_append, h.stores]

theorem sameButMisses_withMiss (c : Cache) : c.withMiss.SameButMisses c where
  current := current_withMiss c
  stores := by
    unfold withMiss
    cases c.current with
    | none => rfl
    | some g =>
        apply List.ext_getElem?
        intro j
        rw [List.getElem?_map, List.getElem?_map, List.getElem?_modify]
        by_cases hj : g = j
        · simp only [if_pos hj]
          cases c.stores[j]? <;> rfl
        · simp [hj]

end Cache

namespace Site

/-- Nobody holds a gate, and the stores in use are there. -/
structure Resting (s : Site) : Prop where
  free : ∀ i, (s.gate i).held = false
  numbered : ∀ i, (s.cache i).Numbered

theorem resting_fresh (caches : List (Option UInt64))
    (thresholds : List UInt64) : (fresh caches thresholds).Resting where
  free := held_gate_fresh caches thresholds
  numbered :=
    cache_fresh Cache.numbered_disabled
      (Cache.numbered_configure Cache.disabled) caches thresholds

structure SameButMisses (s s' : Site) : Prop where
  forget : s.forgetMisses = s'.forgetMisses
  resting : s.Resting

variable {s s' : Site}

theorem cache_forgetMisses (s : Site) (i : Nat) :
    s.forgetMisses.cache i = (s.cache i).forgetMisses := by
  unfold cache forgetMisses
  cases h : s.caches[i]? with
  | none => simp [h, Cache.forgetMisses, Cache.disabled]
  | some c => simp [h]

theorem forgetMisses_setCache (s : Site) (i : Nat) (c : Cache) :
    (s.setCache i c).forgetMisses =
      s.forgetMisses.setCache i c.forgetMisses := by
  simp [forgetMisses, setCache, List.map_set]

theorem Resting.sameButMisses (hs : s.Resting) : s.SameButMisses s := ⟨rfl, hs⟩

theorem Resting.sameButMisses_withMiss (hs : s.Resting) (i : Nat) :
    s.SameButMisses (s.withMiss i) where
  forget := by
    have hcache := Cache.sameButMisses_iff.1 (s.cache i).sameButMisses_withMiss
    rw [withMiss, forgetMisses_setCache, hcache, ← forgetMisses_setCache,
      setCache_cache_self]
  resting := hs

namespace SameButMisses

theorem cache (h : s.SameButMisses s') (i : Nat) :
    (s.cache i).SameButMisses (s'.cache i) := by
  rw [Cache.sameButMisses_iff, ← cache_forgetMisses, h.forget,
    cache_forgetMisses]

theorem gate (h : s.SameButMisses s') (i : Nat) : s.gate i = s'.gate i := by
  change s.forgetMisses.gate i = s'.forgetMisses.gate i
  rw [h.forget]

theorem setCache (h : s.SameButMisses s') (i : Nat) {c c' : Cache}
    (hc : c.SameButMisses c') (hnumbered : c.Numbered) :
    (s.setCache i c).SameButMisses (s'.setCache i c') where
  forget := by
    rw [forgetMisses_setCache, forgetMisses_setCache, h.forget,
      Cache.sameButMisses_iff.1 hc]
  resting := by
    refine ⟨h.resting.free, fun j => ?_⟩
    rw [cache_setCache]
    split
    · exact hnumbered
    · exact h.resting.numbered j

theorem report (h : s.SameButMisses s') (e : Event) :
    (s.report e).SameButMisses (s'.report e) where
  forget := by
    change s.forgetMisses.report e = s'.forgetMisses.report e
    rw [h.forget]
  resting := ⟨h.resting.free, h.resting.numbered⟩

theorem getAt (h : s.SameButMisses s') (i g : Nat) (k : CacheKey) :
    ((s.cache i).getAt g k).1 = ((s'.cache i).getAt g k).1 ∧
      (s.setCache i ((s.cache i).getAt g k).2).SameButMisses
        (s'.setCache i ((s'.cache i).getAt g k).2) := by
  have hget := (h.cache i).getAt g k
  exact ⟨hget.1, h.setCache i hget.2 ((h.resting.numbered i).getAt g k)⟩

theorem insertAt (h : s.SameButMisses s') (i g : Nat) (k : CacheKey)
    (d : Digest) :
    (s.setCache i ((s.cache i).insertAt g k d)).SameButMisses
      (s'.setCache i ((s'.cache i).insertAt g k d)) :=
  h.setCache i ((h.cache i).insertAt g k d)
    ((h.resting.numbered i).insertAt g k d)

theorem configure (h : s.SameButMisses s') (i : Nat) (capacity : UInt64) :
    (s.configure i capacity).SameButMisses (s'.configure i capacity) := by
  have hset := h.setCache i ((h.cache i).configure capacity)
    (Cache.numbered_configure (s.cache i) capacity)
  exact hset.report _

theorem get (h : s.SameButMisses s') (i : Nat) (k : CacheKey) :
    (s.get i k).1 = (s'.get i k).1 ∧
    (s.get i k).2.SameButMisses (s'.get i k).2 := by
  simp only [Site.get, Cache.get, ← (h.cache i).current]
  cases (s.cache i).current with
  | none => exact ⟨rfl, h.setCache i (h.cache i) (h.resting.numbered i)⟩
  | some g => exact h.getAt i g k

theorem insert (h : s.SameButMisses s') (i : Nat) (k : CacheKey) (d : Digest) :
    (s.insert i k d).SameButMisses (s'.insert i k d) := by
  simp only [Site.insert, Cache.insert, ← (h.cache i).current]
  cases (s.cache i).current with
  | none => exact h
  | some g => exact (h.insertAt i g k d).report _

theorem record (h : s.SameButMisses s') (i g : Nat) (k : CacheKey)
    (answer : Except IoError (Option Digest)) :
    (s.record i g k answer).SameButMisses (s'.record i g k answer) := by
  unfold Site.record
  split
  · exact (h.insertAt i g k _).report _
  · exact h

variable (view : FileView) (fast : Path → Except IoError (Option Digest))

theorem compute (h : s.SameButMisses s') (r : Resolver) (path : Path)
    (size : SizeHint) :
    (s.compute view r path size).1 = (s'.compute view r path size).1 ∧
      (s.compute view r path size).2.SameButMisses
        (s'.compute view r path size).2 := by
  unfold Site.compute
  rw [← (h.cache r.cache).current]
  cases (s.cache r.cache).current with
  | none => exact ⟨rfl, h⟩
  | some g =>
      cases view.stat path with
      | error e => exact ⟨rfl, h⟩
      | ok status =>
          obtain ⟨hfound, hasked⟩ := h.getAt r.cache g ⟨path, status⟩
          simp only [← hfound]
          cases ((s.cache r.cache).getAt g ⟨path, status⟩).1 with
          | some d => exact ⟨rfl, hasked.report _⟩
          | none => exact ⟨rfl, hasked.record r.cache g _ _⟩

theorem computeManually (h : s.SameButMisses s') (r : Resolver) (path : Path)
    (size : SizeHint) :
    ((view.host fast).computeManually r path size s).1 =
        ((view.host fast).computeManually r path size s').1 ∧
      ((view.host fast).computeManually r path size s).2.SameButMisses
        ((view.host fast).computeManually r path size s').2 := by
  have hfree := h.resting.free r.gate
  have hfree' : (s'.gate r.gate).held = false := h.gate r.gate ▸ hfree
  have hboth := h.compute view r path size
  rw [computeManually_host hfree, computeManually_host hfree']
  exact ⟨congrArg some hboth.1, hboth.2⟩

theorem digestWithFallback (h : s.SameButMisses s') (r : Resolver) (path : Path)
    (size : SizeHint) :
    ((view.host fast).digestWithFallback r path size s).1 =
        ((view.host fast).digestWithFallback r path size s').1 ∧
      ((view.host fast).digestWithFallback r path size s).2.SameButMisses
        ((view.host fast).digestWithFallback r path size s').2 := by
  have hboth := h.computeManually view fast r path size
  cases hfast : fast path with
  | error e => simpa [Host.digestWithFallback, FileView.host, hfast] using h
  | ok found =>
      cases found with
      | some d =>
          simpa [Host.digestWithFallback, FileView.host, hfast] using h.report _
      | none =>
          simpa [Host.digestWithFallback, FileView.host, hfast] using hboth

/-- The digest of a tree comes to the same. The induction is on the files of the
walk, and the sites stay the same but for the questions without an answer. -/
theorem digestVisits (h : s.SameButMisses s') (r : Resolver) (root : Path)
    (visits : List Visit) (a : UnorderedDigest) :
    ((view.host fast).digestVisits r root visits a s).1 =
        ((view.host fast).digestVisits r root visits a s').1 ∧
      ((view.host fast).digestVisits r root visits a s).2.SameButMisses
        ((view.host fast).digestVisits r root visits a s').2 := by
  induction visits generalizing a s s' with
  | nil => exact ⟨rfl, h.report _⟩
  | cons v visits ih =>
      cases v with
      | failed path cause => exact ⟨rfl, h⟩
      | file path size =>
          obtain ⟨hone, hnext⟩ := h.digestWithFallback view fast r path size
          rw [Host.digestVisits_file, Host.digestVisits_file, ← hone]
          split
          · split
            · exact ih hnext _
            · exact ⟨rfl, hnext⟩
          · exact ⟨rfl, hnext⟩

end SameButMisses

end Site

inductive Act where
  | request (m : Moment)
  | insert (cache : Nat) (key : CacheKey) (d : Digest)

inductive Reply where
  | done
  | outcome (o : Option Outcome)
  | found (d : Option Digest)
  | counted (enabled : Bool) (maxEntries : Option Nat) (entries : Nat)
      (stats : Except DigestError CacheStats)

def CacheStats.forgetMisses (s : CacheStats) : CacheStats :=
  { s with misses := 0 }

def Reply.forgetMisses : Reply → Reply
  | .counted enabled maxEntries entries stats =>
      .counted enabled maxEntries entries (stats.map CacheStats.forgetMisses)
  | reply => reply

namespace Moment

def reply (m : Moment) (s : Site) : Reply :=
  match m.request with
  | .compute r path size =>
      .outcome ((m.view.host m.fast).computeManually r path size s).1
  | .resolve r path size =>
      .outcome ((m.view.host m.fast).digestWithFallback r path size s).1
  | .tree r root visits =>
      .outcome ((m.view.host m.fast).digestTree r root visits s).1
  | .configure _ _ => .done
  | .lookup i k => .found (s.get i k).1
  | .inspect i =>
      .counted (s.cache i).isEnabled (s.cache i).maxEntries
        (s.cache i).entryCount (s.cache i).stats

/-- The request is one for the digest of a file, and none comes of it. -/
def FailsAt (m : Moment) (s : Site) : Prop :=
  match m.request with
  | .compute r path size =>
      ∃ o, ((m.view.host m.fast).computeManually r path size s).1 =
        some o ∧ o.Fails
  | .resolve r path size =>
      ∃ o, ((m.view.host m.fast).digestWithFallback r path size s).1 =
        some o ∧ o.Fails
  | _ => False

end Moment

namespace Act

def after (s : Site) : Act → Site
  | request m => m.after s
  | insert i k d => s.insert i k d

def reply (s : Site) : Act → Reply
  | request m => m.reply s
  | insert _ _ _ => .done

end Act

namespace Site

def afterActs (s : Site) (acts : List Act) : Site :=
  acts.foldl Act.after s

def replies (s : Site) : List Act → List Reply
  | [] => []
  | a :: acts => a.reply s :: replies (a.after s) acts

variable {s s' : Site}

theorem afterActs_append (s : Site) (acts later : List Act) :
    s.afterActs (acts ++ later) = (s.afterActs acts).afterActs later :=
  List.foldl_append

theorem length_replies (s : Site) (acts : List Act) : (s.replies acts).length =
    acts.length := by
  induction acts generalizing s with
  | nil => rfl
  | cons a acts ih => exact congrArg (· + 1) (ih _)

theorem replies_append (s : Site) (acts later : List Act) :
    s.replies (acts ++ later) = s.replies acts ++
      (s.afterActs acts).replies later := by
  induction acts generalizing s with
  | nil => rfl
  | cons a acts ih => exact congrArg _ (ih _)

namespace SameButMisses

theorem counted (h : s.SameButMisses s') (i : Nat) :
    (Reply.counted (s.cache i).isEnabled (s.cache i).maxEntries
      (s.cache i).entryCount
        (s.cache i).stats).forgetMisses =
      (Reply.counted (s'.cache i).isEnabled (s'.cache i).maxEntries
        (s'.cache i).entryCount (s'.cache i).stats).forgetMisses := by
  have hinUse := (h.cache i).inUse
  unfold Cache.isEnabled Cache.maxEntries Cache.entryCount Cache.stats
  cases hs : (s.cache i).inUse with
  | none =>
      rw [hs] at hinUse
      rw [Option.map_eq_none_iff.1 hinUse.symm]
  | some store =>
      rw [hs] at hinUse
      obtain ⟨store', hs', heq⟩ := Option.map_eq_some_iff.1 hinUse.symm
      obtain ⟨capacity, entries, hits, misses, evictions⟩ := store
      obtain ⟨capacity', entries', hits', misses', evictions'⟩ := store'
      simp only [Store.forgetMisses, Store.mk.injEq, true_and] at heq
      obtain ⟨rfl, rfl, rfl, rfl⟩ := heq
      rw [hs']
      rfl

theorem request (h : s.SameButMisses s') (m : Moment) :
    (m.reply s).forgetMisses = (m.reply s').forgetMisses ∧
      (m.after s).SameButMisses (m.after s') := by
  unfold Moment.reply Moment.after
  cases m.request with
  | compute r path size =>
      have hboth := h.computeManually m.view m.fast r path size
      exact ⟨congrArg Reply.outcome hboth.1, hboth.2⟩
  | resolve r path size =>
      have hboth := h.digestWithFallback m.view m.fast r path size
      exact ⟨congrArg Reply.outcome hboth.1, hboth.2⟩
  | tree r root visits =>
      have hboth := h.digestVisits m.view m.fast r root visits .empty
      exact ⟨congrArg Reply.outcome hboth.1, hboth.2⟩
  | configure i capacity => exact ⟨rfl, h.configure i capacity⟩
  | lookup i k =>
      have hboth := h.get i k
      exact ⟨congrArg Reply.found hboth.1, hboth.2⟩
  | inspect i => exact ⟨h.counted i, h⟩

theorem act (h : s.SameButMisses s') (a : Act) :
    (a.reply s).forgetMisses = (a.reply s').forgetMisses ∧
      (a.after s).SameButMisses (a.after s') := by
  cases a with
  | request m => exact h.request m
  | insert i k d => exact ⟨rfl, h.insert i k d⟩

theorem acts (h : s.SameButMisses s') (acts : List Act) :
    (s.replies acts).map Reply.forgetMisses =
      (s'.replies acts).map Reply.forgetMisses ∧
      (s.afterActs acts).SameButMisses (s'.afterActs acts) := by
  induction acts generalizing s s' with
  | nil => exact ⟨rfl, h⟩
  | cons a acts ih =>
      obtain ⟨hreply, hsite⟩ := h.act a
      obtain ⟨hreplies, hend⟩ := ih hsite
      refine ⟨?_, hend⟩
      simp only [replies, List.map_cons, hreply, hreplies]

end SameButMisses

theorem Resting.afterActs (hs : s.Resting) (acts : List Act) :
    (s.afterActs acts).Resting :=
  (hs.sameButMisses.acts acts).2.resting

theorem Resting.sameButMisses_of_fails (hs : s.Resting) {view : FileView}
    {fast : Path → Except IoError (Option Digest)} {r : Resolver} {path : Path}
    {size : SizeHint} {o : Outcome}
    (hout : ((view.host fast).computeManually r path size s).1 = some o)
    (ho : o.Fails) :
    s.SameButMisses ((view.host fast).computeManually r path size s).2 := by
  rw [computeManually_host (hs.free r.gate)] at hout ⊢
  cases hout
  rcases compute_of_fails ho with heq | heq
  · rw [heq]
    exact hs.sameButMisses
  · rw [heq]
    exact hs.sameButMisses_withMiss r.cache

theorem Resting.sameButMisses_of_failsAt (hs : s.Resting) {m : Moment}
    (h : m.FailsAt s) : s.SameButMisses (m.after s) := by
  obtain ⟨view, fast, request⟩ := m
  cases request with
  | compute r path size =>
      obtain ⟨o, hout, ho⟩ := h
      exact hs.sameButMisses_of_fails hout ho
  | resolve r path size =>
      obtain ⟨o, hout, ho⟩ := h
      unfold Moment.after
      simp only [Host.digestWithFallback, FileView.host] at hout ⊢
      cases hfast : fast path with
      | error e => exact hs.sameButMisses
      | ok found =>
          rw [hfast] at hout
          cases found with
          | some d => exact absurd (Option.some.inj hout).symm (ho d)
          | none => exact hs.sameButMisses_of_fails hout ho
  | _ => exact h.elim

theorem inUse_cache_withMiss (s : Site) (i j : Nat) :
    ((s.withMiss i).cache j).inUse =
      if i = j then (s.cache j).inUse.map Store.withMiss
        else (s.cache j).inUse := by
  by_cases hij : i = j
  · subst hij
    rw [if_pos rfl, cache_withMiss_self, Cache.inUse_withMiss]
  · rw [if_neg hij, withMiss, cache_setCache_of_ne s hij]

/-- A call that leaves the site as it was but for misses can be deleted from a
run. -/
theorem SameButMisses.deleted {start : Site} {before : List Act} {m : Moment}
    (h : (start.afterActs before).SameButMisses
      (m.after (start.afterActs before)))
    (later : List Act) :
    ((start.replies (before ++ .request m :: later)).eraseIdx before.length).map
        Reply.forgetMisses =
      (start.replies (before ++ later)).map Reply.forgetMisses ∧
    (start.afterActs (before ++ .request m :: later)).forgetMisses =
      (start.afterActs (before ++ later)).forgetMisses := by
  obtain ⟨hreplies, hend⟩ := h.acts later
  refine ⟨?_, ?_⟩
  · rw [replies_append, replies_append, replies, ← length_replies start before,
      List.eraseIdx_append_of_length_le (Nat.le_refl _), Nat.sub_self,
      List.eraseIdx_cons_zero, List.map_append, List.map_append, hreplies]
    rfl
  · rw [afterActs_append, afterActs_append]
    exact hend.forget.symm

/-- A call leaves nothing behind when the source of digests at hand fails, when
the status cannot be asked for, or when the content cannot be read and no store
is in use; with a store in use a read in vain leaves one miss there. What the
file system is asked is on the list of its calls. So any such call can be
deleted from a run, and what is answered later and where the run ends stay the
same, but for the misses. -/
theorem failed_call_leaves_a_miss {start : Site} (hstart : start.Resting)
    (before : List Act) :
    let s := start.afterActs before
    (∀ (view : FileView) (fast : Path → Except IoError (Option Digest))
      (r : Resolver)
        (path : Path) (size : SizeHint) (calls : Scenario.Calls),
      let host := view.tallied fast
      let cache := s.cache r.cache
      (∀ e, fast path = .error e →
        host.digestWithFallback r path size (s, calls) =
          (some (.failed (.io path e)),
            (s, { calls with fast := calls.fast + 1 }))) ∧
      (fast path = .ok none →
        host.digestWithFallback r path size (s, calls) =
          host.computeManually r path size
            (s, { calls with fast := calls.fast + 1 })) ∧
      (∀ e, cache.isEnabled = true → view.stat path = .error e →
        host.computeManually r path size (s, calls) =
          (some (.failed (.io path e)),
            (s, { calls with stat := calls.stat + 1 }))) ∧
      ∀ o, view.ReadFails path size o →
        (cache.isEnabled = false →
          host.computeManually r path size (s, calls) =
            (some o, (s, { calls with read := calls.read + 1 }))) ∧
        ∀ status, cache.isEnabled = true → view.stat path = .ok status →
          (cache.get ⟨path, status⟩).1 = none →
          host.computeManually r path size (s, calls) =
            (some o, (s.withMiss r.cache,
              { calls with stat := calls.stat + 1, read := calls.read + 1 }))) ∧
    (∀ i j, (s.gate j).held = false ∧ (s.withMiss i).gate j = s.gate j ∧
      ((s.withMiss i).cache j).inUse =
        if i = j then (s.cache j).inUse.map Store.withMiss
        else (s.cache j).inUse) ∧
    ∀ (m : Moment) (later : List Act), m.FailsAt s →
      ((start.replies (before ++ .request m :: later)).eraseIdx
        before.length).map
          Reply.forgetMisses =
        (start.replies (before ++ later)).map Reply.forgetMisses ∧
      (start.afterActs (before ++ .request m :: later)).forgetMisses =
        (start.afterActs (before ++ later)).forgetMisses := by
  intro s
  have hs : s.Resting := hstart.afterActs before
  refine ⟨?_, ?_, ?_⟩
  · intro view fast r path size calls host cache
    have hfree := hs.free r.gate
    have hon : cache.isEnabled = true ↔ ∃ g, cache.current = some g :=
      (hs.numbered r.cache).isEnabled_iff
    refine ⟨?_, ?_, ?_, ?_⟩
    · intro e hfast
      exact digestWithFallback_of_fast_error view fast r path size calls hfast
    · intro hfast
      exact digestWithFallback_of_fast_none view fast r path size calls hfast
    · intro e henabled hstat
      obtain ⟨g, hg⟩ := hon.1 henabled
      exact computeManually_of_stat_error view fast r path size calls
        hfree hg hstat
    · intro o ho
      refine ⟨?_, ?_⟩
      · intro hdisabled
        have hoff : cache.current = none := by
          apply Option.eq_none_iff_forall_ne_some.2
          intro g hg
          rw [hon.2 ⟨g, hg⟩] at hdisabled
          cases hdisabled
        exact computeManually_off_of_readFails view fast r path size
          calls hfree hoff ho
      · intro status henabled hstat hmiss
        obtain ⟨g, hg⟩ := hon.1 henabled
        exact computeManually_of_readFails view fast r path size calls hfree hg
          hstat hmiss ho
  · intro i j
    exact ⟨hs.free j, gate_withMiss s i j, inUse_cache_withMiss s i j⟩
  · intro m later hm
    exact (hs.sameButMisses_of_failsAt hm).deleted later

/-- A file is recorded. The content of another one, which is large, cannot be
read; that is a miss and a call of each kind, and without it the run goes on to
the same end. -/
theorem failed_call_leaves_a_miss_largeFile :
    let r : Resolver := ⟨0, 0⟩
    let fast : Path → Except IoError (Option Digest) := fun _ => .ok none
    let unreadable : FileView :=
      ⟨fun _ => .ok ⟨2, .epoch, 0⟩, fun _ => .error .notFound⟩
    let recorded : Act :=
      .request ⟨.ofNode 1, fast, .compute r (.ofText "a") .unknown⟩
    let failed : Moment :=
      ⟨unreadable, fast, .resolve r (.ofText "b") (.known 5000)⟩
    let later : List Act := [recorded, .request ⟨unreadable, fast, .inspect 0⟩]
    let start := fresh [some 2] []
    let s := start.afterActs [recorded]
    (unreadable.tallied fast).digestWithFallback r (.ofText "b") (.known 5000)
      (s, ⟨0, 0, 0⟩) =
        (some (.failed (.io (.ofText "b") .notFound)),
          (s.withMiss 0, ⟨1, 1, 1⟩)) ∧
      ((start.afterActs ([recorded] ++ .request failed :: later)).cache
        0).inUse.map Store.stats =
        some ⟨1, 2, 0⟩ ∧
      ((start.afterActs ([recorded] ++ later)).cache 0).inUse.map Store.stats =
        some ⟨1, 1, 0⟩ ∧
      (start.afterActs ([recorded] ++ .request failed :: later)).forgetMisses =
        (start.afterActs ([recorded] ++ later)).forgetMisses := by
  intro r fast unreadable recorded failed later start s
  have hfails : failed.FailsAt s :=
    ⟨.failed (.io (.ofText "b") .notFound), by decide, fun d hd => by cases hd⟩
  obtain ⟨hcalls, -, hrun⟩ :=
    failed_call_leaves_a_miss (resting_fresh [some 2] []) [recorded]
  have hasked :=
    (hcalls unreadable fast r (.ofText "b") (.known 5000) ⟨0, 0, 0⟩).2.1 rfl
  have hread :=
    (hcalls unreadable fast r (.ofText "b") (.known 5000) ⟨0, 0, 1⟩).2.2.2 _
      (.error rfl)
  have hmiss := hread.2 ⟨2, .epoch, 0⟩ (by decide) rfl (by decide)
  exact ⟨hasked.trans hmiss, by decide, by decide, (hrun failed later hfails).2⟩

end Site

end FileDigest
