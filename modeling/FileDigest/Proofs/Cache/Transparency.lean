import FileDigest.Proofs.Cache.Entries
import FileDigest.Proofs.Resolver.Uninterrupted
import FileDigest.Proofs.Tree.Visits

/-!
# A cache does not show

As long as the content of a file is a function of its path and its status, a
computation answers the same with a cache as without one. The invariant is that
every entry of every generation holds the function's value at its key. A hit
answers with such a value, a miss puts one in, and eviction, replacement and
reconfiguration only drop entries; the function is one of the key's identity, so
it does not matter which spelling of a path the entry was put in under.

A run is a list of requests, each with the file system as it is while the
request is answered; between two requests the file system may be another one.
-/

namespace FileDigest

/-- In this file system the digest of a content is the given function of the
path and the status of the file. The function takes the identity of a key, so it
has one value for all spellings of a path. -/
def FileView.Keyed (F : List Component × FileStatus → Digest)
    (view : FileView) : Prop :=
  ∀ path status d, view.stat path = .ok status → view.read path = .ok (some d) →
    d = F (CacheKey.mk path status).identity

def FileView.ofNode (node : UInt64) : FileView :=
  ⟨fun _ => .ok ⟨node, .epoch, 0⟩, fun _ => .ok (some [node.toUInt8])⟩

theorem FileView.keyed_ofNode (node : UInt64) :
    (ofNode node).Keyed fun k => [k.2.node.toUInt8] := by
  intro path status d hstat hread
  cases hstat
  cases hread
  rfl

inductive Request where
  | compute (r : Resolver) (path : Path) (size : SizeHint)
  | resolve (r : Resolver) (path : Path) (size : SizeHint)
  | tree (r : Resolver) (root : Path) (visits : List Visit)
  | configure (cache : Nat) (capacity : UInt64)
  | lookup (cache : Nat) (key : CacheKey)
  /-- Reads the counters of a cache or the number of its entries, or has it do
  what maintenance is due. -/
  | inspect (cache : Nat)

/-- A request, and the file system while it is answered. -/
structure Moment where
  view : FileView
  fast : Path → Except IoError (Option Digest)
  request : Request

def Moment.after (m : Moment) (s : Site) : Site :=
  match m.request with
  | .compute r path size =>
      ((m.view.host m.fast).computeManually r path size s).2
  | .resolve r path size =>
      ((m.view.host m.fast).digestWithFallback r path size s).2
  | .tree r root visits => ((m.view.host m.fast).digestTree r root visits s).2
  | .configure i capacity => s.configure i capacity
  | .lookup i k => (s.get i k).2
  | .inspect _ => s

namespace Site

def afterAll (history : List Moment) (s : Site) : Site :=
  history.foldl (fun s m => m.after s) s

/-- All entries of all generations hold the function's value at their key, and
no read is under way. -/
structure Sound (F : List Component × FileStatus → Digest)
    (s : Site) : Prop where
  entries : ∀ i, (s.cache i).All fun _ k d => d = F k.identity
  gates : ∀ i, (s.gate i).held = false

variable {F : List Component × FileStatus → Digest} {s : Site} {view : FileView}

theorem value_of_beq {j k : CacheKey} {d : Digest} (h : (j == k) = true)
    (hd : d = F j.identity) :
    d = F k.identity := by
  rw [hd, CacheKey.beq_iff.1 h]

theorem sound_fresh (F : List Component × FileStatus → Digest)
    (caches : List (Option UInt64)) (thresholds : List UInt64) :
    (fresh caches thresholds).Sound F where
  entries :=
    cache_fresh (Cache.all_disabled _) (fun n =>
      (Cache.all_disabled _).configure n) caches
      thresholds
  gates := held_gate_fresh caches thresholds

theorem Sound.setCache (hs : s.Sound F) {i : Nat} {c : Cache}
    (hc : c.All fun _ k d => d = F k.identity) :
    (s.setCache i c).Sound F where
  entries j := by
    rw [cache_setCache]
    split
    · exact hc
    · exact hs.entries j
  gates := hs.gates

theorem Sound.report (hs : s.Sound F) (e : Event) : (s.report e).Sound F :=
  ⟨hs.entries, hs.gates⟩

theorem Sound.getAt (hs : s.Sound F) (i g : Nat) (k : CacheKey) :
    (s.setCache i ((s.cache i).getAt g k).2).Sound F :=
  hs.setCache ((hs.entries i).getAt (fun _ _ _ _ => value_of_beq) g k)

theorem Sound.record (hs : s.Sound F) (i g : Nat) {k : CacheKey}
    {answer : Except IoError (Option Digest)}
    (h : ∀ d, answer = .ok (some d) → d = F k.identity) :
    (s.record i g k answer).Sound F := by
  unfold Site.record
  split
  · exact (hs.setCache ((hs.entries i).insertAt (h _ rfl))).report _
  · exact hs

theorem Sound.compute (hs : s.Sound F) (hview : view.Keyed F)
    (r : Resolver) (path : Path) (size : SizeHint) :
    (s.compute view r path size).2.Sound F := by
  unfold Site.compute
  cases (s.cache r.cache).current with
  | none => exact hs
  | some g =>
      cases hstat : view.stat path with
      | error e => exact hs
      | ok status =>
          have hasked := hs.getAt r.cache g ⟨path, status⟩
          dsimp only
          split
          · exact hasked.report _
          · exact hasked.record r.cache g fun d => hview path status d hstat

theorem Sound.compute_digest (hs : s.Sound F) (hview : view.Keyed F)
    (r : Resolver) {path : Path} (size : SizeHint)
    {status : FileStatus} {d : Digest} (hstat : view.stat path = .ok status)
    (hread : view.read path = .ok (some d)) :
    (s.compute view r path size).1 = .digest d := by
  have hout : view.outcome path size = .digest d :=
    FileView.outcome_eq_digest_iff.2 hread
  unfold Site.compute
  cases (s.cache r.cache).current with
  | none => exact hout
  | some g =>
      simp only [hstat]
      cases hasked : ((s.cache r.cache).getAt g ⟨path, status⟩).1 with
      | none => exact hout
      | some d' =>
          have hd' : d' = F (CacheKey.mk path status).identity :=
            (hs.entries r.cache).answer (fun _ _ _ _ => value_of_beq) hasked
          simp only
          rw [hd', ← hview path status d hstat hread]

theorem Sound.computeManually (hs : s.Sound F) (hview : view.Keyed F)
    (fast : Path → Except IoError (Option Digest)) (r : Resolver) (path : Path)
    (size : SizeHint) :
    ((view.host fast).computeManually r path size s).2.Sound F := by
  rw [computeManually_host (hs.gates r.gate)]
  exact hs.compute hview r path size

theorem Sound.digestWithFallback (hs : s.Sound F) (hview : view.Keyed F)
    (fast : Path → Except IoError (Option Digest)) (r : Resolver) (path : Path)
    (size : SizeHint) :
    ((view.host fast).digestWithFallback r path size s).2.Sound F := by
  unfold Host.digestWithFallback
  cases hfast : fast path with
  | error e => simpa [FileView.host, hfast] using hs
  | ok found =>
      cases found with
      | some d => simpa [FileView.host, hfast] using hs.report _
      | none =>
          simpa [FileView.host, hfast] using
            hs.computeManually hview fast r path size

theorem Sound.digestVisits (hview : view.Keyed F)
    (fast : Path → Except IoError (Option Digest)) (r : Resolver) (root : Path)
    (visits : List Visit) (a : UnorderedDigest) (hs : s.Sound F) :
    ((view.host fast).digestVisits r root visits a s).2.Sound F := by
  induction visits generalizing a s with
  | nil => exact hs.report _
  | cons v visits ih =>
      cases v with
      | failed path cause => exact hs
      | file path size =>
          have hone := hs.digestWithFallback hview fast r path size
          rw [Host.digestVisits_file]
          split
          · split
            · exact ih _ hone
            · exact hone
          · exact hone

theorem Sound.configure (hs : s.Sound F) (i : Nat) (capacity : UInt64) :
    (s.configure i capacity).Sound F :=
  (hs.setCache ((hs.entries i).configure capacity)).report _

theorem Sound.get (hs : s.Sound F) (i : Nat) (k : CacheKey) :
    (s.get i k).2.Sound F := by
  change (s.setCache i ((s.cache i).get k).2).Sound F
  unfold Cache.get
  split
  · exact hs.getAt i _ k
  · exact hs.setCache (hs.entries i)

theorem Sound.after (hs : s.Sound F) {m : Moment} (hm : m.view.Keyed F) :
    (m.after s).Sound F := by
  unfold Moment.after
  cases m.request with
  | compute r path size => exact hs.computeManually hm m.fast r path size
  | resolve r path size => exact hs.digestWithFallback hm m.fast r path size
  | tree r root visits =>
      exact Sound.digestVisits hm m.fast r root visits .empty hs
  | configure i capacity => exact hs.configure i capacity
  | lookup i k => exact hs.get i k
  | inspect i => exact hs

theorem Sound.afterAll (hs : s.Sound F) {history : List Moment}
    (h : ∀ m ∈ history, m.view.Keyed F) :
    (s.afterAll history).Sound F := by
  induction history generalizing s with
  | nil => exact hs
  | cons m history ih =>
      have hm : m.view.Keyed F := h m List.mem_cons_self
      exact ih (hs.after hm) fun m' hm' => h m' (List.mem_cons_of_mem m hm')

def withoutCache (s : Site) (i : Nat) : Site :=
  s.setCache i Cache.disabled

theorem Sound.withoutCache (hs : s.Sound F) (i : Nat) :
    (s.withoutCache i).Sound F :=
  hs.setCache (Cache.all_disabled _)

/-- What a site that satisfies the invariant answers for a file does not hang on
the site. -/
theorem Sound.computeManually_digest (hs : s.Sound F) (hview : view.Keyed F)
    (fast : Path → Except IoError (Option Digest)) (r : Resolver) {path : Path}
    (size : SizeHint) {status : FileStatus} {d : Digest}
    (hstat : view.stat path = .ok status)
    (hread : view.read path = .ok (some d)) :
    ((view.host fast).computeManually r path size s).1 = some (.digest d) := by
  rw [computeManually_host (hs.gates r.gate),
    hs.compute_digest hview r size hstat hread]

end Site

def FileView.Readable (view : FileView) (path : Path) : Prop :=
  ∃ status d, view.stat path = .ok status ∧ view.read path = .ok (some d)

namespace Site

variable {F : List Component × FileStatus → Digest} {s s' : Site}
  {view : FileView}

theorem Sound.digestWithFallback_eq (hs : s.Sound F) (hs' : s'.Sound F)
    (hview : view.Keyed F) (fast : Path → Except IoError (Option Digest))
    (r : Resolver) {path : Path} (size : SizeHint)
    (h : fast path = .ok none → view.Readable path) :
    ((view.host fast).digestWithFallback r path size s).1 =
      ((view.host fast).digestWithFallback r path size s').1 := by
  unfold Host.digestWithFallback
  cases hfast : fast path with
  | error e => simp [FileView.host, hfast]
  | ok found =>
      cases found with
      | some d => simp [FileView.host, hfast]
      | none =>
          obtain ⟨status, d, hstat, hread⟩ := h hfast
          have h₁ := hs.computeManually_digest hview fast r size hstat hread
          have h₂ := hs'.computeManually_digest hview fast r size hstat hread
          simp only [FileView.host, hfast] at h₁ h₂ ⊢
          rw [h₁, h₂]

/-- Two sites that satisfy the invariant answer the same for a tree. The
induction is on the files of the walk; both sites change, and both keep the
invariant. -/
theorem Sound.digestVisits_eq (hs : s.Sound F) (hs' : s'.Sound F)
    (hview : view.Keyed F) (fast : Path → Except IoError (Option Digest))
    (r : Resolver) (root : Path) {visits : List Visit}
    (h : ∀ path size, Visit.file path size ∈ visits → fast path = .ok none →
      view.Readable path)
    (a : UnorderedDigest) :
    ((view.host fast).digestVisits r root visits a s).1 =
      ((view.host fast).digestVisits r root visits a s').1 := by
  induction visits generalizing a s s' with
  | nil => rfl
  | cons v visits ih =>
      cases v with
      | failed path cause => rfl
      | file path size =>
          have hone := hs.digestWithFallback_eq hs' hview fast r size
            (h path size List.mem_cons_self)
          have hnext := hs.digestWithFallback hview fast r path size
          have hnext' := hs'.digestWithFallback hview fast r path size
          have hrest : ∀ path size, Visit.file path size ∈ visits →
              fast path = .ok none →
              view.Readable path :=
            fun p n hp => h p n (List.mem_cons_of_mem _ hp)
          rw [Host.digestVisits_file, Host.digestVisits_file, ← hone]
          split
          · split
            · exact ih hnext hnext' hrest _
            · rfl
          · rfl

/-- After any run from a fresh site, a request is answered as if its cache were
off: a computation on a readable file finds the digest of its content, and a
request or a tree whose files are readable, where they have no digest at hand,
has the same outcome. -/
theorem answer_eq_answer_withoutCache {F : List Component × FileStatus → Digest}
    (caches : List (Option UInt64)) (thresholds : List UInt64)
    {history : List Moment} (hhistory : ∀ m ∈ history, m.view.Keyed F)
    {view : FileView} (hview : view.Keyed F)
    (fast : Path → Except IoError (Option Digest)) (r : Resolver) :
    let s := (fresh caches thresholds).afterAll history
    let off := s.withoutCache r.cache
    let host := view.host fast
    (∀ path size status d, view.stat path = .ok status → view.read path =
      .ok (some d) → (host.computeManually r path size s).1 = some (.digest d) ∧
        (host.computeManually r path size off).1 = some (.digest d)) ∧
    (∀ path size, (fast path = .ok none → view.Readable path) →
      (host.digestWithFallback r path size s).1 =
        (host.digestWithFallback r path size off).1) ∧
    ∀ root visits,
      (∀ path size, Visit.file path size ∈ visits → fast path = .ok none →
        view.Readable path) →
      (host.digestTree r root visits s).1 =
        (host.digestTree r root visits off).1 := by
  intro s off host
  have hs : s.Sound F := (sound_fresh F caches thresholds).afterAll hhistory
  have hoff : off.Sound F := hs.withoutCache r.cache
  refine ⟨?_, ?_, ?_⟩
  · intro path size status d hstat hread
    exact ⟨hs.computeManually_digest hview fast r size hstat hread,
      hoff.computeManually_digest hview fast r size hstat hread⟩
  · intro path size h
    exact hs.digestWithFallback_eq hoff hview fast r size h
  · intro root visits h
    exact hs.digestVisits_eq hoff hview fast r root h .empty

/-- A file is recorded under one spelling of its path, replaced by another file
and put back; under another spelling it is found with its own content. -/
theorem answer_eq_answer_withoutCache_respelled :
    let r : Resolver := ⟨0, 0⟩
    let fast : Path → Except IoError (Option Digest) := fun _ => .ok none
    let first : Moment :=
      ⟨.ofNode 1, fast, .compute r (.ofText "a/./b") .unknown⟩
    let second : Moment :=
      ⟨.ofNode 2, fast, .compute r (.ofText "a/b") .unknown⟩
    let s := (fresh [some 2] []).afterAll [first, second]
    let host := (FileView.ofNode 1).host fast
    (host.computeManually r (.ofText "a//b") .unknown s).1 =
      some (.digest [1]) ∧
      (host.computeManually r (.ofText "a//b") .unknown (s.withoutCache 0)).1 =
        some (.digest [1]) := by
  intro r fast first second s host
  have hhistory : ∀ m ∈ [first, second], m.view.Keyed fun k =>
      [k.2.node.toUInt8] := by
    intro m hm
    rcases List.mem_cons.1 hm with rfl | hm
    · exact FileView.keyed_ofNode 1
    · rw [List.mem_singleton.1 hm]
      exact FileView.keyed_ofNode 2
  exact (answer_eq_answer_withoutCache [some 2] [] hhistory
    (FileView.keyed_ofNode 1) fast r).1 (.ofText "a//b") .unknown ⟨1, .epoch,
    0⟩ [1] rfl rfl

end Site

end FileDigest
