import FileDigest.Proofs.Process.Basic
import FileDigest.Proofs.Process.Requests
import Mathlib.Algebra.Order.BigOperators.Group.List
import Mathlib.Algebra.Order.Group.Nat

/-!
# The work of resolvers is accounted for

Any number of requests are under way at a site, in a file system that changes
between their steps and counts what it is asked, for each cache apart. Caches
are configured anew at any time; nobody looks into a cache or puts a digest in
but the requests.

What a request is about to do is read off how far it has come, and the entries
of a run are what its steps came to. Every step keeps the books of a cache
balanced (`Progress.Step.balanced`): a computation that found the cache on has
asked for a status or is about to, one that was identified has put its question
to a store or is about to, and one that found the cache off or was counted as a
miss has read the content or is about to. So when nothing is under way, the
calls and the questions of all generations are those of the computations.
-/

namespace FileDigest

namespace Cache

/-- The questions that the stores of a cache had an answer to, in all
generations. -/
def totalHits (c : Cache) : Nat :=
  (c.stores.map Store.hits).sum

def totalMisses (c : Cache) : Nat :=
  (c.stores.map Store.misses).sum

variable {c : Cache} {g : Nat}

theorem totals_getAt (h : g < c.stores.length) (k : CacheKey) :
    (c.getAt g k).2.totalHits = c.totalHits + (c.getAt g k).1.isSome.toNat ∧
      (c.getAt g k).2.totalMisses =
        c.totalMisses + (c.getAt g k).1.isNone.toNat := by
  have hs : c.stores[g]? = some c.stores[g] := List.getElem?_eq_getElem h
  have hhits := Process.sum_map_set Store.hits hs (c.stores[g].get k).2
  have hmisses := Process.sum_map_set Store.misses hs (c.stores[g].get k).2
  simp only [getAt, hs, totalHits, totalMisses]
  cases hk : Recency.find? k c.stores[g].entries with
  | none =>
      rw [Store.get_of_find?_eq_none hk] at hhits hmisses ⊢
      simp only [Option.isSome_none, Option.isNone_none, Bool.toNat_false,
        Bool.toNat_true] at *
      omega
  | some d =>
      rw [Store.get_of_find? hk] at hhits hmisses ⊢
      simp only [Option.isSome_some, Option.isNone_some, Bool.toNat_false,
        Bool.toNat_true] at *
      omega

theorem totals_insertAt (c : Cache) (g : Nat) (k : CacheKey) (d : Digest) :
    (c.insertAt g k d).totalHits = c.totalHits ∧
      (c.insertAt g k d).totalMisses = c.totalMisses := by
  unfold insertAt
  cases hs : c.stores[g]? with
  | none => exact ⟨rfl, rfl⟩
  | some s =>
      have hhits := Process.sum_map_set Store.hits hs (s.insert k d)
      have hmisses := Process.sum_map_set Store.misses hs (s.insert k d)
      exact ⟨Nat.add_right_cancel hhits, Nat.add_right_cancel hmisses⟩

theorem totals_configure (c : Cache) (capacity : UInt64) :
    (c.configure capacity).totalHits = c.totalHits ∧
      (c.configure capacity).totalMisses = c.totalMisses := by
  unfold configure
  by_cases hoff : capacity = 0
  · rw [if_pos hoff]
    exact ⟨rfl, rfl⟩
  · rw [if_neg hoff]
    simp [totalHits, totalMisses, Store.empty]

/-- The counters of a store are exact while all the questions together are fewer
than 64 bits can count. -/
theorem toNat_stats (hfew : c.totalHits + c.totalMisses < wordLimit) {s : Store}
    (hs : s ∈ c.stores) :
    s.stats.hits.toNat = s.hits ∧ s.stats.misses.toNat = s.misses := by
  have hhits : s.hits ≤ c.totalHits :=
    List.le_sum_of_mem (List.mem_map_of_mem hs)
  have hmisses : s.misses ≤ c.totalMisses :=
    List.le_sum_of_mem (List.mem_map_of_mem hs)
  have hhits' : s.hits < wordLimit := by omega
  have hmisses' : s.misses < wordLimit := by omega
  exact ⟨UInt64.toNat_ofNat_of_lt' hhits', UInt64.toNat_ofNat_of_lt' hmisses'⟩

end Cache

namespace Stage

@[simp] def isOpening : Stage → Bool
  | opening => true
  | _ => false

@[simp] def isIdentifying : Stage → Bool
  | identifying _ => true
  | _ => false

@[simp] def isConsulting : Stage → Bool
  | consulting _ => true
  | _ => false

@[simp] def awaitsRead : Stage → Bool
  | entering _ => true
  | reading _ => true
  | _ => false

end Stage

theorem Call.afterRead_cases (c : Call) (slot : Option Slot)
    (answer : Except IoError (Option Digest)) :
    (∃ o, c.afterRead slot answer = .finished o) ∨
      ∃ slot' d, c.afterRead slot answer = .recording slot' d := by
  cases answer with
  | error e => exact Or.inl ⟨_, rfl⟩
  | ok found =>
      cases found with
      | none => exact Or.inl ⟨_, rfl⟩
      | some d =>
          cases slot with
          | none => exact Or.inl ⟨_, rfl⟩
          | some slot => exact Or.inr ⟨slot, d, rfl⟩

/-- What a step of a request comes to. -/
inductive Entry where
  /-- A manual computation was asked for. -/
  | demanded
  /-- A request found a digest at hand, or the source of these failed. -/
  | aided
  /-- A request found no digest at hand. -/
  | unaided
  /-- A manual computation began, and found its cache on or off. -/
  | began (enabled : Bool)
  /-- A manual computation asked for the status of its file. -/
  | identified (succeeded : Bool)
deriving DecidableEq

namespace Progress

def under (f : Stage → Bool) : Progress → Nat
  | computing _ _ _ stage => (f stage).toNat
  | _ => 0

def Holds (c : Cache) : Progress → Prop
  | computing _ _ _ (.identifying g) => g < c.stores.length
  | computing _ _ _ (.consulting slot) => slot.store < c.stores.length
  | _ => True

/-- What the next step of a request comes to. -/
def booking? (view : FileView) (fast : Path → Except IoError (Option Digest))
    (c : Cache) :
    Progress → Option Entry
  | asking _ path _ =>
      match fast path with
      | .ok none => some .unaided
      | _ => some .aided
  | computing _ _ _ .opening => some (.began c.isEnabled)
  | computing _ path _ (.identifying _) =>
      some (.identified (view.stat path).isOk)
  | _ => none

@[simp] theorem under_asking (f : Stage → Bool)
    (walk : Option TreeWalk) (path : Path) (size : SizeHint) :
    (asking walk path size).under f = 0 := rfl

@[simp] theorem under_computing (f : Stage → Bool)
    (walk : Option TreeWalk) (path : Path) (size : SizeHint) (stage : Stage) :
    (computing walk path size stage).under f = (f stage).toNat := rfl

@[simp] theorem under_walking (f : Stage → Bool) (walk : TreeWalk) :
    (walking walk).under f = 0 := rfl

@[simp] theorem under_ended (f : Stage → Bool) (o : Outcome) :
    (ended o).under f = 0 := rfl

def isEnded : Progress → Bool
  | ended _ => true
  | _ => false

theorem under_of_isEnded (f : Stage → Bool) {x : Progress}
    (h : x.isEnded = true) : x.under f = 0 := by
  cases x with
  | ended o => rfl
  | _ => cases h

@[simp] theorem under_settled (f : Stage → Bool) (walk : Option TreeWalk)
    (path : Path) (o : Outcome) : (settled walk path o).under f = 0 := by
  unfold settled
  split
  · split <;> rfl
  · rfl

theorem holds_settled (c : Cache) (walk : Option TreeWalk) (path : Path)
    (o : Outcome) : (settled walk path o).Holds c := by
  unfold settled
  split
  · split <;> trivial
  · trivial

theorem Holds.mono {c c' : Cache} {x : Progress} (h : x.Holds c)
    (hle : c.stores.length ≤ c'.stores.length) :
    x.Holds c' := by
  unfold Holds at h ⊢
  split
  · exact Nat.lt_of_lt_of_le h hle
  · exact Nat.lt_of_lt_of_le h hle
  · trivial

/-- The books of a cache before and after a step with certain entries. -/
structure Balanced (c c' : Cache) (calls calls' : Scenario.Calls)
    (x x' : Progress) (entries : List Entry) : Prop where
  stat : calls'.stat + x'.under Stage.isIdentifying =
    calls.stat + x.under Stage.isIdentifying + entries.count (.began true)
  read : calls'.read + x'.under Stage.awaitsRead + c.totalMisses =
    calls.read + x.under Stage.awaitsRead + c'.totalMisses + entries.count
      (.began false)
  asked : c'.totalHits + c'.totalMisses + x'.under Stage.isConsulting =
    c.totalHits + c.totalMisses + x.under Stage.isConsulting + entries.count
      (.identified true)
  begun : entries.count (.began true) + entries.count (.began false) +
      x'.under Stage.isOpening =
    x.under Stage.isOpening + entries.count .unaided
  fast : calls'.fast = calls.fast + entries.count .unaided +
    entries.count .aided
  demanded : entries.count .demanded = 0

variable {view : FileView} {fast : Path → Except IoError (Option Digest)}
  {s s' : Site} {r : Resolver} {x x' : Progress}

/-- A step touches no cache but the one of its resolver, and makes no store
there and puts none into use. -/
theorem Step.cache_of_ne (h : Step view fast s r x x' s') {i : Nat}
    (hi : r.cache ≠ i) : s'.cache i = s.cache i := by
  cases h with
  | computed hgoing hcall =>
      cases hcall <;> simp [Site.cache_setCache_of_ne _ hi]
  | _ => rfl

theorem Step.same_stores (h : Step view fast s r x x' s') :
    (s'.cache r.cache).current = (s.cache r.cache).current ∧
      (s'.cache r.cache).stores.length = (s.cache r.cache).stores.length := by
  cases h with
  | computed hgoing hcall =>
      cases hcall <;>
        simp [Cache.length_stores_getAt, Cache.length_stores_insertAt]
  | _ => exact ⟨rfl, rfl⟩

theorem Step.holds (h : Step view fast s r x x' s')
    (hn : (s.cache r.cache).Numbered) (hx : x.Holds (s.cache r.cache)) :
    x'.Holds (s'.cache r.cache) := by
  have hlength := h.same_stores.2
  cases h with
  | @computed walk path size stage stage' s' hgoing hcall =>
      cases hcall with
      | taken hg => exact hn _ hg
      | identified hstat => exact hx
      | @left slot answer =>
          rcases Call.afterRead_cases ⟨r, path, size, .leaving slot answer⟩
            slot answer with
            ⟨o, hstage⟩ | ⟨slot', d, hstage⟩
          · rw [hstage]
            trivial
          · rw [hstage]
            trivial
      | _ => trivial
  | refused hfast => exact holds_settled _ _ _ _
  | atHand hfast => exact holds_settled _ _ _ _
  | finished => exact holds_settled _ _ _ _
  | _ => trivial

theorem Step.balanced (h : Step view fast s r x x' s')
    (hn : (s.cache r.cache).Numbered) (hx : x.Holds (s.cache r.cache))
    (calls : Scenario.Calls) :
    Balanced (s.cache r.cache) (s'.cache r.cache) calls (x.charged calls) x x'
      (x.booking? view fast (s.cache r.cache)).toList := by
  cases h with
  | @computed walk path size stage stage' s' hgoing hcall =>
      cases hcall with
      | taken hg =>
          have hon := hn.isEnabled_iff.2 ⟨_, hg⟩
          constructor <;> simp [charged, booking?, hon]
      | off hoff =>
          have hdisabled : (s.cache r.cache).isEnabled = false := by
            simp [Cache.isEnabled, Cache.inUse, hoff]
          constructor <;> simp [charged, booking?, hdisabled]
          omega
      | identified hstat =>
          constructor <;> simp [charged, booking?, hstat, Except.isOk,
            Except.toBool]
      | unidentified hstat =>
          constructor <;> simp [charged, booking?, hstat, Except.isOk,
            Except.toBool]
      | @hit slot d hfound =>
          obtain ⟨hhits, hmisses⟩ := Cache.totals_getAt hx slot.key
          rw [hfound] at hhits hmisses
          constructor <;> simp [charged, booking?, hhits, hmisses]
          omega
      | @miss slot hfound =>
          obtain ⟨hhits, hmisses⟩ := Cache.totals_getAt hx slot.key
          rw [hfound] at hhits hmisses
          constructor <;> simp [charged, booking?, hhits, hmisses]
          all_goals omega
      | entered henter => constructor <;> simp [charged, booking?]
      | read => constructor <;> simp [charged, booking?]
      | @left slot answer =>
          rcases Call.afterRead_cases ⟨r, path, size, .leaving slot answer⟩
            slot answer with
            ⟨o, hstage⟩ | ⟨slot', d, hstage⟩
          · constructor <;> simp [charged, booking?, hstage]
          · constructor <;> simp [charged, booking?, hstage]
      | @recorded slot d =>
          obtain ⟨hhits, hmisses⟩ :=
            Cache.totals_insertAt (s.cache r.cache) slot.store slot.key d
          constructor <;> simp [charged, booking?, hhits, hmisses]
      | stayed => exact absurd rfl (hgoing _)
  | refused hfast => constructor <;> simp [charged, booking?, hfast]
  | atHand hfast => constructor <;> simp [charged, booking?, hfast]
  | unaided hfast => constructor <;> simp [charged, booking?, hfast]
  | _ => constructor <;> simp [charged, booking?]

end Progress

def PendingRequest.under (e : PendingRequest) (i : Nat)
    (f : Stage → Bool) : Nat :=
  if e.resolver.cache = i then e.progress.under f else 0

/-- A site with requests under way, in a file system that counts its calls. -/
structure TalliedProcess where
  view : FileView
  fast : Path → Except IoError (Option Digest)
  site : Site
  requests : List PendingRequest
  /-- How often the file system was asked by the resolvers of a cache. -/
  tally : Nat → Scenario.Calls

namespace TalliedProcess

inductive Move where
  | change (view : FileView) (fast : Path → Except IoError (Option Digest))
  | configure (cache : Nat) (capacity : UInt64)
  | accept (d : DigestRequest)
  | advance (request : Nat)

def start (caches : List (Option UInt64)) (thresholds : List UInt64)
    (view : FileView) (fast : Path → Except IoError (Option Digest)) :
    TalliedProcess :=
  ⟨view, fast, Site.fresh caches thresholds, [], fun _ => ⟨0, 0, 0⟩⟩

def advance (d : TalliedProcess) (j : Nat) : Option TalliedProcess :=
  match d.requests[j]? with
  | some e =>
      (e.step (d.view.tallied d.fast) (d.site, d.tally e.resolver.cache)).map
        fun x =>
        { d with
          site := x.2.1
          requests := d.requests.set j x.1
          tally := Function.update d.tally e.resolver.cache x.2.2 }
  | none => none

def step (d : TalliedProcess) : Move → Option TalliedProcess
  | .change view fast => some { d with view := view, fast := fast }
  | .configure i capacity => some { d with site := d.site.configure i capacity }
  | .accept x =>
      some { d with requests := d.requests ++ [⟨x.resolver, x.progress⟩] }
  | .advance j => d.advance j

def run (d : TalliedProcess) : List Move → Option TalliedProcess
  | [] => some d
  | m :: ms => (d.step m).bind fun d => d.run ms

/-- The entry of a move in the books of a cache. -/
def booking? (d : TalliedProcess) (i : Nat) : Move → Option Entry
  | .accept (.compute r _ _) => if r.cache = i then some .demanded else none
  | .advance j =>
      d.requests[j]?.bind fun e =>
        if e.resolver.cache = i then e.progress.booking? d.view d.fast
          (d.site.cache i) else none
  | _ => none

def entries (d : TalliedProcess) (i : Nat) : List Move → List Entry
  | [] => []
  | m :: ms =>
      (d.booking? i m).toList ++ (d.step m).elim [] fun d => d.entries i ms

def Quiet (d : TalliedProcess) : Prop :=
  ∀ e ∈ d.requests, e.progress.isEnded = true

def under (d : TalliedProcess) (i : Nat) (f : Stage → Bool) : Nat :=
  (d.requests.map fun e => e.under i f).sum

theorem Quiet.under {d : TalliedProcess} (h : d.Quiet) (i : Nat)
    (f : Stage → Bool) : d.under i f = 0 := by
  refine List.sum_eq_zero fun n hn => ?_
  obtain ⟨e, he, rfl⟩ := List.mem_map.1 hn
  rw [PendingRequest.under, Progress.under_of_isEnded f (h e he), ite_self]

/-- The books of a cache, with what is still to be done. -/
structure Accounted (d : TalliedProcess) (i : Nat) (entries : List Entry) :
    Prop where
  numbered : (d.site.cache i).Numbered
  holds : ∀ e ∈ d.requests, e.resolver.cache = i →
    e.progress.Holds (d.site.cache i)
  stat : (d.tally i).stat + d.under i Stage.isIdentifying =
    entries.count (.began true)
  read : (d.tally i).read + d.under i Stage.awaitsRead =
    entries.count (.began false) + (d.site.cache i).totalMisses
  asked : (d.site.cache i).totalHits + (d.site.cache i).totalMisses +
    d.under i Stage.isConsulting = entries.count (.identified true)
  begun : entries.count (.began true) + entries.count (.began false) +
    d.under i Stage.isOpening =
    entries.count .demanded + entries.count .unaided
  fast : (d.tally i).fast = entries.count .unaided + entries.count .aided

variable {d d' : TalliedProcess} {i : Nat} {entries : List Entry}

theorem accounted_start (caches : List (Option UInt64))
    (thresholds : List UInt64) (view : FileView)
    (fast : Path → Except IoError (Option Digest)) (i : Nat) :
    (start caches thresholds view fast).Accounted i [] := by
  have htotals : ((Site.fresh caches thresholds).cache i).totalHits = 0 ∧
      ((Site.fresh caches thresholds).cache i).totalMisses = 0 := by
    refine Site.cache_fresh (p := fun c => c.totalHits = 0 ∧ c.totalMisses = 0)
      ⟨rfl, rfl⟩ ?_ _ _ i
    intro n
    exact Cache.totals_configure Cache.disabled n
  refine ⟨?_, ?_, rfl, ?_, ?_, rfl, rfl⟩
  · exact Site.cache_fresh Cache.numbered_disabled (Cache.numbered_configure _)
      caches thresholds i
  · intro e he
    cases he
  · simp [start, under, htotals.2]
  · simp [start, under, htotals.1, htotals.2]

theorem Accounted.configure (h : d.Accounted i entries) (j : Nat)
    (capacity : UInt64) :
    ({ d with site := d.site.configure j capacity } : TalliedProcess).Accounted
      i entries := by
  rcases d.site.cache_configure_cases j i capacity with hcache | hcache
  · obtain ⟨hhits, hmisses⟩ := (d.site.cache i).totals_configure capacity
    have hlength := Cache.length_stores_configure (d.site.cache i) capacity
    refine ⟨?_, ?_, h.stat, ?_, ?_, h.begun, h.fast⟩ <;> simp only [hcache]
    · exact Cache.numbered_configure _ _
    · exact fun e he hi => (h.holds e he hi).mono hlength
    · exact hmisses ▸ h.read
    · exact hhits ▸ hmisses ▸ h.asked
  · refine ⟨?_, ?_, h.stat, ?_, ?_, h.begun, h.fast⟩ <;> simp only [hcache]
    · exact h.numbered
    · exact h.holds
    · exact h.read
    · exact h.asked

theorem under_accept (d : TalliedProcess) (x : DigestRequest) (i : Nat)
    (f : Stage → Bool) :
    ({ d with requests := d.requests ++ [⟨x.resolver, x.progress⟩] } :
      TalliedProcess).under i f =
      d.under i f + PendingRequest.under ⟨x.resolver, x.progress⟩ i f := by
  simp [under]

theorem count_accept (d : TalliedProcess) (i : Nat) (x : DigestRequest) :
    (d.booking? i (.accept x)).toList.count .demanded =
        PendingRequest.under ⟨x.resolver, x.progress⟩ i Stage.isOpening ∧
      ∀ k, k ≠ .demanded → (d.booking? i (.accept x)).toList.count k = 0 := by
  cases x with
  | compute r path size =>
      by_cases hi : r.cache = i
      · refine ⟨by simp [booking?, PendingRequest.under, DigestRequest.resolver,
          DigestRequest.progress, hi], ?_⟩
        intro k hk
        apply List.count_eq_zero_of_not_mem
        simpa [booking?, hi] using hk
      · simp [booking?, PendingRequest.under, DigestRequest.resolver, hi]
  | resolve r path size =>
      simp [booking?, PendingRequest.under, DigestRequest.progress]
  | tree r root visits =>
      simp [booking?, PendingRequest.under, DigestRequest.progress]

theorem Accounted.accept (h : d.Accounted i entries) (x : DigestRequest) :
    ({ d with requests := d.requests ++ [⟨x.resolver, x.progress⟩] } :
      TalliedProcess).Accounted i
      (entries ++ (d.booking? i (.accept x)).toList) := by
  have hnone : ∀ f, f .opening = false →
      PendingRequest.under ⟨x.resolver, x.progress⟩ i f = 0 := by
    intro f hf
    cases x <;> simp [PendingRequest.under, DigestRequest.progress, hf]
  obtain ⟨hdemanded, hcount⟩ := d.count_accept i x
  refine ⟨h.numbered, ?_, ?_, ?_, ?_, ?_, ?_⟩
  · intro e he hi
    rcases List.mem_append.1 he with he | he
    · exact h.holds e he hi
    · rw [List.mem_singleton.1 he]
      cases x <;> trivial
  · rw [under_accept, hnone _ rfl, List.count_append, hcount _ (by simp)]
    exact h.stat
  · rw [under_accept, hnone _ rfl, List.count_append, hcount _ (by simp)]
    exact h.read
  · rw [under_accept, hnone _ rfl, List.count_append, hcount _ (by simp)]
    exact h.asked
  · have hbegun := h.begun
    simp only [under_accept, List.count_append, hdemanded,
      hcount (.began true) (by simp), hcount (.began false) (by simp),
      hcount .unaided (by simp)]
    omega
  · simp only [List.count_append, hcount .unaided (by simp),
      hcount .aided (by simp)]
    exact h.fast

/-- The request with a number has gone on, and the call that it cost is put down
to the cache of its resolver. -/
structure Advanced (d d' : TalliedProcess) (j : Nat) (e : PendingRequest)
    (progress : Progress) : Prop where
  request : d.requests[j]? = some e
  turn : Progress.Step d.view d.fast d.site e.resolver e.progress
    progress d'.site
  requests : d'.requests = d.requests.set j { e with progress := progress }
  tally : d'.tally = Function.update d.tally e.resolver.cache
    (e.progress.charged (d.tally e.resolver.cache))

theorem exists_advanced {j : Nat} (h : d.advance j = some d') :
    ∃ e progress, Advanced d d' j e progress := by
  unfold advance at h
  cases he : d.requests[j]? with
  | none =>
      rw [he] at h
      cases h
  | some e =>
      rw [he] at h
      obtain ⟨⟨e', s', calls⟩, hstep, rfl⟩ := Option.map_eq_some_iff.1 h
      obtain ⟨progress, rfl, rfl, hprogress⟩ := PendingRequest.step_sound hstep
      exact ⟨e, progress, he, hprogress, rfl, rfl⟩

namespace Advanced

variable {j : Nat} {e : PendingRequest} {progress : Progress}

theorem booking?_eq (h : Advanced d d' j e progress) (i : Nat) :
    d.booking? i (.advance j) =
      if e.resolver.cache = i then e.progress.booking? d.view d.fast
        (d.site.cache i) else none := by
  simp [booking?, h.request]

theorem under_add (h : Advanced d d' j e progress) (i : Nat)
    (f : Stage → Bool) :
    d'.under i f + e.under i f =
      d.under i f + ({ e with progress := progress } : PendingRequest).under i
        f := by
  rw [under, h.requests]
  exact Process.sum_map_set (fun e => e.under i f) h.request _

theorem tally_of_ne (h : Advanced d d' j e progress) {i : Nat}
    (hi : i ≠ e.resolver.cache) : d'.tally i = d.tally i := by
  rw [h.tally, Function.update_of_ne hi]

theorem tally_self (h : Advanced d d' j e progress) :
    d'.tally e.resolver.cache =
      e.progress.charged (d.tally e.resolver.cache) := by
  rw [h.tally, Function.update_self]

theorem accounted_self (h : Advanced d d' j e progress)
    (hd : d.Accounted e.resolver.cache entries) :
    d'.Accounted e.resolver.cache (entries ++
      (e.progress.booking? d.view d.fast
        (d.site.cache e.resolver.cache)).toList) := by
  have hholds := hd.holds e (List.mem_of_getElem? h.request) rfl
  have hbooks := h.turn.balanced hd.numbered hholds (d.tally e.resolver.cache)
  obtain ⟨hcurrent, hlength⟩ := h.turn.same_stores
  have hunder : ∀ f, d'.under e.resolver.cache f + e.progress.under f =
      d.under e.resolver.cache f + progress.under f := by
    intro f
    simpa [PendingRequest.under] using h.under_add e.resolver.cache f
  refine ⟨?_, ?_, ?_, ?_, ?_, ?_, ?_⟩
  · intro g hg
    rw [hlength]
    exact hd.numbered g (hcurrent ▸ hg)
  · intro e' he' hi'
    rw [h.requests] at he'
    rcases List.mem_or_eq_of_mem_set he' with he' | rfl
    · exact (hd.holds e' he' hi').mono (Nat.le_of_eq hlength.symm)
    · exact h.turn.holds hd.numbered hholds
  · have hbefore := hd.stat
    have hturned := hbooks.stat
    have hmoved := hunder Stage.isIdentifying
    rw [h.tally_self, List.count_append]
    omega
  · have hbefore := hd.read
    have hturned := hbooks.read
    have hmoved := hunder Stage.awaitsRead
    rw [h.tally_self, List.count_append]
    omega
  · have hbefore := hd.asked
    have hturned := hbooks.asked
    have hmoved := hunder Stage.isConsulting
    rw [List.count_append]
    omega
  · have hbefore := hd.begun
    have hturned := hbooks.begun
    have hmoved := hunder Stage.isOpening
    simp only [List.count_append, hbooks.demanded]
    omega
  · have hbefore := hd.fast
    have hturned := hbooks.fast
    rw [h.tally_self, List.count_append, List.count_append]
    omega

theorem accounted_of_ne (h : Advanced d d' j e progress)
    (hd : d.Accounted i entries) (hi : e.resolver.cache ≠ i) :
    d'.Accounted i entries := by
  have hunder : ∀ f, d'.under i f = d.under i f := by
    intro f
    simpa [PendingRequest.under, hi] using h.under_add i f
  have hcache := h.turn.cache_of_ne hi
  have hsame := h.tally_of_ne (Ne.symm hi)
  refine ⟨?_, ?_, ?_, ?_, ?_, ?_, ?_⟩ <;> simp only [hunder, hcache, hsame]
  · exact hd.numbered
  · intro e' he' hi'
    rw [h.requests] at he'
    rcases List.mem_or_eq_of_mem_set he' with he' | rfl
    · exact hd.holds e' he' hi'
    · exact absurd hi' hi
  · exact hd.stat
  · exact hd.read
  · exact hd.asked
  · exact hd.begun
  · exact hd.fast

end Advanced

theorem Accounted.advance (h : d.Accounted i entries) {j : Nat}
    (hstep : d.advance j = some d') :
    d'.Accounted i (entries ++ (d.booking? i (.advance j)).toList) := by
  obtain ⟨e, progress, hadvanced⟩ := exists_advanced hstep
  rw [hadvanced.booking?_eq]
  by_cases hi : e.resolver.cache = i
  · subst hi
    rw [if_pos rfl]
    exact hadvanced.accounted_self h
  · rw [if_neg hi, Option.toList_none, List.append_nil]
    exact hadvanced.accounted_of_ne h hi

theorem Accounted.step (h : d.Accounted i entries) {m : Move}
    (hstep : d.step m = some d') :
    d'.Accounted i (entries ++ (d.booking? i m).toList) := by
  cases m with
  | change view fast =>
      cases hstep
      have hnone : d.booking? i (.change view fast) = none := rfl
      rw [hnone, Option.toList_none, List.append_nil]
      exact ⟨h.numbered, h.holds, h.stat, h.read, h.asked, h.begun, h.fast⟩
  | configure j capacity =>
      cases hstep
      have hnone : d.booking? i (.configure j capacity) = none := rfl
      rw [hnone, Option.toList_none, List.append_nil]
      exact h.configure j capacity
  | accept x =>
      cases hstep
      exact h.accept x
  | advance j => exact h.advance hstep

theorem Accounted.run (h : d.Accounted i entries) {ms : List Move}
    (hrun : d.run ms = some d') :
    d'.Accounted i (entries ++ d.entries i ms) := by
  induction ms generalizing d entries with
  | nil =>
      cases hrun
      simpa [TalliedProcess.entries] using h
  | cons m ms ih =>
      obtain ⟨d₁, hm, hrest⟩ := Option.bind_eq_some_iff.1 hrun
      have hnext := ih (h.step hm) hrest
      rw [TalliedProcess.entries, hm, Option.elim_some, ← List.append_assoc]
      exact hnext

/-- A digest at hand, or a failure in its place, costs no call but the question
for it, and no cache changes. -/
theorem of_aided {d d' : TalliedProcess} {i j : Nat}
    (hentry : d.booking? i (.advance j) = some .aided)
    (hstep : d.step (.advance j) = some d') :
    d'.site.caches = d.site.caches ∧
      ∀ k, (d'.tally k).stat = (d.tally k).stat ∧ (d'.tally k).read =
        (d.tally k).read := by
  obtain ⟨e, progress, hadvanced⟩ := exists_advanced hstep
  have haided : e.progress.booking? d.view d.fast (d.site.cache i) =
      some .aided := by
    rw [hadvanced.booking?_eq] at hentry
    split at hentry
    · exact hentry
    · cases hentry
  have hturn := hadvanced.turn
  obtain ⟨r, before⟩ := e
  have hcharged : ∀ walk path size, before = .asking walk path size →
      ∀ k, (d'.tally k).stat = (d.tally k).stat ∧ (d'.tally k).read =
        (d.tally k).read := by
    rintro walk path size rfl k
    by_cases hk : k = r.cache
    · subst hk
      exact hadvanced.tally_self ▸ ⟨rfl, rfl⟩
    · exact hadvanced.tally_of_ne hk ▸ ⟨rfl, rfl⟩
  generalize hsite : d'.site = s' at hturn ⊢
  cases hturn with
  | refused hfast => exact ⟨rfl, hcharged _ _ _ rfl⟩
  | atHand hfast => exact ⟨rfl, hcharged _ _ _ rfl⟩
  | unaided hfast => simp [Progress.booking?, hfast] at haided
  | @computed walk path size stage stage' s' hgoing hcall =>
      cases stage <;> cases haided
  | _ => cases haided

/-- When nothing is under way after a run, the file system was asked for a
status once for each manual computation that found its cache on, and for a
content once for each one that found it off and once for each miss; the stores
of all generations were asked once for each computation whose file had a status.
The computations are those that were demanded and those of requests that found
no digest at hand, and any other request leaves the caches and these calls
alone. -/
theorem work_accounted (caches : List (Option UInt64))
    (thresholds : List UInt64) (view : FileView)
    (fast : Path → Except IoError (Option Digest)) {ms : List Move}
    {d : TalliedProcess} (h : (start caches thresholds view fast).run ms =
      some d) (hquiet : d.Quiet) (i : Nat) :
    let entries := (start caches thresholds view fast).entries i ms
    let cache := d.site.cache i
    (d.tally i).stat = entries.count (.began true) ∧
    (d.tally i).read = entries.count (.began false) + cache.totalMisses ∧
    cache.totalHits + cache.totalMisses = entries.count (.identified true) ∧
    entries.count (.began true) + entries.count (.began false) =
      entries.count .demanded + entries.count .unaided ∧
    (d.tally i).fast = entries.count .unaided + entries.count .aided ∧
    (∀ (m m' : TalliedProcess) (j : Nat), m.booking? i (.advance j) =
      some .aided → m.step (.advance j) = some m' →
      m'.site.caches = m.site.caches ∧
        ∀ k, (m'.tally k).stat = (m.tally k).stat ∧ (m'.tally k).read =
          (m.tally k).read) ∧
    (entries.count (.identified true) < wordLimit → ∀ s ∈ cache.stores,
      s.stats.hits.toNat = s.hits ∧ s.stats.misses.toNat = s.misses) := by
  intro entries cache
  have hbooks := (accounted_start caches thresholds view fast i).run h
  rw [List.nil_append] at hbooks
  have hnone := hquiet.under i
  have hasked : cache.totalHits + cache.totalMisses =
      entries.count (.identified true) := by
    simpa [hnone] using hbooks.asked
  refine ⟨?_, ?_, hasked, ?_, hbooks.fast, ?_, ?_⟩
  · simpa [hnone] using hbooks.stat
  · simpa [hnone] using hbooks.read
  · simpa [hnone] using hbooks.begun
  · intro m m' j hentry hstep
    exact of_aided hentry hstep
  · intro hfew s hs
    exact Cache.toNat_stats (hasked ▸ hfew) hs

/-- A computation records its digest in a store that has gone out of use in the
meantime. One request finds a digest at hand, another one a failure in its
place; the status of a third file cannot be asked for, the content of one in a
tree cannot be read, and the last computation finds the cache off. -/
theorem work_accounted_straddling :
    let r : Resolver := ⟨0, 0⟩
    let a : Path := .ofText "a"
    let b : Path := .ofText "b"
    let c : Path := .ofText "c"
    let view : FileView :=
      ⟨fun p => if p = b then .error .notFound else .ok ⟨1, .epoch, 0⟩,
        fun p => if p = a then .ok (some [7]) else .error .notFound⟩
    let fast : Path → Except IoError (Option Digest) := fun p =>
      if p = .ofText "f" then .ok (some [9]) else if p = .ofText "g"
      then .error .notFound
      else .ok none
    let ms : List Move :=
      [.accept (.compute r a .unknown), .advance 0, .configure 0 1] ++
      List.replicate 7 (.advance 0) ++
      [.accept (.resolve r (.ofText "f") .unknown),
        .accept (.resolve r (.ofText "g") .unknown),
        .accept (.resolve r b .unknown),
        .accept (.tree r (.ofText "t") [.file c (.known 5000)]), .advance 1,
        .advance 2] ++
      List.replicate 4 (.advance 3) ++ List.replicate 9 (.advance 4) ++
      [.configure 0 0, .accept (.compute r a .unknown)] ++
        List.replicate 5 (.advance 5)
    ∃ d, (start [some 1] [] view fast).run ms = some d ∧ (d.tally 0).stat = 3 ∧
      (d.tally 0).read = 1 + (d.site.cache 0).totalMisses ∧
      (d.site.cache 0).totalHits + (d.site.cache 0).totalMisses = 2 ∧
      (d.tally 0).fast = 4 := by
  intro r a b c view fast ms
  have hend : ((start [some 1] [] view fast).run ms).any (fun d =>
      d.requests.all fun e => e.progress.isEnded) = true := by
    decide
  obtain ⟨d, hrun, hover⟩ := (Option.any_eq_true _ _).1 hend
  have hquiet : d.Quiet := List.all_eq_true.1 hover
  obtain ⟨hstat, hread, hasked, -, hfast, -, -⟩ :=
    work_accounted [some 1] [] view fast hrun hquiet 0
  refine ⟨d, hrun, hstat.trans (by decide), ?_, hasked.trans (by decide),
    hfast.trans (by decide)⟩
  rw [hread]
  exact congrArg (· + (d.site.cache 0).totalMisses) (by decide)

end TalliedProcess

end FileDigest
