import FileDigest.Site

/-!
# The parts of a site

What is read from a site after one of its parts was replaced. A cache that was
never made reads as one that is off, and replacing it does nothing; since a
cache that is off answers nothing and takes nothing in, `cache_setCache_getAt`
and `cache_setCache_insertAt` hold for it too, and need no bound on its number.
-/

namespace FileDigest

namespace Cache

@[simp] theorem getAt_disabled (g : Nat) (k : CacheKey) :
    disabled.getAt g k = (none, disabled) := rfl

@[simp] theorem insertAt_disabled (g : Nat) (k : CacheKey) (d : Digest) :
    disabled.insertAt g k d = disabled := rfl

@[simp] theorem current_getAt (c : Cache) (g : Nat) (k : CacheKey) :
    (c.getAt g k).2.current = c.current := by
  unfold getAt
  split <;> rfl

@[simp] theorem current_insertAt (c : Cache) (g : Nat) (k : CacheKey)
    (d : Digest) : (c.insertAt g k d).current = c.current := by
  unfold insertAt
  split <;> rfl

theorem length_stores_getAt (c : Cache) (g : Nat) (k : CacheKey) :
    (c.getAt g k).2.stores.length = c.stores.length := by
  unfold getAt
  split
  · exact List.length_set
  · rfl

theorem length_stores_insertAt (c : Cache) (g : Nat) (k : CacheKey)
    (d : Digest) : (c.insertAt g k d).stores.length = c.stores.length := by
  unfold insertAt
  split
  · exact List.length_set
  · rfl

theorem inUse_of_current {c : Cache} {g : Nat} (h : c.current = some g) :
    c.inUse = c.stores[g]? := by
  rw [inUse, h, Option.bind_some]

theorem length_stores_configure (c : Cache) (capacity : UInt64) :
    c.stores.length ≤ (c.configure capacity).stores.length := by
  unfold configure
  split <;> simp

theorem getElem?_configure (c : Cache) (capacity : UInt64) {g : Nat}
    (h : g < c.stores.length) :
    (c.configure capacity).stores[g]? = c.stores[g]? := by
  unfold configure
  split
  · rfl
  · exact List.getElem?_append_left h

theorem current_configure {c : Cache} {capacity : UInt64} {g : Nat}
    (hg : (c.configure capacity).current = some g) :
    g = c.stores.length ∧ g < (c.configure capacity).stores.length := by
  unfold configure at hg ⊢
  split at hg
  · cases hg
  · rw [if_neg ‹_›]
    cases hg
    simp

/-- The store in use is there. -/
def Numbered (c : Cache) : Prop :=
  ∀ g, c.current = some g → g < c.stores.length

theorem numbered_disabled : disabled.Numbered := by
  intro g hg
  cases hg

theorem numbered_configure (c : Cache) (capacity : UInt64) :
    (c.configure capacity).Numbered :=
  fun _ hg => (current_configure hg).2

theorem Numbered.getAt {c : Cache} (hc : c.Numbered) (g : Nat) (k : CacheKey) :
    (c.getAt g k).2.Numbered := by
  intro g' hg'
  rw [current_getAt] at hg'
  rw [length_stores_getAt]
  exact hc g' hg'

theorem Numbered.insertAt {c : Cache} (hc : c.Numbered) (g : Nat) (k : CacheKey)
    (d : Digest) : (c.insertAt g k d).Numbered := by
  intro g' hg'
  rw [current_insertAt] at hg'
  rw [length_stores_insertAt]
  exact hc g' hg'

theorem Numbered.isEnabled_iff {c : Cache} (hc : c.Numbered) :
    c.isEnabled = true ↔ ∃ g, c.current = some g := by
  rw [isEnabled, inUse]
  cases hg : c.current with
  | none => simp
  | some g => simp [hc g hg]

end Cache

/-- An open gate lets a read in and is the same gate again when the read is
over. -/
theorem Gate.leave_enter {g : Gate} (hopen : g.held = false) (size : SizeHint) :
    ∃ g', g.enter size = some g' ∧ g'.leave size = g := by
  cases hsize : g.requiresSerial size with
  | false =>
      refine ⟨g, enter_of_not_requiresSerial hsize, ?_⟩
      simp [leave, hsize]
  | true =>
      refine ⟨{ g with held := true }, by simp [enter, hsize, hopen], ?_⟩
      have hsize' : ({ g with held := true } : Gate).requiresSerial size =
          true := hsize
      rw [leave, if_pos hsize', ← hopen]

namespace Site

theorem cache_setCache (s : Site) (i j : Nat) (c : Cache) :
    (s.setCache i c).cache j = if i = j ∧ i < s.caches.length then c
      else s.cache j := by
  simp only [cache, setCache, List.getElem?_set]
  by_cases hij : i = j
  · subst hij
    by_cases hi : i < s.caches.length <;> simp [hi]
  · simp [hij]

theorem cache_setCache_of_ne (s : Site) {i j : Nat} (h : i ≠ j) (c : Cache) :
    (s.setCache i c).cache j = s.cache j := by
  simp [cache_setCache, h]

theorem cache_eq_disabled_of_le (s : Site) {i : Nat} (h : s.caches.length ≤ i) :
    s.cache i = Cache.disabled := by
  simp [cache, h]

/-- A cache reads as what it was replaced by, as long as nothing is put in the
place of a cache that was never made. -/
theorem cache_setCache_self (s : Site) {i : Nat} {c : Cache}
    (h : s.caches.length ≤ i → c = Cache.disabled) :
    (s.setCache i c).cache i = c := by
  rw [cache_setCache]
  split
  · rfl
  · have hi : s.caches.length ≤ i := by
      have := ‹¬(i = i ∧ i < s.caches.length)›
      omega
    rw [h hi, cache_eq_disabled_of_le s hi]

@[simp] theorem cache_setCache_getAt (s : Site) (i g : Nat) (k : CacheKey) :
    (s.setCache i ((s.cache i).getAt g k).2).cache i =
      ((s.cache i).getAt g k).2 := by
  apply cache_setCache_self
  intro hi
  rw [cache_eq_disabled_of_le s hi]
  rfl

@[simp] theorem cache_setCache_insertAt (s : Site) (i g : Nat) (k : CacheKey)
    (d : Digest) :
    (s.setCache i ((s.cache i).insertAt g k d)).cache i =
      (s.cache i).insertAt g k d := by
  apply cache_setCache_self
  intro hi
  rw [cache_eq_disabled_of_le s hi]
  rfl

@[simp] theorem setCache_setCache (s : Site) (i : Nat) (c c' : Cache) :
    (s.setCache i c).setCache i c' = s.setCache i c' := by
  simp [setCache]

theorem setCache_cache_self (s : Site) (i : Nat) :
    s.setCache i (s.cache i) = s := by
  rcases Nat.lt_or_ge i s.caches.length with h | h
  · simp [setCache, cache, h]
  · simp [setCache, List.set_eq_of_length_le h]

@[simp] theorem length_caches_setCache (s : Site) (i : Nat) (c : Cache) :
    (s.setCache i c).caches.length = s.caches.length := by
  simp [setCache]

@[simp] theorem gate_setCache (s : Site) (i j : Nat) (c : Cache) :
    (s.setCache i c).gate j = s.gate j := rfl

@[simp] theorem gates_setCache (s : Site) (i : Nat) (c : Cache) :
    (s.setCache i c).gates = s.gates := rfl

theorem gate_setGate (s : Site) (i j : Nat) (g : Gate) :
    (s.setGate i g).gate j = if i = j ∧ i < s.gates.length then g
      else s.gate j := by
  simp only [gate, setGate, List.getElem?_set]
  by_cases hij : i = j
  · subst hij
    by_cases hi : i < s.gates.length <;> simp [hi]
  · simp [hij]

@[simp] theorem length_gates_setGate (s : Site) (i : Nat) (g : Gate) :
    (s.setGate i g).gates.length = s.gates.length := by
  simp [setGate]

@[simp] theorem cache_setGate (s : Site) (i j : Nat) (g : Gate) :
    (s.setGate i g).cache j = s.cache j := rfl

@[simp] theorem caches_setGate (s : Site) (i : Nat) (g : Gate) :
    (s.setGate i g).caches = s.caches := rfl

@[simp] theorem cache_report (s : Site) (i : Nat) (e : Event) :
    (s.report e).cache i = s.cache i := rfl

@[simp] theorem caches_report (s : Site) (e : Event) :
    (s.report e).caches = s.caches := rfl

@[simp] theorem gate_report (s : Site) (i : Nat) (e : Event) :
    (s.report e).gate i = s.gate i := rfl

@[simp] theorem gates_report (s : Site) (e : Event) :
    (s.report e).gates = s.gates := rfl

@[simp] theorem setGate_setGate (s : Site) (i : Nat) (g g' : Gate) :
    (s.setGate i g).setGate i g' = s.setGate i g' := by
  simp [setGate]

theorem setGate_of_le {s : Site} {i : Nat} (h : s.gates.length ≤ i) (g : Gate) :
    s.setGate i g = s := by
  simp [setGate, List.set_eq_of_length_le h]

theorem setGate_gate_self (s : Site) (i : Nat) :
    s.setGate i (s.gate i) = s := by
  rcases Nat.lt_or_ge i s.gates.length with h | h
  · simp [setGate, gate, h]
  · exact setGate_of_le h _

theorem enter_leave {s : Site} {i : Nat} (hopen : (s.gate i).held = false)
    (size : SizeHint) :
    ∃ g, (s.gate i).enter size = some g ∧
      (s.setGate i g).setGate i (((s.setGate i g).gate i).leave size) = s := by
  obtain ⟨g, henter, hleave⟩ := Gate.leave_enter hopen size
  refine ⟨g, henter, ?_⟩
  rcases Nat.lt_or_ge i s.gates.length with h | h
  · rw [gate_setGate, if_pos ⟨rfl, h⟩, hleave, setGate_setGate,
      setGate_gate_self]
  · rw [setGate_of_le h, setGate_of_le h]

theorem cache_configure (s : Site) {i : Nat} (h : i < s.caches.length)
    (capacity : UInt64) :
    (s.configure i capacity).cache i = (s.cache i).configure capacity := by
  rw [configure, cache_report, cache_setCache, if_pos ⟨rfl, h⟩]

theorem cache_configure_of_ne (s : Site) {i j : Nat} (h : i ≠ j)
    (capacity : UInt64) : (s.configure i capacity).cache j = s.cache j := by
  rw [configure, cache_report, cache_setCache_of_ne s h]

theorem cache_configure_cases (s : Site) (i j : Nat) (capacity : UInt64) :
    (s.configure i capacity).cache j = (s.cache j).configure capacity ∨
      (s.configure i capacity).cache j = s.cache j := by
  by_cases hij : i = j
  · subst hij
    by_cases hi : i < s.caches.length
    · exact Or.inl (cache_configure s hi capacity)
    · refine Or.inr ?_
      rw [configure, cache_report, cache_setCache, if_neg (by omega)]
  · exact Or.inr (cache_configure_of_ne s hij capacity)

@[simp] theorem length_caches_configure (s : Site) (i : Nat)
    (capacity : UInt64) :
    (s.configure i capacity).caches.length = s.caches.length := by
  simp [configure]

@[simp] theorem gates_configure (s : Site) (i : Nat) (capacity : UInt64) :
    (s.configure i capacity).gates = s.gates := rfl

/-- A site in which nothing has happened yet: caches that are off or have just
been configured, and the shared gate followed by gates with the given
thresholds. -/
def fresh (caches : List (Option UInt64)) (thresholds : List UInt64) : Site :=
  thresholds.foldl (fun s t => s.addGate (Gate.ofThreshold t))
    (caches.foldl addCache initial)

theorem foldl_addGate (thresholds : List UInt64) (s : Site) :
    (thresholds.foldl (fun s t => s.addGate (Gate.ofThreshold t)) s).caches =
      s.caches ∧
      (thresholds.foldl (fun s t => s.addGate (Gate.ofThreshold t)) s).gates =
        s.gates ++ thresholds.map Gate.ofThreshold := by
  induction thresholds generalizing s with
  | nil => simp
  | cons t thresholds ih =>
      rw [List.foldl_cons, (ih _).1, (ih _).2]
      simp [addGate]

def newCache : Option UInt64 → Cache
  | none => Cache.disabled
  | some capacity => Cache.ofCapacity capacity

theorem foldl_addCache (caches : List (Option UInt64)) (s : Site) :
    (caches.foldl addCache s).caches = s.caches ++ caches.map newCache ∧
      (caches.foldl addCache s).gates = s.gates := by
  induction caches generalizing s with
  | nil => simp
  | cons c caches ih =>
      rw [List.foldl_cons, (ih _).1, (ih _).2]
      cases c <;> simp [addCache, newCache]

theorem caches_fresh (caches : List (Option UInt64))
    (thresholds : List UInt64) :
    (fresh caches thresholds).caches = caches.map newCache := by
  rw [fresh, (foldl_addGate _ _).1, (foldl_addCache _ _).1]
  rfl

theorem gates_fresh (caches : List (Option UInt64)) (thresholds : List UInt64) :
    (fresh caches thresholds).gates =
      Gate.default :: thresholds.map Gate.ofThreshold := by
  rw [fresh, (foldl_addGate _ _).2, (foldl_addCache _ _).2]
  rfl

theorem cache_fresh {p : Cache → Prop} (hoff : p Cache.disabled)
    (hon : ∀ n, p (Cache.disabled.configure n)) (caches : List (Option UInt64))
    (thresholds : List UInt64) (i : Nat) :
    p ((fresh caches thresholds).cache i) := by
  rw [cache, caches_fresh, List.getElem?_map]
  cases h : caches[i]? with
  | none => exact hoff
  | some c =>
      cases c with
      | none => exact hoff
      | some n => exact hon n

theorem gate_fresh (caches : List (Option UInt64))
    (thresholds : List UInt64) (i : Nat) :
    (fresh caches thresholds).gate i =
      Gate.ofThreshold
        (((Gate.defaultThreshold :: thresholds)[i]?).getD
          Gate.defaultThreshold) := by
  rw [gate, gates_fresh, Gate.default, ← List.map_cons, List.getElem?_map,
    Option.getD_map]

theorem held_gate_fresh (caches : List (Option UInt64))
    (thresholds : List UInt64) (i : Nat) :
    ((fresh caches thresholds).gate i).held = false := by
  rw [gate_fresh]
  rfl

end Site

end FileDigest
