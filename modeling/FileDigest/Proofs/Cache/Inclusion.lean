import FileDigest.Proofs.Cache.Accesses
import FileDigest.Proofs.Resolver.Uninterrupted

/-!
# A larger cache

The same demands are made of two caches of which one has more room. They do not
stay alike: what the smaller one has to read anew, or fails to read, the larger
one may still know, and then the key becomes the most recent one there and not
in the smaller cache. The invariant is `Store.Within`: the keys of the smaller
store are a sublist of those of the larger one, in the order of their use, and
as long as the smaller store has room left the two are the same. So the last
entry of the larger store can only be pushed out when the smaller one is full,
and if the smaller one still has it, it is the last there and goes as well.
-/

namespace FileDigest

open Recency

theorem ofNat_le_ofNat {a b : Nat} (hab : a ≤ b) (hb : b < wordLimit) :
    UInt64.ofNat a ≤ UInt64.ofNat b := by
  rw [UInt64.ofNat_le_iff (Nat.lt_of_le_of_lt hab hb),
    UInt64.toNat_ofNat_of_lt' hb]
  exact hab

namespace Store

/-- The first store knows no key that the second does not know, and has not done
better. -/
structure Within (s l : Store) : Prop where
  tidy : s.Tidy
  tidy_large : l.Tidy
  capacity_le : s.capacity ≤ l.capacity
  keys_sublist : (keys s.entries).Sublist (keys l.entries)
  keys_eq : s.entries.length < s.capacity → keys s.entries = keys l.entries
  hits_le : s.hits ≤ l.hits
  misses_le : l.misses ≤ s.misses
  evictions_le : l.evictions ≤ s.evictions

variable {s l : Store}

theorem within_empty {n m : Nat} (h : n ≤ m) : (empty n).Within (empty m) :=
  ⟨tidy_empty n, tidy_empty m, h, List.Sublist.refl _, fun _ => rfl,
    Nat.le_refl _, Nat.le_refl _, Nat.le_refl _⟩

theorem keys_get_of_has {k : CacheKey} (h : has k s.entries = true) :
    keys (s.get k).2.entries = k :: (keys s.entries).filter fun j =>
      !(j == k) := by
  obtain ⟨d, hd⟩ := Option.isSome_iff_exists.1 h
  rw [get_of_find? hd, keys_put]

theorem entries_get_of_not_has {k : CacheKey} (h : has k s.entries = false) :
    (s.get k).2.entries = s.entries := by
  rw [get_of_find?_eq_none
    (Option.not_isSome_iff_eq_none.1 (Bool.eq_false_iff.1 h))]

theorem hits_get (s : Store) (k : CacheKey) :
    (s.get k).2.hits = s.hits + (has k s.entries).toNat := by
  unfold get has
  cases find? k s.entries <;> rfl

theorem misses_get (s : Store) (k : CacheKey) :
    (s.get k).2.misses = s.misses + (!has k s.entries).toNat := by
  unfold get has
  cases find? k s.entries <;> rfl

theorem evictions_get (s : Store) (k : CacheKey) :
    (s.get k).2.evictions = s.evictions := by
  unfold get
  cases find? k s.entries <;> rfl

theorem Within.get (h : s.Within l) (k : CacheKey) :
    (s.get k).2.Within (l.get k).2 := by
  have hfilter := h.keys_sublist.filter fun j => !(j == k)
  have hsmall : has k s.entries = true → has k l.entries = true :=
    has_of_sublist h.keys_sublist
  have hcounts : (has k s.entries).toNat ≤ (has k l.entries).toNat ∧
      (!has k l.entries).toNat ≤ (!has k s.entries).toNat := by
    cases hs : has k s.entries with
    | true =>
        rw [hsmall hs]
        exact ⟨Nat.le_refl _, Nat.le_refl _⟩
    | false => exact ⟨Nat.zero_le _, Bool.toNat_le _⟩
  refine ⟨h.tidy.access (.ask k), h.tidy_large.access (.ask k), ?_, ?_,
    ?_, ?_, ?_, ?_⟩
  · rw [capacity_get, capacity_get]
    exact h.capacity_le
  · cases hl : has k l.entries with
    | true =>
        rw [keys_get_of_has hl]
        cases hs : has k s.entries with
        | true =>
            rw [keys_get_of_has hs]
            exact hfilter.cons_cons k
        | false =>
            rw [entries_get_of_not_has hs, ← filter_keys_of_not_has hs]
            exact hfilter.cons k
    | false =>
        have hs : has k s.entries = false := Bool.eq_false_iff.2 fun hs => by
          simp [hsmall hs] at hl
        rw [entries_get_of_not_has hs, entries_get_of_not_has hl]
        exact h.keys_sublist
  · intro hroom
    rw [capacity_get, length_entries_get h.tidy.distinct] at hroom
    have heq := h.keys_eq hroom
    have hhas : has k s.entries = has k l.entries := by
      rw [Bool.eq_iff_iff, has_iff, has_iff, heq]
    cases hl : has k l.entries with
    | true => rw [keys_get_of_has hl, keys_get_of_has (hhas.trans hl), heq]
    | false =>
        rw [entries_get_of_not_has hl,
          entries_get_of_not_has (hhas.trans hl), heq]
  · rw [hits_get, hits_get]
    exact Nat.add_le_add h.hits_le hcounts.1
  · rw [misses_get, misses_get]
    exact Nat.add_le_add h.misses_le hcounts.2
  · rw [evictions_get, evictions_get]
    exact h.evictions_le

theorem entries_insert (s : Store) (k : CacheKey) (d : Digest) :
    (s.insert k d).entries = (put k d s.entries).take s.capacity := rfl

theorem evictions_insert (s : Store) (k : CacheKey) (d : Digest) :
    (s.insert k d).evictions =
      s.evictions + ((put k d s.entries).length - s.capacity) := rfl

theorem Tidy.length_put_le (hs : s.Tidy) (k : CacheKey) (d : Digest) :
    (put k d s.entries).length ≤ s.capacity + 1 := by
  have hle := hs.length_le
  rw [length_put hs.distinct]
  split <;> omega

/-- The larger store pushes an entry out only when the smaller one does. -/
theorem Within.length_put (h : s.Within l) (k : CacheKey) (d e : Digest)
    (hover : l.capacity < (put k e l.entries).length) :
    (put k d s.entries).length = s.capacity + 1 := by
  have hle := h.tidy.length_le
  have hle_large := h.tidy_large.length_le
  have hcapacity := h.capacity_le
  rw [Recency.length_put h.tidy_large.distinct] at hover
  cases hl : has k l.entries with
  | true =>
      rw [hl, if_pos rfl] at hover
      omega
  | false =>
      rw [hl, if_neg Bool.false_ne_true] at hover
      have hs : has k s.entries = false := Bool.eq_false_iff.2 fun hs => by
        rw [has_of_sublist h.keys_sublist hs] at hl
        cases hl
      rw [Recency.length_put h.tidy.distinct, hs, if_neg Bool.false_ne_true]
      rcases Nat.lt_or_ge s.entries.length s.capacity with hroom | hfull
      · have hlength := congrArg List.length (h.keys_eq hroom)
        rw [length_keys, length_keys] at hlength
        omega
      · omega

theorem Within.insert (h : s.Within l) (k : CacheKey) (d e : Digest) :
    (s.insert k d).Within (l.insert k e) := by
  have hput : (keys (put k d s.entries)).Sublist
      (keys (put k e l.entries)) := by
    rw [keys_put, keys_put]
    exact (h.keys_sublist.filter _).cons_cons k
  have hle := h.tidy.length_put_le k d
  have hle_large := h.tidy_large.length_put_le k e
  refine ⟨h.tidy.access (.put k d), h.tidy_large.access (.put k e),
    h.capacity_le, ?_, ?_, h.hits_le, h.misses_le, ?_⟩
  · rw [entries_insert, entries_insert, keys_take, keys_take]
    rcases Nat.lt_or_ge l.capacity (put k e l.entries).length with hover | hroom
    · -- both stores drop their last entry
      have hlength := h.length_put k d e hover
      have hdrop : (keys (put k d s.entries)).dropLast.Sublist
          (keys (put k e l.entries)).dropLast := by
        rw [← List.reverse_sublist, ← List.tail_reverse, ← List.tail_reverse]
        exact hput.reverse.tail
      rw [List.dropLast_eq_take, List.dropLast_eq_take, length_keys,
        length_keys, hlength] at hdrop
      have hlast : (put k e l.entries).length - 1 = l.capacity := by omega
      rw [hlast] at hdrop
      exact hdrop
    · rw [List.take_of_length_le (l := keys (put k e l.entries))
        (by simpa using hroom)]
      exact (List.take_sublist _ _).trans hput
  · intro hroom
    have hcapacity := h.capacity_le
    rw [entries_insert, List.length_take, capacity_insert] at hroom
    have hlength : s.entries.length ≤ (put k d s.entries).length := by
      rw [Recency.length_put h.tidy.distinct]
      split <;> omega
    have hfree : s.entries.length < s.capacity := by omega
    have heq := h.keys_eq hfree
    have hkeys : keys (put k d s.entries) = keys (put k e l.entries) := by
      rw [keys_put, keys_put, heq]
    have hsame := congrArg List.length hkeys
    rw [length_keys, length_keys] at hsame
    rw [entries_insert, entries_insert, List.take_of_length_le (by omega),
      List.take_of_length_le (by omega), hkeys]
  · have hevictions := h.evictions_le
    rw [evictions_insert, evictions_insert]
    rcases Nat.lt_or_ge l.capacity (put k e l.entries).length with hover | hroom
    · have hlength := h.length_put k d e hover
      omega
    · omega

/-- A digest is put into the smaller store under the key that was used last in
the larger one. -/
theorem Within.insert_small (h : s.Within l) {k : CacheKey} (d : Digest)
    (hs : has k s.entries = false) {rest : List CacheKey}
    (hl : keys l.entries = k :: rest) : (s.insert k d).Within l := by
  have hk : (k == k) = true := BEq.rfl
  refine ⟨h.tidy.access (.put k d), h.tidy_large, h.capacity_le, ?_, ?_,
    h.hits_le, h.misses_le, ?_⟩
  · have hrest : (keys s.entries).Sublist rest := by
      have hsub := h.keys_sublist
      rw [hl] at hsub
      rcases List.sublist_cons_iff.1 hsub with hrest | ⟨r, hkeys, -⟩
      · exact hrest
      · rw [not_has_iff.1 hs k (hkeys ▸ List.mem_cons_self)] at hk
        cases hk
    rw [entries_insert, keys_take, keys_put, filter_keys_of_not_has hs, hl]
    exact (List.take_sublist _ _).trans (hrest.cons_cons k)
  · intro hroom
    have hfree : s.entries.length < s.capacity := by
      rw [entries_insert, List.length_take, capacity_insert,
        Recency.length_put h.tidy.distinct, hs,
        if_neg Bool.false_ne_true] at hroom
      omega
    have hmem : k ∈ keys s.entries := by
      rw [h.keys_eq hfree, hl]
      exact List.mem_cons_self
    rw [not_has_iff.1 hs k hmem] at hk
    cases hk
  · rw [evictions_insert]
    exact Nat.le_add_right_of_le h.evictions_le

/-- The store after a file was read that it had no digest for. -/
def recorded (s : Store) (k : CacheKey) : Except IoError (Option Digest) → Store
  | .ok (some d) => s.insert k d
  | _ => s

theorem Within.recorded (h : s.Within l) (k : CacheKey)
    (answer : Except IoError (Option Digest)) :
    (s.recorded k answer).Within (l.recorded k answer) := by
  unfold Store.recorded
  split
  · exact h.insert k _ _
  · exact h

theorem Within.recorded_small (h : s.Within l) {k : CacheKey}
    (hs : has k s.entries = false) {rest : List CacheKey}
    (hl : keys l.entries = k :: rest)
    (answer : Except IoError (Option Digest)) :
    (s.recorded k answer).Within l := by
  unfold Store.recorded
  split
  · exact h.insert_small _ hs hl
  · exact h

structure CountsTo (s : Store) (n : Nat) : Prop where
  hits_le : s.hits ≤ n
  misses_le : s.misses ≤ n
  evictions_le : s.evictions ≤ n

theorem CountsTo.succ {n : Nat} (h : s.CountsTo n) : s.CountsTo (n + 1) :=
  ⟨Nat.le_succ_of_le h.hits_le, Nat.le_succ_of_le h.misses_le,
    Nat.le_succ_of_le h.evictions_le⟩

theorem CountsTo.get {n : Nat} (h : s.CountsTo n) (k : CacheKey) :
    (s.get k).2.CountsTo (n + 1) := by
  refine ⟨?_, ?_, ?_⟩
  · rw [hits_get]
    exact Nat.add_le_add h.hits_le (Bool.toNat_le _)
  · rw [misses_get]
    exact Nat.add_le_add h.misses_le (Bool.toNat_le _)
  · rw [evictions_get]
    exact Nat.le_succ_of_le h.evictions_le

theorem CountsTo.insert {n : Nat} (h : s.CountsTo (n + 1)) (hs : s.Tidy)
    (hevictions : s.evictions ≤ n) (k : CacheKey) (d : Digest) :
    (s.insert k d).CountsTo (n + 1) := by
  refine ⟨h.hits_le, h.misses_le, ?_⟩
  have hle := hs.length_put_le k d
  rw [evictions_insert]
  omega

theorem CountsTo.recorded {n : Nat} (h : s.CountsTo (n + 1)) (hs : s.Tidy)
    (hevictions : s.evictions ≤ n) (k : CacheKey)
    (answer : Except IoError (Option Digest)) :
    (s.recorded k answer).CountsTo (n + 1) := by
  unfold Store.recorded
  split
  · exact h.insert hs hevictions k _
  · exact h

end Store

namespace Site

theorem cache_get (s : Site) (i : Nat) (k : CacheKey) :
    (s.get i k).2.cache i = ((s.cache i).get k).2 := by
  refine cache_setCache_self s fun hi => ?_
  rw [cache_eq_disabled_of_le s hi]
  rfl

theorem cache_insert (s : Site) (i : Nat) (k : CacheKey) (d : Digest) :
    (s.insert i k d).cache i = (s.cache i).insert k d := by
  cases hcurrent : (s.cache i).current with
  | none => simp only [insert, Cache.insert, hcurrent]
  | some g =>
      have hinsert : (s.cache i).insert k d = (s.cache i).insertAt g k d := by
        rw [Cache.insert, hcurrent]
      simp only [insert, hcurrent]
      rw [cache_report, hinsert, cache_setCache_insertAt]

theorem inUse_record {s : Site} {i g : Nat}
    (hcurrent : (s.cache i).current = some g) (k : CacheKey)
    (answer : Except IoError (Option Digest)) :
    ((s.record i g k answer).cache i).inUse =
      (s.cache i).inUse.map fun st => st.recorded k answer := by
  cases answer with
  | error e => simp [record, Store.recorded]
  | ok found =>
      cases found with
      | none => simp [record, Store.recorded]
      | some d =>
          change ((s.setCache i ((s.cache i).insertAt g k d)).cache i).inUse = _
          rw [cache_setCache_insertAt]
          exact (Access.inUse_toGeneration (.put k d) g _).trans
            (if_pos hcurrent)

theorem gates_insert (s : Site) (i : Nat) (k : CacheKey) (d : Digest) :
    (s.insert i k d).gates = s.gates := by
  rw [insert]
  cases (s.cache i).current <;> rfl

theorem gates_record (s : Site) (i g : Nat) (k : CacheKey)
    (answer : Except IoError (Option Digest)) :
    (s.record i g k answer).gates = s.gates := by
  unfold record
  split <;> rfl

end Site

/-- The surroundings in which the file system stays the same and its reads are
counted. -/
def FileView.counted (view : FileView) : Host (Site × Nat) where
  site x := x.1
  setSite x s := (s, x.2)
  stat path x := (view.stat path, x)
  read path x := (view.read path, (x.1, x.2 + 1))
  fast _ x := (.ok none, x)

theorem FileView.apart_counted (view : FileView) : view.counted.Apart :=
  ⟨fun _ _ => rfl, fun _ => rfl, fun _ _ _ => rfl, fun _ _ _ => rfl,
    fun _ _ _ => rfl⟩

/-- What is asked of the first cache of a site, and for a computation the
answers that the file system has for it. -/
inductive Demand where
  | compute (gate : Nat) (path : Path) (size : SizeHint)
      (stat : Except IoError FileStatus)
      (read : Except IoError (Option Digest))
  | lookup (key : CacheKey)
  | insert (key : CacheKey) (d : Digest)

namespace Demand

def after (x : Site × Nat) : Demand → Site × Nat
  | compute gate path size stat read =>
      ((FileView.mk (fun _ => stat) fun _ => read).counted.computeManually
        ⟨0, gate⟩ path size x).2
  | lookup k => ((x.1.get 0 k).2, x.2)
  | insert k d => (x.1.insert 0 k d, x.2)

def afterAll (x : Site × Nat) (demands : List Demand) : Site × Nat :=
  demands.foldl after x

/-- What a demand does to the store in use, and how often it reads a file. -/
def onStore (s : Store) : Demand → Store × Nat
  | compute _ path _ stat read =>
      match stat with
      | .error _ => (s, 0)
      | .ok status =>
          if has ⟨path, status⟩ s.entries then ((s.get ⟨path, status⟩).2, 0)
          else ((s.get ⟨path, status⟩).2.recorded ⟨path, status⟩ read, 1)
  | lookup k => ((s.get k).2, 0)
  | insert k d => (s.insert k d, 0)

theorem compute_counted {x : Site × Nat} {s : Store}
    (hs : (x.1.cache 0).inUse = some s) (gate : Nat) (path : Path)
    (size : SizeHint) (stat : Except IoError FileStatus)
    (read : Except IoError (Option Digest)) :
    let y := ((FileView.mk (fun _ => stat) fun _ => read).counted.compute
      ⟨0, gate⟩ path size x).2
    let outcome := onStore s (.compute gate path size stat read)
    (y.1.cache 0).inUse = some outcome.1 ∧ y.2 = x.2 + outcome.2 ∧
    y.1.gates = x.1.gates := by
  obtain ⟨g, hg, hstore⟩ := Option.bind_eq_some_iff.1 hs
  have hfind : ∀ k, ((x.1.cache 0).getAt g k).1 = find? k s.entries :=
    fun k => by
    simp only [Cache.getAt, hstore]
    exact Store.get_fst s k
  have hasked : ∀ k,
      ((x.1.setCache 0 ((x.1.cache 0).getAt g k).2).cache 0).inUse =
      some (s.get k).2 := fun k => by
    rw [Site.cache_setCache_getAt]
    refine (Access.inUse_toGeneration (.ask k) g _).trans ?_
    rw [if_pos hg, hs]
    rfl
  intro y outcome
  simp only [y, outcome, Host.compute, Host.consult,
    FileView.counted, hg, onStore]
  cases stat with
  | error e => exact ⟨hs, rfl, rfl⟩
  | ok status =>
      rcases Option.eq_none_or_eq_some
        (find? (⟨path, status⟩ : CacheKey) s.entries) with
        hk | ⟨d, hk⟩
      · simp only [hfind, has, hk]
        refine ⟨?_, rfl, Site.gates_record _ _ _ _ _⟩
        refine (Site.inUse_record ?_ _ _).trans ?_
        · rw [Site.cache_setCache_getAt, Cache.current_getAt, hg]
        · rw [hasked]
          rfl
      · simp only [hfind, has, hk]
        exact ⟨hasked _, rfl, rfl⟩

theorem after_eq {x : Site × Nat} {s : Store}
    (hs : (x.1.cache 0).inUse = some s) (hopen : ∀ i, (x.1.gate i).held = false)
    (dm : Demand) :
    ((dm.after x).1.cache 0).inUse = some (dm.onStore s).1 ∧
      (dm.after x).2 = x.2 + (dm.onStore s).2 ∧ (dm.after x).1.gates =
        x.1.gates := by
  cases dm with
  | lookup k =>
      refine ⟨?_, rfl, rfl⟩
      change ((x.1.get 0 k).2.cache 0).inUse = _
      rw [Site.cache_get]
      exact (Access.inUse_toCache (.ask k) _).trans (by rw [hs]; rfl)
  | insert k d =>
      refine ⟨?_, rfl, Site.gates_insert x.1 0 k d⟩
      change ((x.1.insert 0 k d).cache 0).inUse = _
      rw [Site.cache_insert]
      exact (Access.inUse_toCache (.put k d) _).trans (by rw [hs]; rfl)
  | compute gate path size stat read =>
      have heq := Host.computeManually_eq
        (FileView.apart_counted ⟨fun _ => stat, fun _ => read⟩)
          (r := ⟨0, gate⟩) (s := x)
        (hopen gate) path size
      rw [after, heq]
      exact compute_counted hs gate path size stat read

theorem countsTo_onStore {s : Store} {n : Nat} (h : s.CountsTo n) (hs : s.Tidy)
    (dm : Demand) : (dm.onStore s).1.CountsTo (n + 1) := by
  cases dm with
  | lookup k => exact h.get k
  | insert k d => exact h.succ.insert hs h.evictions_le k d
  | compute gate path size stat read =>
      cases stat with
      | error e => exact h.succ
      | ok status =>
          simp only [onStore]
          generalize (⟨path, status⟩ : CacheKey) = k
          have hevictions : (s.get k).2.evictions ≤ n := by
            rw [Store.evictions_get]
            exact h.evictions_le
          split
          · exact h.get k
          · exact (h.get k).recorded (hs.access (.ask k)) hevictions k read

/-- A demand keeps the larger store ahead, and does not have it read a file that
is not read for the smaller one. -/
theorem within_onStore {s l : Store} (h : s.Within l) (dm : Demand) :
    (dm.onStore s).1.Within (dm.onStore l).1 ∧ (dm.onStore l).2 ≤
      (dm.onStore s).2 := by
  cases dm with
  | lookup k => exact ⟨h.get k, Nat.le_refl _⟩
  | insert k d => exact ⟨h.insert k d d, Nat.le_refl _⟩
  | compute gate path size stat read =>
      cases stat with
      | error e => exact ⟨h, Nat.le_refl _⟩
      | ok status =>
          simp only [onStore]
          generalize (⟨path, status⟩ : CacheKey) = k
          have hget := h.get k
          cases hl : has k l.entries with
          | true =>
              cases hs : has k s.entries with
              | true => exact ⟨hget, Nat.le_refl _⟩
              | false =>
                  -- only the smaller store may have the digest put in
                  have habsent : has k (s.get k).2.entries = false := by
                    rw [Store.entries_get_of_not_has hs, hs]
                  exact ⟨hget.recorded_small habsent (Store.keys_get_of_has hl)
                    read, Nat.zero_le _⟩
          | false =>
              have hs : has k s.entries = false :=
                Bool.eq_false_iff.2 fun hs => by
                  rw [has_of_sublist h.keys_sublist hs] at hl
                  cases hl
              rw [hs]
              exact ⟨hget.recorded k read, Nat.le_refl _⟩

/-- After `c` demands the first cache of the second site is ahead of that of the
first, with no more reads, and no read is under way. -/
structure Ahead (c : Nat) (x y : Site × Nat) : Prop where
  within : ∃ s l, (x.1.cache 0).inUse = some s ∧ (y.1.cache 0).inUse =
    some l ∧ s.Within l ∧
    s.CountsTo c ∧ l.CountsTo c
  reads_le : y.2 ≤ x.2
  gates : ∀ i, (x.1.gate i).held = false
  gates_large : ∀ i, (y.1.gate i).held = false

theorem Ahead.step {c : Nat} {x y : Site × Nat} (h : Ahead c x y)
    (dm : Demand) : Ahead (c + 1) (dm.after x) (dm.after y) := by
  obtain ⟨s, l, hs, hl, hwithin, hcounts, hcounts_large⟩ := h.within
  obtain ⟨hs', hreads, hgates⟩ := after_eq hs h.gates dm
  obtain ⟨hl', hreads_large, hgates_large⟩ := after_eq hl h.gates_large dm
  obtain ⟨hwithin', hle⟩ := within_onStore hwithin dm
  refine ⟨⟨_, _, hs', hl', hwithin', countsTo_onStore hcounts hwithin.tidy dm,
    countsTo_onStore hcounts_large hwithin.tidy_large dm⟩, ?_, fun i =>
      ?_, fun i => ?_⟩
  · rw [hreads, hreads_large]
    exact Nat.add_le_add h.reads_le hle
  · rw [Site.gate_congr hgates, h.gates]
  · rw [Site.gate_congr hgates_large, h.gates_large]

theorem Ahead.run {c : Nat} {x y : Site × Nat} (h : Ahead c x y)
    (demands : List Demand) :
    Ahead (c + demands.length) (afterAll x demands) (afterAll y demands) := by
  induction demands generalizing c x y with
  | nil => exact h
  | cons dm demands ih =>
      rw [List.length_cons, Nat.add_comm demands.length 1, ← Nat.add_assoc]
      exact ih (h.step dm)

/-- The same demands are made of two fresh caches. At any time the one with more
room knows every key that the other one knows; it has answered no fewer
questions, left no more unanswered, pushed out no more digests, and had the file
system read no more often. The counters say so as long as there were fewer
demands than they can count. -/
theorem larger_cache_ahead {n m : UInt64} (hn : n ≠ 0) (hnm : n ≤ m)
    (thresholds : List UInt64) (demands : List Demand) :
    let small := afterAll (Site.fresh [some n] thresholds, 0) demands
    let large := afterAll (Site.fresh [some m] thresholds, 0) demands
    ∃ s l, (small.1.cache 0).inUse = some s ∧ (large.1.cache 0).inUse = some l ∧
      (∀ k, has k s.entries = true → has k l.entries = true) ∧ s.hits ≤ l.hits ∧
      l.misses ≤ s.misses ∧ l.evictions ≤ s.evictions ∧ large.2 ≤ small.2 ∧
      (demands.length < wordLimit → ∃ less more, (small.1.cache 0).stats =
        .ok less ∧ (large.1.cache 0).stats = .ok more ∧ less.hits ≤ more.hits ∧
        more.misses ≤ less.misses ∧ more.evictions ≤ less.evictions) := by
  intro small large
  have hle : n.toNat ≤ m.toNat := UInt64.le_iff_toNat_le.1 hnm
  have hm : m ≠ 0 := by
    rintro rfl
    exact hn (UInt64.toNat_inj.1 (Nat.le_zero.1 hle))
  have hfresh : ∀ {c : UInt64}, c ≠ 0 →
      ((Site.fresh [some c] thresholds).cache 0).inUse =
        some (Store.empty c.toNat) := by
    intro c hc
    rw [Site.cache, Site.caches_fresh]
    exact (Cache.inUse_configure Cache.disabled c).trans (if_neg hc)
  have hcounts : ∀ c, (Store.empty c).CountsTo 0 := fun c =>
    ⟨Nat.le_refl _, Nat.le_refl _, Nat.le_refl _⟩
  have hstart : Ahead 0 (Site.fresh [some n] thresholds, 0)
      (Site.fresh [some m] thresholds, 0) :=
    ⟨⟨_, _, hfresh hn, hfresh hm, Store.within_empty hle, hcounts _, hcounts _⟩,
      Nat.le_refl _, Site.held_gate_fresh _ _, Site.held_gate_fresh _ _⟩
  have hahead := hstart.run demands
  obtain ⟨s, l, hs, hl, hwithin, hcounts_small, hcounts_large⟩ := hahead.within
  refine ⟨s, l, hs, hl, fun k => has_of_sublist hwithin.keys_sublist,
    hwithin.hits_le, hwithin.misses_le, hwithin.evictions_le, hahead.reads_le,
    fun hfew => ?_⟩
  rw [Nat.zero_add] at hcounts_small hcounts_large
  refine ⟨s.stats, l.stats, by rw [Cache.stats, hs], by
    rw [Cache.stats, hl], ?_, ?_, ?_⟩
  · exact ofNat_le_ofNat hwithin.hits_le
      (Nat.lt_of_le_of_lt hcounts_large.hits_le hfew)
  · exact ofNat_le_ofNat hwithin.misses_le
      (Nat.lt_of_le_of_lt hcounts_small.misses_le hfew)
  · exact ofNat_le_ofNat hwithin.evictions_le
      (Nat.lt_of_le_of_lt hcounts_small.evictions_le hfew)

/-- Three files are digested and then the first one again, which cannot be
read any more. With room for three digests it is not read, and its digest
is found. -/
theorem larger_cache_ahead_unreadable :
    let compute (name : String) (answer : Except IoError (Option Digest)) :
    Demand :=
      .compute 0 (.ofText name) .unknown (.ok ⟨1, .epoch, 0⟩) answer
    let demands := [compute "a" (.ok (some [1])), compute "b" (.ok (some [2])),
      compute "c" (.ok (some [3])), compute "a" (.error .notFound)]
    let small := afterAll (Site.fresh [some 2] [], 0) demands
    let large := afterAll (Site.fresh [some 3] [], 0) demands
    large.2 ≤ small.2 ∧ large.2 = 3 ∧ small.2 = 4 := by
  intro compute demands small large
  obtain ⟨s, l, -, -, -, -, -, -, hreads, -⟩ :=
    larger_cache_ahead (n := 2) (m := 3) (by decide) (by decide) [] demands
  exact ⟨hreads, by decide, by decide⟩

end Demand

end FileDigest
