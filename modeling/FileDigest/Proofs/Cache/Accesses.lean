import FileDigest.Proofs.Cache.Generations
import FileDigest.Proofs.Recency

/-!
# What accesses do to a store

Every question that a store is asked is counted once, as a hit or as a miss.
Every digest that is put in under a key that was not there is still in the store
or was pushed out, and pushing it out was counted; a digest that takes the place
of another changes neither count. Both sums are kept by one access
(`Store.hits_add_misses_access`, `Store.Tidy.evictions_add_length_access`), the
second because the entries are under different keys and within the capacity,
which is `Store.Tidy`.
-/

namespace FileDigest

theorem countP_cons_toNat {α : Type} (f : α → Bool) (x : α) (xs : List α) :
    (x :: xs).countP f = xs.countP f + (f x).toNat := by
  rw [List.countP_cons]
  cases f x <;> rfl

namespace Access

def isAsk : Access → Bool
  | ask _ => true
  | put _ _ => false

def adds (s : Store) : Access → Bool
  | ask _ => false
  | put k _ => !Recency.has k s.entries

@[simp] theorem isAsk_ask (k : CacheKey) : (ask k).isAsk = true := rfl

@[simp] theorem isAsk_put (k : CacheKey) (d : Digest) :
    (put k d).isAsk = false := rfl

end Access

namespace Store

structure Tidy (s : Store) : Prop where
  distinct : Recency.Distinct s.entries
  length_le : s.entries.length ≤ s.capacity

def after (s : Store) (as : List Access) : Store :=
  as.foldl (fun s a => a.toStore s) s

/-- How many of the accesses put a digest in under a key that was not there when
its turn came. -/
def additions (s : Store) : List Access → Nat
  | [] => 0
  | a :: as => (a.adds s).toNat + (a.toStore s).additions as

variable {s : Store}

theorem tidy_empty (capacity : Nat) : (empty capacity).Tidy :=
  ⟨List.Pairwise.nil, Nat.zero_le _⟩

@[simp] theorem capacity_access (s : Store) (a : Access) :
    (a.toStore s).capacity = s.capacity := by
  cases a with
  | ask k => exact capacity_get s k
  | put k d => rfl

theorem length_entries_get (h : Recency.Distinct s.entries) (k : CacheKey) :
    (s.get k).2.entries.length = s.entries.length := by
  cases hk : Recency.find? k s.entries with
  | none => rw [get_of_find?_eq_none hk]
  | some d =>
      rw [get_of_find? hk, Recency.length_put h, Recency.has, hk]
      rfl

theorem Tidy.access (hs : s.Tidy) (a : Access) : (a.toStore s).Tidy := by
  cases a with
  | ask k =>
      refine ⟨?_, ?_⟩
      · change Recency.Distinct (s.get k).2.entries
        cases hk : Recency.find? k s.entries with
        | none =>
            rw [get_of_find?_eq_none hk]
            exact hs.distinct
        | some d =>
            rw [get_of_find? hk]
            exact Recency.distinct_put hs.distinct k d
      · rw [capacity_access]
        exact Nat.le_trans (Nat.le_of_eq (length_entries_get hs.distinct k))
          hs.length_le
  | put k d =>
      exact ⟨Recency.distinct_take (Recency.distinct_put hs.distinct k d) _,
        length_entries_insert_le s k d⟩

theorem hits_add_misses_access (s : Store) (a : Access) :
    (a.toStore s).hits + (a.toStore s).misses = s.hits + s.misses +
      a.isAsk.toNat := by
  cases a with
  | ask k =>
      simp only [Access.toStore, Access.isAsk, Bool.toNat_true]
      cases hk : Recency.find? k s.entries with
      | none =>
          rw [get_of_find?_eq_none hk]
          rfl
      | some d =>
          rw [get_of_find? hk]
          exact Nat.succ_add_eq_add_succ _ _
  | put k d => rfl

theorem Tidy.evictions_add_length_access (hs : s.Tidy) (a : Access) :
    (a.toStore s).evictions + (a.toStore s).entries.length =
      s.evictions + s.entries.length + (a.adds s).toNat := by
  cases a with
  | ask k =>
      have hlength := length_entries_get hs.distinct k
      have hevictions : (s.get k).2.evictions = s.evictions := by
        unfold get
        split <;> rfl
      simp [Access.toStore, Access.adds, hlength, hevictions]
  | put k d =>
      have hlength := Recency.length_put hs.distinct k d
      have hle := hs.length_le
      simp only [Access.toStore, Access.adds, insert, List.length_take]
      cases hk : Recency.has k s.entries with
      | true =>
          rw [hk, if_pos rfl] at hlength
          simp only [hlength, Bool.not_true, Bool.toNat_false]
          omega
      | false =>
          rw [hk, if_neg Bool.false_ne_true] at hlength
          simp only [hlength, Bool.not_false, Bool.toNat_true]
          omega

theorem Tidy.after (hs : s.Tidy) (as : List Access) : (s.after as).Tidy := by
  induction as generalizing s with
  | nil => exact hs
  | cons a as ih => exact ih (hs.access a)

@[simp] theorem capacity_after (s : Store) (as : List Access) :
    (s.after as).capacity = s.capacity := by
  induction as generalizing s with
  | nil => rfl
  | cons a as ih => exact (ih (a.toStore s)).trans (capacity_access s a)

theorem hits_add_misses_after (s : Store) (as : List Access) :
    (s.after as).hits + (s.after as).misses = s.hits + s.misses +
      as.countP Access.isAsk := by
  induction as generalizing s with
  | nil => rfl
  | cons a as ih =>
      have hone := hits_add_misses_access s a
      have hrest := ih (a.toStore s)
      change ((a.toStore s).after as).hits + ((a.toStore s).after as).misses = _
      rw [countP_cons_toNat]
      omega

theorem Tidy.evictions_add_length_after (hs : s.Tidy) (as : List Access) :
    (s.after as).evictions + (s.after as).entries.length =
      s.evictions + s.entries.length + s.additions as := by
  induction as generalizing s with
  | nil => rfl
  | cons a as ih =>
      have hone := hs.evictions_add_length_access a
      have hrest := ih (hs.access a)
      change ((a.toStore s).after as).evictions +
        ((a.toStore s).after as).entries.length = _
      rw [additions]
      omega

theorem additions_le (s : Store) (as : List Access) :
    s.additions as ≤ as.countP fun a => !a.isAsk := by
  induction as generalizing s with
  | nil => exact Nat.le_refl _
  | cons a as ih =>
      have hrest := ih (a.toStore s)
      have hone : (a.adds s).toNat ≤ (!a.isAsk).toNat := by
        cases a with
        | ask k => exact Nat.le_refl _
        | put k d => exact Bool.toNat_le _
      rw [additions, countP_cons_toNat]
      omega

theorem toNat_hits_add_toNat_misses (h : s.hits + s.misses < wordLimit) :
    s.stats.hits.toNat + s.stats.misses.toNat = s.hits + s.misses := by
  have hhits : s.hits < wordLimit := by omega
  have hmisses : s.misses < wordLimit := by omega
  rw [stats, UInt64.toNat_ofNat_of_lt' hhits, UInt64.toNat_ofNat_of_lt' hmisses]

/-- The counters of a store say what was done to it, as long as neither kind of
access was made more often than 64 bits can count. -/
theorem stats_after (capacity : Nat) {as : List Access}
    (hasks : as.countP Access.isAsk < wordLimit)
    (hputs : (as.countP fun a => !a.isAsk) < wordLimit) :
    let s := (empty capacity).after as
    s.stats.hits.toNat + s.stats.misses.toNat = as.countP Access.isAsk ∧
      s.stats.evictions.toNat + s.entries.length =
        (empty capacity).additions as := by
  intro s
  have hasked : s.hits + s.misses = as.countP Access.isAsk := by
    rw [hits_add_misses_after]
    simp [empty]
  have hadded : s.evictions + s.entries.length =
      (empty capacity).additions as := by
    rw [(tidy_empty capacity).evictions_add_length_after as]
    simp [empty]
  have hle := additions_le (empty capacity) as
  have hevictions : s.evictions < wordLimit := by omega
  rw [toNat_hits_add_toNat_misses (hasked ▸ hasks), hasked, stats,
    UInt64.toNat_ofNat_of_lt' hevictions, hadded]
  exact ⟨rfl, rfl⟩

end Store

theorem Cache.inUse_afterAccesses (c : Cache) (as : List Access) :
    (c.afterAccesses as).inUse = c.inUse.map (·.after as) := by
  induction as generalizing c with
  | nil => simp [afterAccesses, Store.after]
  | cons a as ih =>
      change ((a.toCache c).afterAccesses as).inUse = _
      rw [ih, Access.inUse_toCache, Option.map_map]
      rfl

end FileDigest
