import FileDigest.Cache

/-!
# What the stores of a cache hold

A store takes in an entry when a digest is put in, and when a lookup is answered
it moves the entry found to the front, under the key that was asked for. So a
property of keys and digests that does not tell equal keys apart is kept by
every operation of a store, as long as every digest that is put in has it.
`Store.All` says that a property holds of the entries of one store, and
`Cache.All` that it holds in all generations of a cache, where the property may
depend on the generation.
-/

namespace FileDigest

namespace Recency

variable {κ ν : Type} [BEq κ]

theorem mem_of_find? {k : κ} {v : ν} {entries : List (κ × ν)}
    (h : find? k entries = some v) :
    ∃ e ∈ entries, (e.1 == k) = true ∧ e.2 = v := by
  obtain ⟨e, he, hv⟩ := Option.map_eq_some_iff.1 h
  have hk : (e.1 == k) = true := by simpa using List.find?_some he
  exact ⟨e, List.mem_of_find?_eq_some he, hk, hv⟩

theorem mem_put {k : κ} {v : ν} {entries : List (κ × ν)} {e : κ × ν}
    (h : e ∈ put k v entries) :
    e = (k, v) ∨ e ∈ entries := by
  rcases List.mem_cons.1 h with h | h
  · exact Or.inl h
  · exact Or.inr (List.mem_filter.1 h).1

theorem find?_of_find?_take {k : κ} {v : ν} {entries : List (κ × ν)} {n : Nat}
    (h : find? k (entries.take n) = some v) :
    find? k entries = some v := by
  induction entries generalizing n with
  | nil => simp at h
  | cons e entries ih =>
      cases n with
      | zero => simp at h
      | succ n =>
          rw [List.take_succ_cons, find?_cons] at h
          rw [find?_cons]
          split at h
          · rw [if_pos ‹_›]
            exact h
          · rw [if_neg ‹_›]
            exact ih h

theorem find?_erase_of_ne [EquivBEq κ] {j k : κ} (h : (j == k) = false)
    (entries : List (κ × ν)) :
    find? j (erase k entries) = find? j entries := by
  induction entries with
  | nil => rfl
  | cons e entries ih =>
      rw [erase, List.filter_cons, find?_cons]
      cases hk : e.1 == k with
      | true =>
          have hj : (e.1 == j) = false := by
            rw [BEq.congr_left hk, BEq.comm]
            exact h
          rw [if_neg (by simp), if_neg (by simp [hj])]
          exact ih
      | false =>
          simp only [Bool.not_false, if_true, find?_cons]
          split
          · rfl
          · exact ih

theorem find?_put_of_ne [EquivBEq κ] {j k : κ} (h : (j == k) = false) (v : ν)
    (entries : List (κ × ν)) :
    find? j (put k v entries) = find? j entries := by
  have hkj : (k == j) = false := by rw [BEq.comm]; exact h
  rw [put, find?_cons, if_neg (by simp [hkj]), find?_erase_of_ne h]

end Recency

namespace Store

def All (P : CacheKey → Digest → Prop) (s : Store) : Prop :=
  ∀ e ∈ s.entries, P e.1 e.2

theorem get_fst (s : Store) (k : CacheKey) :
    (s.get k).1 = Recency.find? k s.entries := by
  unfold get
  split <;> simp_all

theorem get_of_find? {s : Store} {k : CacheKey} {d : Digest}
    (h : Recency.find? k s.entries = some d) :
    s.get k = (some d,
      { s with entries := Recency.put k d s.entries, hits := s.hits + 1 }) := by
  simp [get, h]

theorem get_of_find?_eq_none {s : Store} {k : CacheKey}
    (h : Recency.find? k s.entries = none) :
    s.get k = (none, { s with misses := s.misses + 1 }) := by
  simp [get, h]

variable {P : CacheKey → Digest → Prop}

theorem all_empty (P : CacheKey → Digest → Prop) (capacity : Nat) :
    (empty capacity).All P := by
  intro e he
  simp [empty] at he

theorem All.answer {s : Store} (hs : s.All P)
    (hP : ∀ j k d, (j == k) = true → P j d → P k d) {k : CacheKey} {d : Digest}
    (h : (s.get k).1 = some d) :
    P k d := by
  rw [get_fst] at h
  obtain ⟨e, he, hk, rfl⟩ := Recency.mem_of_find? h
  exact hP e.1 k e.2 hk (hs e he)

theorem All.get {s : Store} (hs : s.All P)
    (hP : ∀ j k d, (j == k) = true → P j d → P k d) (k : CacheKey) :
    (s.get k).2.All P := by
  cases h : Recency.find? k s.entries with
  | none =>
      rw [get_of_find?_eq_none h]
      exact hs
  | some d =>
      have hd : P k d := hs.answer hP (by rw [get_fst, h])
      rw [get_of_find? h]
      intro e he
      rcases Recency.mem_put he with rfl | he
      · exact hd
      · exact hs e he

theorem All.insert {s : Store} (hs : s.All P) {k : CacheKey} {d : Digest}
    (hd : P k d) : (s.insert k d).All P := by
  intro e he
  rcases Recency.mem_put (List.mem_of_mem_take he) with rfl | he
  · exact hd
  · exact hs e he

end Store

namespace Cache

/-- Every entry of every generation has a property, which may depend on the
generation. -/
def All (P : Nat → CacheKey → Digest → Prop) (c : Cache) : Prop :=
  ∀ g (s : Store), c.stores[g]? = some s → s.All (P g)

variable {P : Nat → CacheKey → Digest → Prop}

theorem all_disabled (P : Nat → CacheKey → Digest → Prop) : disabled.All P := by
  intro g s h
  simp [disabled] at h

theorem All.mono {c : Cache} (hc : c.All P) {Q : Nat → CacheKey → Digest → Prop}
    (h : ∀ g k d, P g k d → Q g k d) :
    c.All Q :=
  fun g s hs e he => h g e.1 e.2 (hc g s hs e he)

theorem All.configure {c : Cache} (hc : c.All P) (capacity : UInt64) :
    (c.configure capacity).All P := by
  unfold Cache.configure
  split
  · exact hc
  · intro g s h
    rw [List.getElem?_append] at h
    split at h
    · exact hc g s h
    · rw [List.mem_singleton.1 (List.mem_of_getElem? h)]
      exact Store.all_empty _ _

theorem All.set {c : Cache} (hc : c.All P) {g : Nat} {s : Store}
    (hs : s.All (P g)) :
    ({ c with stores := c.stores.set g s } : Cache).All P := by
  intro g' s' h
  rw [List.getElem?_set] at h
  split at h
  · split at h
    · cases h
      subst g'
      exact hs
    · cases h
  · exact hc g' s' h

theorem All.getAt {c : Cache} (hc : c.All P)
    (hP : ∀ g j k d, (j == k) = true → P g j d → P g k d) (g : Nat)
    (k : CacheKey) : (c.getAt g k).2.All P := by
  unfold Cache.getAt
  split
  · exact hc.set ((hc g _ ‹_›).get (hP g) k)
  · exact hc

theorem All.answer {c : Cache} (hc : c.All P)
    (hP : ∀ g j k d, (j == k) = true → P g j d → P g k d) {g : Nat}
    {k : CacheKey} {d : Digest} (h : (c.getAt g k).1 = some d) :
    P g k d := by
  unfold Cache.getAt at h
  split at h
  · exact (hc g _ ‹_›).answer (hP g) h
  · cases h

theorem All.insertAt {c : Cache} (hc : c.All P) {g : Nat}
    {k : CacheKey} {d : Digest} (hd : P g k d) :
    (c.insertAt g k d).All P := by
  unfold Cache.insertAt
  split
  · exact hc.set ((hc g _ ‹_›).insert hd)
  · exact hc

theorem getAt_fst_congr {c c' : Cache} {g : Nat}
    (h : c'.stores[g]? = c.stores[g]?) (k : CacheKey) :
    (c'.getAt g k).1 = (c.getAt g k).1 := by
  unfold Cache.getAt
  rw [h]
  cases c.stores[g]? <;> rfl

end Cache

end FileDigest
