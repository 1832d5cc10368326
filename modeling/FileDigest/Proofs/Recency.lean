import FileDigest.Proofs.Cache.Entries

/-!
# Lists of entries under different keys

The entries of a store are under different keys, so an entry that is used anew
is taken out of one place. What stands before that place moves back by one and
what stands behind it stays, which is why the front part of a list after a use
depends on the front part before it only (`take_put_take`).
-/

namespace FileDigest.Recency

variable {κ ν : Type}

def keys (entries : List (κ × ν)) : List κ :=
  entries.map Prod.fst

@[simp] theorem length_keys (entries : List (κ × ν)) :
    (keys entries).length = entries.length :=
  List.length_map _

theorem keys_take (n : Nat) (entries : List (κ × ν)) :
    keys (entries.take n) = (keys entries).take n :=
  List.map_take

variable [BEq κ]

def Distinct (entries : List (κ × ν)) : Prop :=
  entries.Pairwise fun e f => (e.1 == f.1) = false

theorem keys_put (k : κ) (v : ν) (entries : List (κ × ν)) :
    keys (put k v entries) = k :: (keys entries).filter fun j => !(j == k) := by
  simp [keys, put, erase, List.filter_map, Function.comp_def]

theorem find?_eq_none_iff {k : κ} {entries : List (κ × ν)} :
    find? k entries = none ↔ ∀ j ∈ keys entries, (j == k) = false := by
  simp [find?, keys]

theorem has_iff {k : κ} {entries : List (κ × ν)} :
    has k entries = true ↔ ∃ j ∈ keys entries, (j == k) = true := by
  rw [has, Option.isSome_iff_ne_none, ne_eq, find?_eq_none_iff]
  simp

theorem has_cons (k : κ) (e : κ × ν) (entries : List (κ × ν)) :
    has k (e :: entries) = (e.1 == k || has k entries) := by
  cases h : e.1 == k <;> simp [has, find?_cons, h]

theorem has_append (k : κ) (xs ys : List (κ × ν)) :
    has k (xs ++ ys) = (has k xs || has k ys) := by
  induction xs with
  | nil => rfl
  | cons e xs ih => rw [List.cons_append, has_cons, has_cons, ih, Bool.or_assoc]

theorem has_of_sublist {entries more : List (κ × ν)}
    (h : (keys entries).Sublist (keys more)) {k : κ}
    (hk : has k entries = true) : has k more = true := by
  obtain ⟨j, hj, hjk⟩ := has_iff.1 hk
  exact has_iff.2 ⟨j, h.subset hj, hjk⟩

theorem not_has_iff {k : κ} {entries : List (κ × ν)} :
    has k entries = false ↔ ∀ j ∈ keys entries, (j == k) = false := by
  rw [has, Option.isSome_eq_false_iff, Option.isNone_iff_eq_none,
    find?_eq_none_iff]

theorem filter_keys_of_not_has {k : κ} {entries : List (κ × ν)}
    (h : has k entries = false) :
    ((keys entries).filter fun j => !(j == k)) = keys entries := by
  refine List.filter_eq_self.2 fun j hj => ?_
  rw [not_has_iff.1 h j hj]
  rfl

theorem erase_of_not_has {k : κ} {entries : List (κ × ν)}
    (h : has k entries = false) : erase k entries = entries := by
  refine List.filter_eq_self.2 fun e he => ?_
  rw [not_has_iff.1 h e.1 (List.mem_map_of_mem he)]
  rfl

theorem erase_cons (k : κ) (e : κ × ν) (entries : List (κ × ν)) :
    erase k (e :: entries) = if e.1 == k then erase k entries
      else e :: erase k entries := by
  cases h : e.1 == k <;> simp [erase, h]

theorem distinct_erase {entries : List (κ × ν)} (h : Distinct entries) (k : κ) :
    Distinct (erase k entries) :=
  h.filter _

theorem distinct_take {entries : List (κ × ν)}
    (h : Distinct entries) (n : Nat) : Distinct (entries.take n) :=
  List.Pairwise.sublist (List.take_sublist n entries) h

variable [EquivBEq κ]

theorem distinct_put {entries : List (κ × ν)} (h : Distinct entries)
    (k : κ) (v : ν) : Distinct (put k v entries) := by
  refine List.pairwise_cons.2 ⟨fun e he => ?_, distinct_erase h k⟩
  have hek : (e.1 == k) = false := by simpa using (List.mem_filter.1 he).2
  rw [BEq.comm]
  exact hek

theorem not_has_of_distinct_cons {e : κ × ν} {entries : List (κ × ν)}
    (h : Distinct (e :: entries)) {k : κ} (hk : (e.1 == k) = true) :
    has k entries = false := by
  refine Bool.eq_false_iff.2 fun hhas => ?_
  obtain ⟨j, hj, hjk⟩ := has_iff.1 hhas
  obtain ⟨f, hf, rfl⟩ := List.mem_map.1 hj
  have hne := (List.pairwise_cons.1 h).1 f hf
  rw [BEq.congr_left hk, BEq.comm, hjk] at hne
  cases hne

theorem length_put {entries : List (κ × ν)} (h : Distinct entries)
    (k : κ) (v : ν) :
    (put k v entries).length = if has k entries then entries.length
      else entries.length + 1 := by
  rw [put, List.length_cons]
  induction entries with
  | nil => rfl
  | cons e entries ih =>
      have htail := (List.pairwise_cons.1 h).2
      rw [erase_cons, has, find?_cons]
      cases hek : e.1 == k with
      | true => simp [erase_of_not_has (not_has_of_distinct_cons h hek)]
      | false =>
          have ih := ih htail
          rw [has] at ih
          simp only [Bool.false_eq_true, if_false, List.length_cons]
          split at ih <;> simp_all

theorem take_erase_take {entries : List (κ × ν)} (h : Distinct entries)
    (k : κ) (n : Nat) :
    (erase k (entries.take (n + 1))).take n = (erase k entries).take n := by
  induction entries generalizing n with
  | nil => simp
  | cons e entries ih =>
      have htail := (List.pairwise_cons.1 h).2
      rw [List.take_succ_cons, erase_cons, erase_cons]
      cases hek : e.1 == k with
      | true =>
          have habsent := not_has_of_distinct_cons h hek
          have hfront : has k (entries.take n) = false := by
            refine Bool.eq_false_iff.2 fun hhas => ?_
            rw [has_of_sublist ((List.take_sublist n entries).map _) hhas]
              at habsent
            cases habsent
          rw [if_pos rfl, if_pos rfl, erase_of_not_has habsent,
            erase_of_not_has hfront, List.take_take, Nat.min_self]
      | false =>
          rw [if_neg Bool.false_ne_true, if_neg Bool.false_ne_true]
          cases n with
          | zero => simp
          | succ n => rw [List.take_succ_cons, List.take_succ_cons, ih htail]

/-- The front part of a list after a use depends on the front part before it. -/
theorem take_put_take {entries : List (κ × ν)} (h : Distinct entries) (k : κ)
    (v : ν) (n : Nat) :
    (put k v (entries.take n)).take n = (put k v entries).take n := by
  cases n with
  | zero => simp
  | succ n =>
      rw [put, put, List.take_succ_cons, List.take_succ_cons, take_erase_take h]

end FileDigest.Recency
