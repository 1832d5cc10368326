import FileDigest.KeyTable
import FileDigest.Proofs.Path.Spelling
import Mathlib.Data.Set.Card

/-!
# The identity of cache keys

Equality of keys is an equivalence: the same components in the path, however it
is spelled, and the same node, time and size. The hash is one for all keys of a
class, so a hash table finds what a search from the front of a list finds, and
holds one entry for each class (`CacheKey.equality_and_classify`).

What a table knows of the keys that it has met is an invariant of meeting one
more (`KeyTable.Knows`).
-/

namespace FileDigest

theorem Timestamp.eq_iff_parts {t u : Timestamp} :
    t = u ↔ t.seconds = u.seconds ∧ t.nanos = u.nanos := by
  cases t
  cases u
  simp

theorem FileStatus.eq_iff_parts {s t : FileStatus} :
    s = t ↔ s.node = t.node ∧ s.modified = t.modified ∧ s.size = t.size := by
  cases s
  cases t
  simp

namespace CacheKey

instance setoid : Setoid CacheKey where
  r j k := (j == k) = true
  iseqv := ⟨fun _ => BEq.rfl, BEq.symm, BEq.trans⟩

noncomputable def classCount (keys : List CacheKey) : Nat :=
  Set.ncard (Quotient.mk setoid '' {k | k ∈ keys})

theorem class_mem_iff {k : CacheKey} {keys : List CacheKey} :
    Quotient.mk setoid k ∈ Quotient.mk setoid '' {j | j ∈ keys} ↔ ∃ j ∈ keys,
      (j == k) = true := by
  rw [Set.mem_image]
  exact exists_congr fun j => and_congr_right fun _ => Quotient.eq

theorem finite_classes (keys : List CacheKey) :
    (Quotient.mk setoid '' {k | k ∈ keys}).Finite :=
  (List.finite_toSet keys).image _

theorem setOf_mem_concat (keys : List CacheKey) (k : CacheKey) :
    {j | j ∈ keys ++ [k]} = insert k {j | j ∈ keys} := by
  ext j
  simp [or_comm]

theorem classCount_concat_of_met {keys : List CacheKey} {k : CacheKey}
    (h : ∃ j ∈ keys, (j == k) = true) : classCount (keys ++ [k]) =
      classCount keys := by
  rw [classCount, setOf_mem_concat, Set.image_insert_eq,
    Set.insert_eq_of_mem (class_mem_iff.2 h), classCount]

theorem classCount_concat_of_new {keys : List CacheKey} {k : CacheKey}
    (h : ∀ j ∈ keys, (j == k) = false) : classCount (keys ++ [k]) =
      classCount keys + 1 := by
  have hnew : Quotient.mk setoid k ∉ Quotient.mk setoid '' {j | j ∈ keys} := by
    intro hmet
    obtain ⟨j, hj, hjk⟩ := class_mem_iff.1 hmet
    rw [h j hj] at hjk
    cases hjk
  rw [classCount, setOf_mem_concat, Set.image_insert_eq,
    Set.ncard_insert_of_notMem hnew (finite_classes keys), classCount]

theorem firstEqual_append {k : CacheKey} {keys : List CacheKey} (h : k ∈ keys)
    (more : List CacheKey) : k.firstEqual (keys ++ more) =
      k.firstEqual keys := by
  have hlt : keys.findIdx (· == k) < keys.length :=
    List.findIdx_lt_length.2 ⟨k, h, BEq.rfl⟩
  rw [firstEqual, List.findIdx_append, if_pos hlt, firstEqual]

theorem findIdx?_congr {j k : CacheKey} (h : (k == j) = true)
    (keys : List CacheKey) : keys.findIdx? (· == j) = keys.findIdx? (· == k) :=
  congrArg (List.findIdx? · keys) (funext fun _ => (BEq.congr_right h).symm)

theorem findIdx?_concat (keys : List CacheKey) (j k : CacheKey) :
    (keys ++ [k]).findIdx? (· == j) =
      (keys.findIdx? (· == j)).or (if k == j then some keys.length
        else none) := by
  rw [List.findIdx?_append]
  cases h : k == j <;> simp [List.findIdx?_cons, h]

end CacheKey

namespace KeyTable

open CacheKey

variable {table : KeyTable} {done : List CacheKey}

/-- The table has met the given keys: it leads from every key to the place of
the first that equals it, and has an entry for each class. -/
structure Knows (table : KeyTable) (done : List CacheKey) : Prop where
  first : ∀ k, table[k]? = done.findIdx? (· == k)
  size : table.size = classCount done

theorem knows_empty : Knows ∅ [] where
  first k := by simp
  size := by simp [classCount]

/-- A table keeps what it knows when it meets a key, and leads to the place of
the first key that equals it. -/
theorem Knows.meet (h : Knows table done) (k : CacheKey) :
    (table.meet done.length k).1 = k.firstEqual (done ++ [k]) ∧
      Knows (table.meet done.length k).2 (done ++ [k]) := by
  unfold KeyTable.meet
  rw [h.first k]
  cases hfound : done.findIdx? (· == k) with
  | some first =>
      obtain ⟨hlt, hfirst⟩ := List.findIdx?_eq_some_iff_findIdx_eq.1 hfound
      have hmet : ∃ j ∈ done, (j == k) = true := by
        rw [← hfirst] at hlt
        exact List.findIdx_lt_length.1 hlt
      refine ⟨?_, ⟨fun j => ?_, ?_⟩⟩
      · dsimp only
        rw [firstEqual, List.findIdx_append, hfirst, if_pos hlt]
      · rw [h.first j, findIdx?_concat]
        cases hj : k == j with
        | false => simp
        | true => rw [findIdx?_congr hj, hfound, Option.some_or]
      · rw [classCount_concat_of_met hmet]
        exact h.size
  | none =>
      have hnew := List.findIdx?_eq_none_iff.1 hfound
      have hout : k ∉ table := by
        rw [Std.HashMap.mem_iff_isSome_getElem?, h.first k, hfound]
        exact Bool.false_ne_true
      refine ⟨?_, ⟨fun j => ?_, ?_⟩⟩
      · have hlast : (done ++ [k]).findIdx? (· == k) = some done.length := by
          rw [findIdx?_concat, hfound, BEq.rfl, if_pos rfl, Option.none_or]
        exact (List.findIdx?_eq_some_iff_findIdx_eq.1 hlast).2.symm
      · rw [Std.HashMap.getElem?_insert, h.first j, findIdx?_concat]
        cases hj : k == j with
        | false => simp
        | true =>
            rw [if_pos rfl, if_pos rfl, findIdx?_congr hj, hfound,
              Option.none_or]
      · rw [Std.HashMap.size_insert, if_neg hout, h.size,
          classCount_concat_of_new hnew]

theorem Knows.meetAll (h : Knows table done) (keys : List CacheKey) :
    (table.meetAll done.length keys).1 =
      keys.map (fun k => k.firstEqual (done ++ keys)) ∧
      Knows (table.meetAll done.length keys).2 (done ++ keys) := by
  induction keys generalizing table done with
  | nil => exact ⟨rfl, by rwa [List.append_nil]⟩
  | cons k keys ih =>
      obtain ⟨hfirst, hknows⟩ := h.meet k
      obtain ⟨hfirsts, hall⟩ := ih hknows
      rw [List.length_append, List.length_singleton] at hfirsts hall
      rw [List.append_cons, List.map_cons, firstEqual_append (by simp),
        ← hfirst, ← hfirsts]
      exact ⟨rfl, hall⟩

end KeyTable

/-- Keys are equal when the components of their paths are, whatever the
spelling, and the parts of their status are. Equal keys have one hash, so a hash
table finds for every key of a list the first that equals it and holds as many
entries as there are classes of equal keys. -/
theorem CacheKey.equality_and_classify :
    (∀ j k : CacheKey, (j == k) = true ↔
      j.path.components = k.path.components ∧ j.status.node = k.status.node ∧
        j.status.modified.seconds = k.status.modified.seconds ∧
        j.status.modified.nanos = k.status.modified.nanos ∧
        j.status.size = k.status.size) ∧
    (∀ p q : Path,
      p.components = q.components ↔
      Relation.EqvGen Path.Respelled p.bytes q.bytes) ∧
    Equivalence (fun j k : CacheKey => (j == k) = true) ∧
    (∀ j k : CacheKey, (j == k) = true → hash j = hash k) ∧
    ∀ keys : List CacheKey,
      KeyTable.classify keys = (keys.map (fun k => k.firstEqual keys),
        CacheKey.classCount keys) := by
  refine ⟨fun j k => ?_, fun p q => Path.components_eq_iff_eqvGen,
    CacheKey.setoid.iseqv, fun j k => LawfulHashable.hash_eq j k,
    fun keys => ?_⟩
  · rw [CacheKey.beq_iff, CacheKey.identity, CacheKey.identity, Prod.mk.injEq,
      FileStatus.eq_iff_parts, Timestamp.eq_iff_parts, and_assoc]
  · obtain ⟨hfirsts, hknows⟩ := KeyTable.knows_empty.meetAll keys
    exact Prod.ext hfirsts hknows.size

end FileDigest
