import FileDigest.Proofs.Bytes.Xor

/-!
# Combinations of any shape

Byte strings can be combined in any order and with any brackets, and empty
strings can be put in anywhere. A `Grouping` is a bracketed combination: a
binary tree whose leaves are the strings, read from left to right. Its value is
the fold over its leaves, because `combine` is associative; and a fold does not
depend on the order of its strings, nor on empty ones among them. So the shape
of a combination does not show in its result.
-/

namespace FileDigest.Bytes

/-- A bracketed combination of byte strings. -/
inductive Grouping where
  | string (b : Bytes)
  | pair (left right : Grouping)

namespace Grouping

def value : Grouping → Bytes
  | string b => b
  | pair left right => combine left.value right.value

def leaves : Grouping → List Bytes
  | string b => [b]
  | pair left right => left.leaves ++ right.leaves

theorem value_eq_foldl (t : Grouping) :
    t.value = t.leaves.foldl combine [] := by
  induction t with
  | string b => simp [value, leaves]
  | pair left right ihl ihr =>
      rw [value, leaves, List.foldl_append, foldl_combine, ← ihl, ← ihr]

end Grouping

theorem foldl_combine_replicate_nil (acc : Bytes) (n : Nat) :
    (List.replicate n []).foldl combine acc = acc := by
  induction n with
  | zero => simp
  | succ n ih => rw [List.replicate_succ, List.foldl_cons, combine_nil, ih]

theorem combineAll_eq_foldl (items : List Bytes) :
    combineAll items = items.foldl combine [] := by
  have h : combineInto = combine := by
    funext acc rhs
    exact combineInto_eq_combine acc rhs
  rw [combineAll, h]

theorem getLast?_combineSteps (acc : Bytes) (items : List Bytes) :
    (combineSteps acc items).getLast?.getD acc =
      items.foldl combineInto acc := by
  induction items generalizing acc with
  | nil => simp [combineSteps]
  | cons rhs items ih =>
      rw [combineSteps, List.getLast?_cons, Option.getD_some, List.foldl_cons]
      exact ih (combineInto acc rhs)

/-- With the longer string in front, the overlap is changed and the rest of the
longer string is kept. -/
theorem combine_eq_zipWith_append {long short : Bytes}
    (h : short.length ≤ long.length) :
    combine long short =
      List.zipWith (· ^^^ ·) long short ++ long.drop short.length := by
  have hrest : short.drop long.length = [] := List.drop_eq_nil_of_le h
  rw [← combineInto_eq_combine, combineInto, hrest, List.append_nil]

/-- However strings are ordered and bracketed, and however many empty ones are
put among them, they combine to the fold of the list, which is the last
accumulator of folding them in one by one. The operation is commutative and
associative with the empty string as its unit; it overlays the longer string
with the shorter one, on whichever side that is, and does the same in place. -/
theorem grouping_value_eq_combineAll (items : List Bytes) :
    (∀ (t : Grouping) (n : Nat), t.leaves.Perm (items ++ List.replicate n []) →
      t.value = combineAll items) ∧
    (∀ others, others.Perm items → combineAll others = combineAll items) ∧
    (combineSteps [] items).getLast?.getD [] = combineAll items ∧
    (∀ xs ys, combine xs ys = combine ys xs) ∧
    (∀ xs ys zs, combine (combine xs ys) zs = combine xs (combine ys zs)) ∧
    (∀ xs, combine [] xs = xs ∧ combine xs [] = xs) ∧
    (∀ long short, short.length ≤ long.length →
      combine long short = List.zipWith (· ^^^ ·) long short ++
        long.drop short.length ∧
      combine short long = List.zipWith (· ^^^ ·) long short ++
        long.drop short.length) ∧
    ∀ acc rhs, combineInto acc rhs = combine acc rhs := by
  refine ⟨?_, ?_, getLast?_combineSteps [] items, combine_comm, combine_assoc,
    fun xs => ⟨nil_combine xs, combine_nil xs⟩, ?_, combineInto_eq_combine⟩
  · intro t n hleaves
    rw [t.value_eq_foldl, foldl_combine_perm hleaves, List.foldl_append,
      foldl_combine_replicate_nil, combineAll_eq_foldl]
  · intro others hperm
    rw [combineAll_eq_foldl, combineAll_eq_foldl, foldl_combine_perm hperm]
  · intro long short h
    have hlong := combine_eq_zipWith_append h
    exact ⟨hlong, combine_comm short long ▸ hlong⟩

/-- Three strings, the longest in the middle, in reverse order and bracketed to
the right with two empty strings among them. -/
theorem grouping_value_eq_combineAll_reversed :
    let items : List Bytes := [[1], [2, 3, 4], [5, 6]]
    let t : Grouping := .pair (.string [5, 6])
      (.pair (.pair (.string []) (.string [2, 3, 4]))
        (.pair (.string []) (.string [1])))
    t.leaves.Perm (items ++ List.replicate 2 []) ∧ t.value = combineAll items ∧
      combineAll items = [6, 5, 4] := by
  intro items t
  have hleaves : t.leaves.Perm (items ++ List.replicate 2 []) := by decide
  exact ⟨hleaves, (grouping_value_eq_combineAll items).1 t 2 hleaves, by decide⟩

end FileDigest.Bytes
