import FileDigest.Proofs.Bytes.Grouping
import Mathlib.Algebra.Ring.Parity

/-!
# What a fold keeps

A fold of byte strings is as long as the longest of them, and a bit of it is set
exactly if it is set in an odd number of the strings that reach so far. This is
read off one combination: it has the length of the longer string, and a bit of
it is the exclusive or of the two bits in its place, where a string that ends
before has none (`hasBit_combine`).

A string that is folded in twice comes to zero bytes, and zero bytes only make
up the length (`combine_zeros`). So what is folded in an even number of times
leaves nothing but its length, wherever in the list it stands.
-/

namespace FileDigest.Bytes

def longest (items : List Bytes) : Nat :=
  (items.map List.length).foldr max 0

def hasBit (b : Bytes) (i j : Nat) : Bool :=
  b[i]?.any (·.toNat.testBit j)

@[simp] theorem longest_nil : longest [] = 0 := rfl

@[simp] theorem longest_cons (x : Bytes) (items : List Bytes) :
    longest (x :: items) = max x.length (longest items) := rfl

theorem length_foldl_combine (acc : Bytes) (items : List Bytes) :
    (items.foldl combine acc).length = max acc.length (longest items) := by
  induction items generalizing acc with
  | nil => simp
  | cons x items ih =>
      rw [List.foldl_cons, ih, length_combine, longest_cons, Nat.max_assoc]

theorem length_combineAll (items : List Bytes) : (combineAll items).length =
    longest items := by
  rw [combineAll_eq_foldl, length_foldl_combine, List.length_nil, Nat.zero_max]

@[simp] theorem hasBit_nil (i j : Nat) : hasBit [] i j = false := rfl

@[simp] theorem hasBit_cons_zero (x : UInt8) (xs : Bytes) (j : Nat) :
    hasBit (x :: xs) 0 j = x.toNat.testBit j := rfl

@[simp] theorem hasBit_cons_succ (x : UInt8) (xs : Bytes) (i j : Nat) :
    hasBit (x :: xs) (i + 1) j = hasBit xs i j := rfl

theorem hasBit_combine (xs ys : Bytes) (i j : Nat) :
    hasBit (combine xs ys) i j = (hasBit xs i j ^^ hasBit ys i j) := by
  induction xs generalizing ys i with
  | nil => simp
  | cons x xs ih =>
      cases ys with
      | nil => simp
      | cons y ys =>
          cases i with
          | zero =>
              rw [cons_combine_cons, hasBit_cons_zero, hasBit_cons_zero,
                hasBit_cons_zero, UInt8.toNat_xor, Nat.testBit_xor]
          | succ i =>
              rw [cons_combine_cons, hasBit_cons_succ, hasBit_cons_succ,
                hasBit_cons_succ, ih]

theorem hasBit_foldl_combine (acc : Bytes) (items : List Bytes) (i j : Nat) :
    hasBit (items.foldl combine acc) i j =
      (hasBit acc i j ^^ decide (Odd (items.countP (hasBit · i j)))) := by
  induction items generalizing acc with
  | nil => simp
  | cons x items ih =>
      rw [List.foldl_cons, ih, hasBit_combine, List.countP_cons, Bool.xor_assoc]
      cases hasBit x i j with
      | false => simp
      | true => simp only [if_true, Nat.odd_add_one, decide_not, Bool.true_xor]

theorem hasBit_combineAll (items : List Bytes) (i j : Nat) :
    hasBit (combineAll items) i j = true ↔
    Odd (items.countP (hasBit · i j)) := by
  rw [combineAll_eq_foldl, hasBit_foldl_combine, hasBit_nil, Bool.false_xor,
    decide_eq_true_iff]

/-- Zero bytes make a string longer where it is the shorter one, and do nothing
else. -/
theorem combine_zeros (xs : Bytes) (n : Nat) :
    combine xs (List.replicate n 0) =
      xs ++ List.replicate (n - xs.length) 0 := by
  induction xs generalizing n with
  | nil => simp
  | cons x xs ih =>
      cases n with
      | zero => simp
      | succ n =>
          rw [List.replicate_succ, cons_combine_cons, UInt8.xor_zero, ih,
            List.length_cons, Nat.add_sub_add_right, List.cons_append]

theorem combine_combine_self (xs ys : Bytes) :
    combine (combine xs ys) ys =
      xs ++ List.replicate (ys.length - xs.length) 0 := by
  rw [combine_assoc, combine_self, combine_zeros]

theorem combineAll_replicate (n : Nat) (v : Bytes) :
    combineAll (List.replicate (2 * n + 2) v) = List.replicate v.length 0 := by
  have hpair : ∀ acc, combine (combine acc v) v =
      combine acc (List.replicate v.length 0) := by
    intro acc
    rw [combine_assoc, combine_self]
  rw [combineAll_eq_foldl]
  induction n with
  | zero =>
      change combine (combine [] v) v = _
      rw [nil_combine, combine_self]
  | succ n ih =>
      change (List.replicate (2 * n + 2) v).foldl combine
        (combine (combine [] v) v) = _
      rw [foldl_combine, ih, hpair, nil_combine, combine_self,
        List.length_replicate]

/-- What is folded in an even number of times leaves its length, and no more. -/
theorem combineAll_of_perm {items rest : List Bytes} {n : Nat} {v : Bytes}
    (h : items.Perm (List.replicate (2 * n + 2) v ++ rest)) :
    combineAll items = combineAll rest ++ List.replicate
      (v.length - longest rest) 0 := by
  have hrest := combine_zeros (combineAll rest) v.length
  rw [length_combineAll] at hrest
  calc combineAll items =
           combineAll (List.replicate (2 * n + 2) v ++ rest) := by
        rw [combineAll_eq_foldl, combineAll_eq_foldl, foldl_combine_perm h]
    _ = combine (combineAll (List.replicate (2 * n + 2) v))
        (combineAll rest) := by
        simp only [combineAll_eq_foldl]
        rw [List.foldl_append, foldl_combine]
    _ = combineAll rest ++ List.replicate (v.length - longest rest) 0 := by
        rw [combineAll_replicate, combine_comm, hrest]

theorem perm_replicate_append_filter (items : List Bytes) (v : Bytes) :
    items.Perm (List.replicate (items.count v) v ++ items.filter (· != v)) := by
  rw [← List.filter_beq]
  exact (List.filter_append_perm (· == v) items).symm

/-- A fold is as long as the longest of its strings, and a bit of it is set
exactly if it is set in an odd number of them. So a string that is folded in an
even number of times, such as one that is folded in twice, leaves nothing but
zero bytes to make up its length. -/
theorem combineAll_keeps_parity (items : List Bytes) :
    (combineAll items).length = longest items ∧
    (∀ i j, hasBit (combineAll items) i j = true ↔
      Odd (items.countP (hasBit · i j))) ∧
    (∀ v ∈ items, Even (items.count v) →
      combineAll items = combineAll (items.filter (· != v)) ++
        List.replicate (v.length - longest (items.filter (· != v))) 0) ∧
    (∀ before v between after, items = before ++ v :: (between ++ v :: after) →
      combineAll items = combineAll (before ++ between ++ after) ++
        List.replicate (v.length - longest (before ++ between ++ after)) 0) ∧
    ∀ xs ys, combine (combine xs ys) ys =
      xs ++ List.replicate (ys.length - xs.length) 0 := by
  refine ⟨length_combineAll items, hasBit_combineAll items, ?_, ?_,
    combine_combine_self⟩
  · intro v hv heven
    obtain ⟨m, hm⟩ := heven
    have hpos : 0 < items.count v := List.count_pos_iff.2 hv
    have hcount : items.count v = 2 * (m - 1) + 2 := by omega
    refine combineAll_of_perm (n := m - 1) ?_
    rw [← hcount]
    exact perm_replicate_append_filter items v
  · rintro before v between after rfl
    refine combineAll_of_perm (n := 0) ?_
    change List.Perm _ (v :: v :: (before ++ between ++ after))
    refine List.perm_middle.trans (.cons v ?_)
    rw [← List.append_assoc]
    exact List.perm_middle

/-- A long string that is folded in twice, and a short one in between. -/
theorem combineAll_keeps_parity_twice :
    let items : List Bytes := [[1, 2, 3], [5], [1, 2, 3]]
    combineAll items = [5, 0, 0] ∧
      combineAll items = combineAll [[5]] ++ List.replicate
        (3 - longest [[5]]) 0 := by
  intro items
  obtain ⟨-, -, heven, htwice, -⟩ := combineAll_keeps_parity items
  have hcount := heven [1, 2, 3] (by decide) (by decide)
  exact ⟨hcount.trans (by decide), htwice [] [1, 2, 3] [[5]] [] rfl⟩

end FileDigest.Bytes
