import FileDigest.Bytes.Xor

/-!
# Exclusive or as a commutative monoid

Byte strings with `combine` form a commutative monoid whose unit is the empty
string. The accumulator of a fold is updated by the same operation
(`combineInto_eq_combine`), so a fold does not depend on the order of its
strings. For strings of one length the operation is exclusive or byte by byte,
and a string of zero bytes can stand in the place of the empty one.

The strings of one length are a group in which each is its own inverse: `xorAll`
is the exclusive or of a list of them, written without `combine`.
-/

namespace FileDigest.Bytes

theorem combine_comm (xs ys : Bytes) : combine xs ys = combine ys xs := by
  induction xs generalizing ys with
  | nil => simp
  | cons x xs ih =>
      cases ys with
      | nil => simp
      | cons y ys =>
          rw [cons_combine_cons, cons_combine_cons, UInt8.xor_comm, ih]

theorem combine_assoc (xs ys zs : Bytes) :
    combine (combine xs ys) zs = combine xs (combine ys zs) := by
  induction xs generalizing ys zs with
  | nil => simp
  | cons x xs ih =>
      cases ys with
      | nil => simp
      | cons y ys =>
          cases zs with
          | nil => simp
          | cons z zs => simp only [cons_combine_cons, UInt8.xor_assoc, ih]

theorem combine_combine_combine_comm (xs ys zs ws : Bytes) :
    combine (combine xs ys) (combine zs ws) =
      combine (combine xs zs) (combine ys ws) := by
  rw [combine_assoc, combine_assoc, ← combine_assoc ys, combine_comm ys,
    combine_assoc]

theorem combineInto_eq_combine (acc rhs : Bytes) :
    combineInto acc rhs = combine acc rhs := by
  induction acc generalizing rhs with
  | nil => simp [combineInto]
  | cons x acc ih =>
      cases rhs with
      | nil => simp [combineInto]
      | cons y rhs =>
          have ih' := ih rhs
          simp only [combineInto] at ih' ⊢
          simpa using ih'

theorem combine_eq_zipWith {xs ys : Bytes} (h : xs.length = ys.length) :
    combine xs ys = List.zipWith (· ^^^ ·) xs ys := by
  induction xs generalizing ys with
  | nil =>
      cases ys with
      | nil => rfl
      | cons y ys => cases h
  | cons x xs ih =>
      cases ys with
      | nil => cases h
      | cons y ys =>
          rw [cons_combine_cons, List.zipWith_cons_cons, ih (Nat.succ.inj h)]

theorem replicate_zero_combine {n : Nat} {xs : Bytes} (h : n ≤ xs.length) :
    combine (List.replicate n 0) xs = xs := by
  induction n generalizing xs with
  | zero => rfl
  | succ n ih =>
      cases xs with
      | nil => simp at h
      | cons x xs =>
          rw [List.replicate_succ, cons_combine_cons, UInt8.zero_xor,
            ih (Nat.le_of_succ_le_succ h)]

/-- A fold from any accumulator is the accumulator combined with a fold from the
empty one. -/
theorem foldl_combine (acc : Bytes) (items : List Bytes) :
    items.foldl combine acc = combine acc (items.foldl combine []) := by
  induction items generalizing acc with
  | nil => simp
  | cons x items ih =>
      rw [List.foldl_cons, List.foldl_cons, nil_combine, ih, ih x,
        combine_assoc]

theorem foldl_combine_perm {xs ys : List Bytes} (h : xs.Perm ys) (acc : Bytes) :
    xs.foldl combine acc = ys.foldl combine acc := by
  induction h generalizing acc with
  | nil => rfl
  | cons x _ ih => exact ih (combine acc x)
  | swap x y xs =>
      rw [List.foldl_cons, List.foldl_cons, List.foldl_cons, List.foldl_cons,
        combine_assoc, combine_assoc, combine_comm y x]
  | trans _ _ ih₁ ih₂ => rw [ih₁, ih₂]

theorem combine_self (xs : Bytes) :
    combine xs xs = List.replicate xs.length 0 := by
  induction xs with
  | nil => rfl
  | cons x xs ih =>
      rw [cons_combine_cons, ih, UInt8.xor_self, List.length_cons,
        List.replicate_succ]

theorem combine_eq_zeros_iff {xs ys : Bytes} (h : xs.length = ys.length) :
    combine xs ys = List.replicate xs.length 0 ↔ xs = ys := by
  constructor
  · intro hzero
    calc xs = combine xs (combine ys ys) := by
          rw [combine_self, ← h, combine_comm,
            replicate_zero_combine (Nat.le_refl _)]
      _ = combine (List.replicate xs.length 0) ys := by
        rw [← combine_assoc, hzero]
      _ = ys := replicate_zero_combine (Nat.le_of_eq h)
  · rintro rfl
    exact combine_self xs

/-- The exclusive or, byte by byte, of strings that all have the given
length. -/
def xorAll (width : Nat) (items : List Bytes) : Bytes :=
  items.foldl (List.zipWith (· ^^^ ·)) (List.replicate width 0)

@[simp] theorem xorAll_nil (width : Nat) :
    xorAll width [] = List.replicate width 0 := rfl

section XorAll

variable {width : Nat} {items : List Bytes}

theorem foldl_zipWith {acc : Bytes} (hacc : acc.length = width)
    (h : ∀ x ∈ items, x.length = width) :
    items.foldl (List.zipWith (· ^^^ ·)) acc = items.foldl combine acc := by
  induction items generalizing acc with
  | nil => rfl
  | cons x items ih =>
      have hx : acc.length = x.length :=
        hacc.trans (h x List.mem_cons_self).symm
      rw [List.foldl_cons, List.foldl_cons, ← combine_eq_zipWith hx]
      refine ih ?_ fun y hy => h y (List.mem_cons_of_mem x hy)
      rw [length_combine, ← hx, hacc, Nat.max_self]

theorem xorAll_eq_foldl (h : ∀ x ∈ items, x.length = width) :
    xorAll width items = items.foldl combine (List.replicate width 0) :=
  foldl_zipWith List.length_replicate h

theorem xorAll_cons {x : Bytes} (hx : x.length = width)
    (h : ∀ y ∈ items, y.length = width) :
    xorAll width (x :: items) = combine x (xorAll width items) := by
  have hcons : ∀ y ∈ x :: items, y.length = width :=
    List.forall_mem_cons.2 ⟨hx, h⟩
  have hzero : combine (List.replicate width 0) x = x :=
    replicate_zero_combine (Nat.le_of_eq hx.symm)
  calc xorAll width (x :: items) = items.foldl combine x := by
        rw [xorAll_eq_foldl hcons, List.foldl_cons, hzero]
    _ = combine (combine x (List.replicate width 0))
        (items.foldl combine []) := by
        rw [combine_comm x, hzero, foldl_combine]
    _ = combine x (xorAll width items) := by
        rw [xorAll_eq_foldl h, foldl_combine (List.replicate width 0),
          combine_assoc]

theorem length_xorAll (h : ∀ x ∈ items, x.length = width) :
    (xorAll width items).length = width := by
  induction items with
  | nil => simp
  | cons x items ih =>
      obtain ⟨hx, hitems⟩ := List.forall_mem_cons.1 h
      rw [xorAll_cons hx hitems, length_combine, hx, ih hitems, Nat.max_self]

theorem xorAll_append {others : List Bytes} (h : ∀ x ∈ items, x.length = width)
    (hothers : ∀ x ∈ others, x.length = width) :
    xorAll width (items ++ others) = combine (xorAll width items)
      (xorAll width others) := by
  induction items with
  | nil =>
      rw [xorAll_nil, List.nil_append,
        replicate_zero_combine (Nat.le_of_eq (length_xorAll hothers).symm)]
  | cons x items ih =>
      obtain ⟨hx, hitems⟩ := List.forall_mem_cons.1 h
      have happend : ∀ y ∈ items ++ others, y.length = width :=
        List.forall_mem_append.2 ⟨hitems, hothers⟩
      rw [List.cons_append, xorAll_cons hx happend, ih hitems,
        xorAll_cons hx hitems, combine_assoc]

theorem xorAll_perm {others : List Bytes} (h : ∀ x ∈ items, x.length = width)
    (hperm : items.Perm others) : xorAll width items = xorAll width others := by
  rw [xorAll_eq_foldl h, xorAll_eq_foldl fun x hx => h x (hperm.mem_iff.2 hx)]
  exact foldl_combine_perm hperm _

theorem combine_xorAll_append {left right common : List Bytes}
    (hleft : ∀ x ∈ left, x.length = width)
    (hright : ∀ x ∈ right, x.length = width)
    (hcommon : ∀ x ∈ common, x.length = width) :
    combine (xorAll width (left ++ common)) (xorAll width (right ++ common)) =
      xorAll width (left ++ right) := by
  have hlength : ∀ x ∈ left ++ right, x.length = width :=
    List.forall_mem_append.2 ⟨hleft, hright⟩
  rw [xorAll_append hleft hcommon, xorAll_append hright hcommon,
    combine_combine_combine_comm, combine_self, length_xorAll hcommon,
    ← xorAll_append hleft hright, combine_comm,
    replicate_zero_combine (Nat.le_of_eq (length_xorAll hlength).symm)]

end XorAll

end FileDigest.Bytes
