import FileDigest.Proofs.Aggregate.Differences

/-!
# Aggregates in parts

A collection can be aggregated in two parts that have no path in common.
Whatever turns the calls of the two parts take, an aggregate that is given all
of them accepts those that the parts accept (`interleaving_accepted`): it has
met a path of one part exactly if that part has. So its digest is the
combination of the two digests, and a part can be taken out of a digest again by
combining it once more.
-/

namespace FileDigest

/-- A list takes turns between two lists, each of which keeps its order. -/
inductive Interleaving {α : Type} : List α → List α → List α → Prop where
  | nil : Interleaving [] [] []
  | left {x : α} {xs ys zs : List α} (h : Interleaving xs ys zs) :
      Interleaving (x :: xs) ys (x :: zs)
  | right {y : α} {xs ys zs : List α} (h : Interleaving xs ys zs) :
      Interleaving xs (y :: ys) (y :: zs)

namespace Interleaving

variable {α : Type} {xs ys zs : List α}

theorem perm (h : Interleaving xs ys zs) : zs.Perm (xs ++ ys) := by
  induction h with
  | nil => exact .refl []
  | left _ ih => exact ih.cons _
  | right _ ih => exact (ih.cons _).trans List.perm_middle.symm

end Interleaving

namespace UnorderedDigest

variable {a b c : UnorderedDigest} {S T adds : List (Path × Digest)}

/-- The aggregate has met the same of some paths as another one. The induction
is on the turns, and each of them is made to the aggregate and to that of its
own part. -/
theorem interleaving_accepted (h : Interleaving S T adds)
    (hS : ∀ x ∈ S, c.contains x.1 = a.contains x.1)
    (hT : ∀ y ∈ T, c.contains y.1 = b.contains y.1)
    (hdisjoint : ∀ x ∈ S, ∀ y ∈ T, x.1.same y.1 = false) :
    Interleaving (a.accepted S) (b.accepted T) (c.accepted adds) := by
  induction h generalizing a b c with
  | nil => exact .nil
  | @left x S T adds h ih =>
      obtain ⟨hx, hS⟩ := List.forall_mem_cons.1 hS
      obtain ⟨hapart, hdisjoint⟩ := List.forall_mem_cons.1 hdisjoint
      cases hmet : a.contains x.1 with
      | true =>
          rw [accepted_cons_error (add_of_contains hmet),
            accepted_cons_error (add_of_contains (hx.trans hmet))]
          exact ih hS hT hdisjoint
      | false =>
          have hadd := add_of_not_contains (d := x.2) hmet
          have hadd' := add_of_not_contains (d := x.2) (hx.trans hmet)
          rw [accepted_cons_ok hadd, accepted_cons_ok hadd']
          refine .left (ih (fun z hz => ?_) (fun y hy => ?_) hdisjoint)
          · rw [contains_of_add hadd, contains_of_add hadd', hS z hz]
          · rw [contains_of_add hadd', hapart y hy, Bool.false_or, hT y hy]
  | @right y S T adds h ih =>
      obtain ⟨hy, hT⟩ := List.forall_mem_cons.1 hT
      have hapart : ∀ x ∈ S, x.1.same y.1 = false :=
        fun x hx => hdisjoint x hx y List.mem_cons_self
      have hdisjoint : ∀ x ∈ S, ∀ z ∈ T, x.1.same z.1 = false :=
        fun x hx z hz => hdisjoint x hx z (List.mem_cons_of_mem y hz)
      cases hmet : b.contains y.1 with
      | true =>
          rw [accepted_cons_error (add_of_contains hmet),
            accepted_cons_error (add_of_contains (hy.trans hmet))]
          exact ih hS hT hdisjoint
      | false =>
          have hadd := add_of_not_contains (d := y.2) hmet
          have hadd' := add_of_not_contains (d := y.2) (hy.trans hmet)
          rw [accepted_cons_ok hadd, accepted_cons_ok hadd']
          refine .right (ih (fun x hx => ?_) (fun z hz => ?_) hdisjoint)
          · rw [contains_of_add hadd', Path.same_comm, hapart x hx,
              Bool.false_or, hS x hx]
          · rw [contains_of_add hadd, contains_of_add hadd', hT z hz]

theorem accepted_perm_of_interleaving (h : Interleaving S T adds)
    (hdisjoint : ∀ x ∈ S, ∀ y ∈ T, x.1.same y.1 = false) :
    (empty.accepted adds).Perm (empty.accepted S ++ empty.accepted T) :=
  (interleaving_accepted h (fun _ _ => rfl) (fun _ _ => rfl) hdisjoint).perm

theorem combine_xorOf_parts (S T : List (Path × Digest)) :
    Bytes.combine (xorOf S) (xorOf T) = xorOf (S ++ T) := by
  have hS : S.Perm (S ++ []) := by rw [List.append_nil]
  have hT : T.Perm (T ++ []) := by rw [List.append_nil]
  exact combine_xorOf hS hT

/-- A call that is accepted after others adds its pair to what they have
left. -/
theorem accepted_concat_of_add {path : Path} {d : Digest}
    (h : (empty.addAll S).add path d = .ok b) :
    b = empty.addAll (S ++ [(path, d)]) ∧
      empty.accepted (S ++ [(path, d)]) = empty.accepted S ++ [(path, d)] := by
  constructor
  · rw [addAll_append, addAll_cons_ok h, addAll_nil]
  · have hlength : (empty.addEach S).length = S.length := length_addEach
    rw [accepted, addEach_append, List.zip_append hlength.symm,
      List.filter_append, List.map_append]
    exact congrArg (empty.accepted S ++ ·) (accepted_cons_ok h)

theorem combine_finish_singleton {path : Path} {d : Digest}
    (h : (empty.addAll S).add path d = .ok b) :
    Bytes.combine b.finish (empty.addAll [(path, d)]).finish =
      (empty.addAll S).finish := by
  obtain ⟨rfl, haccepted⟩ := accepted_concat_of_add h
  have hone : empty.accepted [(path, d)] = [(path, d)] :=
    accepted_of_pairwise (fun _ _ => rfl) (List.pairwise_singleton _ _)
  have hcancel : Bytes.combine (xorOf (empty.accepted S ++ [(path, d)]))
      (xorOf ([] ++ [(path, d)])) = xorOf (empty.accepted S ++ []) :=
    combine_xorOf (.refl _) (.refl _)
  rw [finish_addAll, finish_addAll, finish_addAll, haccepted, hone]
  rwa [List.nil_append, List.append_nil] at hcancel

/-- Two parts of a collection have no path in common. Whatever turns they take,
the digest of all of it is the combination of the digests of the parts, and the
numbers of pairs add up. Combining a digest with that of a single pair that was
accepted last takes the pair out again. -/
theorem finish_interleaving (h : Interleaving S T adds)
    (hdisjoint : ∀ x ∈ S, ∀ y ∈ T, x.1.same y.1 = false) :
    (empty.addAll adds).finish =
      Bytes.combine (empty.addAll S).finish (empty.addAll T).finish ∧
    (empty.addAll adds).size = (empty.addAll S).size + (empty.addAll T).size ∧
    ∀ path d b, (empty.addAll S).add path d = .ok b →
      Bytes.combine b.finish (empty.addAll [(path, d)]).finish =
        (empty.addAll S).finish := by
  have haccepted := accepted_perm_of_interleaving h hdisjoint
  refine ⟨?_, ?_, ?_⟩
  · rw [finish_addAll, finish_addAll, finish_addAll, xorOf_perm haccepted,
      combine_xorOf_parts]
  · rw [size_addAll, size_addAll, size_addAll, haccepted.length_eq,
      List.length_append]
  · intro path d b hadd
    exact combine_finish_singleton hadd

/-- The parts take turns, and one of them has a pair that is refused. A further
pair is accepted and taken out again. -/
theorem finish_interleaving_refused :
    let S : List (Path × Digest) :=
  [(.ofText "a/b", [1]), (.ofText "a//b", [2])]
    let T : List (Path × Digest) := [(.ofText "", [1])]
    let adds : List (Path × Digest) :=
      [(.ofText "a/b", [1]), (.ofText "", [1]), (.ofText "a//b", [2])]
    (empty.addAll adds).finish = Bytes.combine (empty.addAll S).finish
      (empty.addAll T).finish ∧
      (empty.addAll adds).size = 2 ∧
      ∃ b, (empty.addAll S).add (.ofText "./a/b") [3] = .ok b ∧
        Bytes.combine b.finish (empty.addAll [(.ofText "./a/b", [3])]).finish =
          (empty.addAll S).finish := by
  intro S T adds
  have hturns : Interleaving S T adds := .left (.right (.left .nil))
  obtain ⟨hfinish, hsize, hlast⟩ :=
    finish_interleaving hturns (by decide +kernel)
  have hnew : (empty.addAll S).contains (.ofText "./a/b") = false := by
    decide +kernel
  have hadd := add_of_not_contains (d := [3]) hnew
  exact ⟨hfinish, hsize.trans (by decide +kernel), _, hadd, hlast _ _ _ hadd⟩

end UnorderedDigest

end FileDigest
