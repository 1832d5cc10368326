import FileDigest.Proofs.Aggregate.Accepted
import FileDigest.Proofs.Tree.Pairs
import Mathlib.Data.List.Nodup

/-!
# What two aggregates differ in

Two aggregates combine to the exclusive or of what is contributed to one of them
and not to the other: all the rest cancels, whatever the order. So a change of
one pair stays hidden only when the hash takes two different strings to one
value, and an exchange of two digests only when the hashes of four different
strings cancel. Nothing is used of the hash but the length of its values.

The strings that are hashed differ when their pairs do, since the length in
front of a path shows where its digest begins.
-/

namespace FileDigest

def ShortPaths (pairs : List (Path × Digest)) : Prop :=
  ∀ c ∈ pairs, c.1.bytes.length < wordLimit

instance (pairs : List (Path × Digest)) : Decidable (ShortPaths pairs) :=
  inferInstanceAs (Decidable (∀ c ∈ pairs, c.1.bytes.length < wordLimit))

theorem contributionInput_inj {p q : Path} {d e : Digest}
    (hp : p.bytes.length < wordLimit) (hq : q.bytes.length < wordLimit)
    (h : contributionInput p d = contributionInput q e) : p = q ∧ d = e := by
  rw [wordLimit_eq] at hp hq
  simp only [contributionInput, List.append_assoc] at h
  have hwidth : (Bytes.littleEndian 8 p.bytes.length).length =
      (Bytes.littleEndian 8 q.bytes.length).length := by
    rw [Bytes.length_littleEndian, Bytes.length_littleEndian]
  obtain ⟨hlengths, hrest⟩ := List.append_inj h hwidth
  have hlength := Bytes.littleEndian_inj hp hq hlengths
  obtain ⟨hbytes, hdigests⟩ := List.append_inj hrest hlength
  cases p
  cases q
  cases hbytes
  exact ⟨rfl, hdigests⟩

theorem ShortPaths.nodup_inputs {pairs : List (Path × Digest)}
    (h : ShortPaths pairs) (hnodup : pairs.Nodup) :
    (pairs.map fun c => contributionInput c.1 c.2).Nodup := by
  refine List.Nodup.map_on (fun c hc e he heq => ?_) hnodup
  obtain ⟨hpath, hdigest⟩ := contributionInput_inj (h c hc) (h e he) heq
  exact Prod.ext hpath hdigest

/-- The pairs that are in one of two lists and not in the other. -/
def difference (S T : List (Path × Digest)) : List (Path × Digest) :=
  S.filter (· ∉ T) ++ T.filter (· ∉ S)

namespace UnorderedDigest

variable {S T left right common : List (Path × Digest)}

theorem xorOf_cons (c : Path × Digest) (pairs : List (Path × Digest)) :
    xorOf (c :: pairs) = Bytes.combine (contribution c.1 c.2) (xorOf pairs) :=
  Bytes.xorAll_cons (length_contribution c.1 c.2) length_of_mem_contributions

theorem combine_xorOf (hS : S.Perm (left ++ common))
    (hT : T.Perm (right ++ common)) :
    Bytes.combine (xorOf S) (xorOf T) = xorOf (left ++ right) := by
  rw [xorOf_perm hS, xorOf_perm hT, xorOf_eq, xorOf_eq, xorOf_eq,
    List.map_append, List.map_append, List.map_append]
  exact Bytes.combine_xorAll_append length_of_mem_contributions
    length_of_mem_contributions
    length_of_mem_contributions

theorem xorOf_eq_iff_combine (S T : List (Path × Digest)) :
    xorOf S = xorOf T ↔ Bytes.combine (xorOf S) (xorOf T) =
      List.replicate 32 0 := by
  have hlength : (xorOf S).length = (xorOf T).length := by
    rw [length_xorOf, length_xorOf]
  rw [← Bytes.combine_eq_zeros_iff hlength, length_xorOf]

theorem xorOf_eq_iff (hS : S.Perm (left ++ common))
    (hT : T.Perm (right ++ common)) :
    xorOf S = xorOf T ↔ xorOf (left ++ right) = List.replicate 32 0 := by
  rw [xorOf_eq_iff_combine, combine_xorOf hS hT]

theorem combine_xorOf_difference (hS : S.Nodup) (hT : T.Nodup) :
    Bytes.combine (xorOf S) (xorOf T) = xorOf (difference S T) := by
  have hsplit : ∀ L M : List (Path × Digest),
      L.Perm (L.filter (· ∉ M) ++ L.filter (· ∈ M)) := by
    intro L M
    refine (List.filter_append_perm (· ∉ M) L).symm.trans (List.Perm.of_eq ?_)
    simp
  have hcommon : (T.filter (· ∈ S)).Perm (S.filter (· ∈ T)) := by
    rw [List.perm_ext_iff_of_nodup (hT.filter _) (hS.filter _)]
    simp [and_comm]
  exact combine_xorOf (hsplit S T) ((hsplit T S).trans (hcommon.append_left _))

theorem xorOf_eq_iff_difference (hS : S.Nodup) (hT : T.Nodup) :
    xorOf S = xorOf T ↔ xorOf (difference S T) = List.replicate 32 0 := by
  rw [xorOf_eq_iff_combine, combine_xorOf_difference hS hT]

theorem xorOf_pair_eq_zeros_iff (e f : Path × Digest) :
    xorOf [e, f] = List.replicate 32 0 ↔ contribution e.1 e.2 =
      contribution f.1 f.2 := by
  have hlength : (contribution e.1 e.2).length =
      (contribution f.1 f.2).length := by
    rw [length_contribution, length_contribution]
  have hpair : xorOf [e, f] = Bytes.combine (contribution e.1 e.2)
      (contribution f.1 f.2) := by
    rw [xorOf_cons, xorOf_cons, Bytes.combine_comm (contribution f.1 f.2)]
    exact congrArg _ (Bytes.replicate_zero_combine
      (Nat.le_of_eq (length_contribution ..).symm))
  rw [hpair, ← Bytes.combine_eq_zeros_iff hlength, length_contribution]

/-- What two digests show of the pairs that they are made of: they combine to
what the pairs in one list and not in the other contribute, so a replaced pair
and two exchanged digests show unless the hash takes particular different
strings to values that cancel. -/
structure Discerned (S T : List (Path × Digest)) (x y : Digest) : Prop where
  combined : Bytes.combine x y = xorOf (difference S T)
  replaced : ∀ e f rest, S.Perm (e :: rest) → T.Perm (f :: rest) → e ≠ f →
    contributionInput e.1 e.2 ≠ contributionInput f.1 f.2 ∧
    (x = y ↔
      Blake3.hash (contributionInput e.1 e.2) =
        Blake3.hash (contributionInput f.1 f.2))
  exchanged : ∀ p q d e rest, S.Perm ((p, d) :: (q, e) :: rest) →
    T.Perm ((p, e) :: (q, d) :: rest) → d ≠ e →
    ([(p, d), (q, e), (p, e), (q, d)].map fun c =>
      contributionInput c.1 c.2).Nodup ∧
    (x = y ↔ xorOf [(p, d), (q, e), (p, e), (q, d)] = List.replicate 32 0)

theorem AcceptsAll.discerned (hS : empty.AcceptsAll S) (hT : empty.AcceptsAll T)
    (hshortS : ShortPaths S) (hshortT : ShortPaths T) :
    Discerned S T (empty.addAll S).finish (empty.addAll T).finish := by
  rw [hS.finish_eq, hT.finish_eq]
  refine ⟨combine_xorOf_difference hS.nodup hT.nodup, ?_, ?_⟩
  · intro e f rest hSe hTf hne
    have he := hshortS e (hSe.mem_iff.2 List.mem_cons_self)
    have hf := hshortT f (hTf.mem_iff.2 List.mem_cons_self)
    have hshort : ShortPaths [e, f] := by
      simp [ShortPaths, he, hf]
    have hinputs := hshort.nodup_inputs (by simpa using hne)
    refine ⟨by simpa using hinputs, ?_⟩
    rw [← contribution, ← contribution, ← xorOf_pair_eq_zeros_iff]
    exact @xorOf_eq_iff S T [e] [f] rest hSe hTf
  · intro p q d e rest hSpq hTpq hne
    have hpq : p ≠ q := by
      rintro rfl
      have hsame :=
        (List.pairwise_cons.1 (hS.perm hSpq).pairwise).1 _ List.mem_cons_self
      rw [Path.same_refl] at hsame
      cases hsame
    have hp := hshortS (p, d) (hSpq.mem_iff.2 List.mem_cons_self)
    have hq :=
      hshortT (q, d)
        (hTpq.mem_iff.2 (List.mem_cons_of_mem _ List.mem_cons_self))
    have hshort : ShortPaths [(p, d), (q, e), (p, e), (q, d)] := by
      simp [ShortPaths, hp, hq]
    refine ⟨hshort.nodup_inputs (by simp [hpq, hpq.symm, hne, hne.symm]), ?_⟩
    exact @xorOf_eq_iff S T [(p, d), (q, e)] [(p, e), (q, d)] rest hSpq hTpq

/-- Different pairs are hashed as different strings, and the digests of two
collections, or of two trees through the pairs that they are made of, show what
the collections differ in. -/
theorem aggregate_discerns :
    (∀ p q d e, p.bytes.length < wordLimit → q.bytes.length < wordLimit →
      (p, d) ≠ (q, e) → contributionInput p d ≠ contributionInput q e) ∧
    (∀ S T, empty.AcceptsAll S → empty.AcceptsAll T → ShortPaths S →
      ShortPaths T →
      Discerned S T (empty.addAll S).finish (empty.addAll T).finish) ∧
    ∀ {σ τ : Type} (host : Host σ) (host' : Host τ) (r r' : Resolver)
      (root root' : Path)
      (visits visits' : List Visit) (s : σ) (s' : τ) (x y : Digest),
      (host.digestTree r root visits s).1 = some (.digest x) →
      (host'.digestTree r' root' visits' s').1 = some (.digest y) →
      ShortPaths (host.treePairs r root visits s) →
      ShortPaths (host'.treePairs r' root' visits' s') →
      Discerned (host.treePairs r root visits s)
        (host'.treePairs r' root' visits' s') x y := by
  refine ⟨?_, fun S T hS hT => hS.discerned hT, ?_⟩
  · intro p q d e hp hq hne heq
    obtain ⟨rfl, rfl⟩ := contributionInput_inj hp hq heq
    exact hne rfl
  · intro σ τ host host' r r' root root' visits visits' s s' x y hx hy
      hshort hshort'
    obtain ⟨haccepts, rfl⟩ := host.digestTree_eq_digest hx
    obtain ⟨haccepts', rfl⟩ := host'.digestTree_eq_digest hy
    exact haccepts.discerned haccepts' hshort hshort'

/-- A disk with two trees, in one of which a file has another name. -/
def renamedOnDisk : Disk :=
  let tree (name : String) : Node := .directory 0 true
    [(Bytes.ofText "a", .file 4 .epoch [1]),
      (Bytes.ofText name, .file 6 .epoch [2])]
  ⟨.directory 1 true [(Bytes.ofText "t", tree "b"),
    (Bytes.ofText "u", tree "c")], []⟩

/-- Two exchanged digests, a byte moved from a path to its digest, and a renamed
file of a tree. -/
theorem aggregate_discerns_renamed :
    (let S : List (Path × Digest) := [(.ofText "a", [1]), (.ofText "b", [2]),
      (.ofText "c", [3])]
      let T : List (Path × Digest) :=
        [(.ofText "a", [2]), (.ofText "b", [1]), (.ofText "c", [3])]
      (empty.addAll S).finish = (empty.addAll T).finish ↔
        xorOf [(.ofText "a", [1]), (.ofText "b", [2]), (.ofText "a", [2]),
          (.ofText "b", [1])] =
          List.replicate 32 0) ∧
    (let S : List (Path × Digest) := [(.ofText "ab", [1]), (.ofText "c", [3])]
      let T : List (Path × Digest) :=
        [(.ofText "a", [98, 1]), (.ofText "c", [3])]
      (empty.addAll S).finish = (empty.addAll T).finish ↔
        contribution (.ofText "ab") [1] = contribution (.ofText "a") [98, 1]) ∧
    ∃ x y,
      let host := renamedOnDisk.view.host fun _ => .ok none
      let digest (root : Path) :=
        (host.digestTree ⟨0, 0⟩ root (renamedOnDisk.walk root)
          (Site.initial.addCache none)).1
      digest (.ofText "t") = some (.digest x) ∧ digest (.ofText "u") =
        some (.digest y) ∧
        (x = y ↔ contribution (.ofText "b") (Blake3.hash [2]) =
          contribution (.ofText "c") (Blake3.hash [2])) := by
  obtain ⟨-, hpairs, htrees⟩ := aggregate_discerns
  refine ⟨?_, ?_, ?_⟩
  · intro S T
    have hS : empty.AcceptsAll S := acceptsAll_of_pairwise (by decide +kernel)
    have hT : empty.AcceptsAll T := acceptsAll_of_pairwise (by decide +kernel)
    have h := hpairs S T hS hT (by decide +kernel) (by decide +kernel)
    exact (h.exchanged _ _ _ _ _ (.refl S) (.refl T) (by decide)).2
  · intro S T
    have hS : empty.AcceptsAll S := acceptsAll_of_pairwise (by decide +kernel)
    have hT : empty.AcceptsAll T := acceptsAll_of_pairwise (by decide +kernel)
    have h := hpairs S T hS hT (by decide +kernel) (by decide +kernel)
    exact (h.replaced _ _ _ (.refl S) (.refl T) (by decide +kernel)).2
  · let pairs (name : String) : List (Path × Digest) :=
      [(.ofText name, Blake3.hash [2]), (.ofText "a", Blake3.hash [1])]
    refine ⟨(empty.addAll (pairs "b").reverse).finish,
      (empty.addAll (pairs "c").reverse).finish, rfl, rfl, ?_⟩
    have h := htrees (renamedOnDisk.view.host fun _ => .ok none)
      (renamedOnDisk.view.host fun _ => .ok none) ⟨0, 0⟩ ⟨0, 0⟩
        (.ofText "t") (.ofText "u")
      (renamedOnDisk.walk (.ofText "t")) (renamedOnDisk.walk (.ofText "u"))
      (Site.initial.addCache none) (Site.initial.addCache none) _ _ rfl rfl
      (by decide +kernel) (by decide +kernel)
    refine (h.replaced _ _ _ (List.reverse_perm (pairs "b"))
      (List.reverse_perm (pairs "c")) ?_).2
    decide +kernel

end UnorderedDigest

end FileDigest
