import FileDigest.Proofs.Aggregate.Differences
import Mathlib.Data.List.Pairwise

/-!
# Spellings of a path in an aggregate

Whether a path has contributed is decided by its components, but what it
contributes is hashed from its bytes. So collections of the same paths with the
same digests need not have the same digest: they have it exactly when what the
respelled pairs contribute cancels (`finish_eq_iff_of_samePairs`). The order
never counts, and collections whose paths are spelled alike agree.
-/

namespace FileDigest

/-- Two lists hold the same pairs, paths being compared by their components. -/
def SamePairs (S T : List (Path × Digest)) : Prop :=
  (∀ c ∈ S, ∃ e ∈ T, c.1.same e.1 = true ∧ c.2 = e.2) ∧
    ∀ e ∈ T, ∃ c ∈ S, e.1.same c.1 = true ∧ e.2 = c.2

instance (S T : List (Path × Digest)) : Decidable (SamePairs S T) :=
  inferInstanceAs (Decidable (_ ∧ _))

theorem SamePairs.symm {S T : List (Path × Digest)} (h : SamePairs S T) :
    SamePairs T S :=
  ⟨h.2, h.1⟩

namespace UnorderedDigest

variable {S T : List (Path × Digest)}

theorem AcceptsAll.eq_of_same (h : empty.AcceptsAll S)
    {c e : Path × Digest} (hc : c ∈ S) (he : e ∈ S)
    (hsame : c.1.same e.1 = true) : c = e := by
  have : Std.Symm fun c e : Path × Digest => c.1.same e.1 = false :=
    ⟨fun c e hce => by rw [Path.same_comm, hce]⟩
  by_contra hne
  have hdiffer := h.pairwise.forall hc he hne
  rw [hsame] at hdiffer
  cases hdiffer

/-- A pair that only one of the lists holds stands in the other under another
spelling. -/
theorem AcceptsAll.exists_respelled (hS : empty.AcceptsAll S)
    (hsame : SamePairs S T) {c : Path × Digest} (hc : c ∈ S) (hcT : c ∉ T) :
    ∃ e ∈ T, e ∉ S ∧ c.1.same e.1 = true ∧ c.1.bytes ≠ e.1.bytes ∧
    c.2 = e.2 := by
  obtain ⟨e, he, hpath, hdigest⟩ := hsame.1 c hc
  have hne : c ≠ e := by
    rintro rfl
    exact hcT he
  refine ⟨e, he, fun heS => hne (hS.eq_of_same hc heS hpath), hpath,
    fun hbytes => ?_, hdigest⟩
  exact hne (Prod.ext (congrArg Path.mk hbytes) hdigest)

theorem AcceptsAll.perm_of_spelled_alike (hS : empty.AcceptsAll S)
    (hT : empty.AcceptsAll T) (hsame : SamePairs S T)
    (halike : ∀ c ∈ S, ∀ e ∈ T, c.1.same e.1 = true → c.1.bytes = e.1.bytes) :
    S.Perm T := by
  rw [List.perm_ext_iff_of_nodup hS.nodup hT.nodup]
  intro c
  constructor
  · intro hc
    by_contra hcT
    obtain ⟨e, he, -, hpath, hbytes, -⟩ := hS.exists_respelled hsame hc hcT
    exact hbytes (halike c hc e he hpath)
  · intro hc
    by_contra hcS
    obtain ⟨e, he, -, hpath, hbytes, -⟩ := hT.exists_respelled hsame.symm hc hcS
    rw [Path.same_comm] at hpath
    exact hbytes (halike e he c hc hpath).symm

/-- Collections of the same pairs have the same digest exactly when what the
respelled pairs contribute cancels; with every path spelled alike they have, and
with one path respelled only if the hash takes two different strings to one
value. -/
theorem finish_eq_iff_of_samePairs (hS : empty.AcceptsAll S)
    (hT : empty.AcceptsAll T) (hshortS : ShortPaths S) (hshortT : ShortPaths T)
    (hsame : SamePairs S T) :
    ((empty.addAll S).finish = (empty.addAll T).finish ↔
      xorOf (difference S T) = List.replicate 32 0) ∧
    (∀ c ∈ S, c ∉ T →
      ∃ e ∈ T, e ∉ S ∧ c.1.same e.1 = true ∧
      c.1.bytes ≠ e.1.bytes ∧ c.2 = e.2) ∧
    (∀ e ∈ T, e ∉ S →
      ∃ c ∈ S, c ∉ T ∧ e.1.same c.1 = true ∧
      e.1.bytes ≠ c.1.bytes ∧ e.2 = c.2) ∧
    ((∀ c ∈ S, ∀ e ∈ T, c.1.same e.1 = true → c.1.bytes = e.1.bytes) →
      (empty.addAll S).finish = (empty.addAll T).finish) ∧
    ∀ p q d rest, S.Perm ((p, d) :: rest) → T.Perm ((q, d) :: rest) → p ≠ q →
      contributionInput p d ≠ contributionInput q d ∧
      ((empty.addAll S).finish = (empty.addAll T).finish ↔
        Blake3.hash (contributionInput p d) =
          Blake3.hash (contributionInput q d)) := by
  refine ⟨?_, fun c => hS.exists_respelled hsame, fun e =>
    hT.exists_respelled hsame.symm, ?_, ?_⟩
  · rw [hS.finish_eq, hT.finish_eq]
    exact xorOf_eq_iff_difference hS.nodup hT.nodup
  · intro halike
    rw [hS.finish_eq, hT.finish_eq]
    exact xorOf_perm (hS.perm_of_spelled_alike hT hsame halike)
  · intro p q d rest hSp hTq hne
    refine (hS.discerned hT hshortS hshortT).replaced (p, d) (q, d) rest hSp
      hTq fun heq => ?_
    exact hne (Prod.mk.inj heq).1

/-- The digest of two files, one of which is named with a slash too many,
compared with the digest under plain names. -/
theorem finish_eq_iff_of_samePairs_doubledSlash :
    let S : List (Path × Digest) := [(.ofText "a/b", [1]), (.ofText "c", [2])]
    let T : List (Path × Digest) := [(.ofText "c", [2]), (.ofText "a//b", [1])]
    (empty.addAll S).finish = (empty.addAll T).finish ↔
      contribution (.ofText "a/b") [1] = contribution (.ofText "a//b") [1] := by
  intro S T
  have hS : empty.AcceptsAll S := acceptsAll_of_pairwise (by decide +kernel)
  have hT : empty.AcceptsAll T := acceptsAll_of_pairwise (by decide +kernel)
  have h := finish_eq_iff_of_samePairs hS hT (by decide +kernel)
    (by decide +kernel)
    (by decide +kernel)
  obtain ⟨-, -, -, -, hrespelled⟩ := h
  exact (hrespelled _ _ _ _ (.refl S) (.swap _ _ []) (by decide +kernel)).2

/-- Collections of the same pairs may have different digests. -/
theorem finish_ne_of_respelled :
    ¬ ∀ S T : List (Path × Digest), empty.AcceptsAll S → empty.AcceptsAll T →
    SamePairs S T →
      (empty.addAll S).finish = (empty.addAll T).finish := by
  intro hequal
  have hS : empty.AcceptsAll [(.ofText "a/b", List.replicate 32 1)] :=
    acceptsAll_of_pairwise (List.pairwise_singleton _ _)
  have hT : empty.AcceptsAll [(.ofText "a//b", List.replicate 32 1)] :=
    acceptsAll_of_pairwise (List.pairwise_singleton _ _)
  have h := hequal _ _ hS hT (by decide +kernel)
  have hdiffer : (empty.addAll [(.ofText "a/b", List.replicate 32 1)]).finish ≠
      (empty.addAll [(.ofText "a//b", List.replicate 32 1)]).finish := by
        decide +kernel
  exact hdiffer h

end UnorderedDigest

end FileDigest
