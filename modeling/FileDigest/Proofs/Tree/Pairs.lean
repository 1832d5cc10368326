import FileDigest.Proofs.Aggregate.Accepted
import FileDigest.Proofs.Tree.Visits

/-!
# The pairs of a tree

A tree digest is the aggregate of pairs: each visited file under its path
relative to the root, with the digest that was found for it. `treePairs`
collects them without an aggregate, and a tree digest that comes out is the
aggregate of all of them.
-/

namespace FileDigest.Host

variable {σ : Type} (host : Host σ)

/-- The files of a walk under their paths relative to the root, with the digests
found for them, up to the first place where there is none. -/
def treePairs (r : Resolver) (root : Path) : List Visit → σ →
    List (Path × Digest)
  | [], _ => []
  | .failed _ _ :: _, _ => []
  | .file path size :: rest, s =>
      match host.digestWithFallback r path size s with
      | (some (.digest d), s) => (path.below root, d) :: treePairs r root rest s
      | _ => []

@[simp] theorem treePairs_nil (r : Resolver) (root : Path) (s : σ) :
    host.treePairs r root [] s = [] := rfl

theorem treePairs_file {r : Resolver} {root path : Path} {size : SizeHint}
    {rest : List Visit} {s : σ} {d : Digest}
    (h : (host.digestWithFallback r path size s).1 = some (.digest d)) :
    host.treePairs r root (.file path size :: rest) s =
      (path.below root, d) ::
        host.treePairs r root rest
          (host.digestWithFallback r path size s).2 := by
  rw [treePairs]
  generalize host.digestWithFallback r path size s = x at h ⊢
  obtain ⟨o, s'⟩ := x
  cases h
  rfl

/-- A walk that ends in a digest has added the pair of every file, and none was
refused. -/
theorem digestVisits_eq_digest {r : Resolver} {root : Path}
    {visits : List Visit} {a : UnorderedDigest} {s : σ} {x : Digest}
    (h : (host.digestVisits r root visits a s).1 = some (.digest x)) :
    a.AcceptsAll (host.treePairs r root visits s) ∧
      x = (a.addAll (host.treePairs r root visits s)).finish := by
  induction visits generalizing a s with
  | nil =>
      rw [digestVisits_nil] at h
      exact ⟨UnorderedDigest.acceptsAll_nil,
        (Outcome.digest.inj (Option.some.inj h)).symm⟩
  | cons v rest ih =>
      cases v with
      | failed path cause =>
          rw [digestVisits_failed] at h
          cases h
      | file path size =>
          rw [digestVisits_file] at h
          split at h
          · rename_i d hd
            split at h
            · rename_i b hb
              rw [treePairs_file host hd, UnorderedDigest.addAll_cons_ok hb,
                UnorderedDigest.acceptsAll_cons]
              exact ⟨⟨b, hb, (ih h).1⟩, (ih h).2⟩
            · cases h
          · rename_i hnone
            exact absurd h (hnone x)

theorem digestTree_eq_digest {r : Resolver} {root : Path}
    {visits : List Visit} {s : σ} {x : Digest}
    (h : (host.digestTree r root visits s).1 = some (.digest x)) :
    UnorderedDigest.empty.AcceptsAll (host.treePairs r root visits s) ∧
      x = (UnorderedDigest.empty.addAll
        (host.treePairs r root visits s)).finish :=
  host.digestVisits_eq_digest h

end FileDigest.Host
