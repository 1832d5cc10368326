import FileDigest.TreeDigest

/-!
# One visit of a tree digest

How a tree digest goes on after one more file of the walk, with the outcome for
the file apart from the state that the file leaves behind.
-/

namespace FileDigest.Host

variable {σ : Type} (host : Host σ)

theorem digestVisits_nil (r : Resolver) (root : Path)
    (a : UnorderedDigest) (s : σ) :
    host.digestVisits r root [] a s =
      (some (.digest a.finish),
        host.setSite s ((host.site s).report (.treeDigested root a.size))) :=
  rfl

theorem digestVisits_failed (r : Resolver) (root path : Path) (cause : IoError)
    (rest : List Visit) (a : UnorderedDigest) (s : σ) :
    host.digestVisits r root (.failed path cause :: rest) a s =
      (some (.failed (.io path cause)), s) := rfl

theorem digestVisits_file (r : Resolver) (root path : Path) (size : SizeHint)
    (rest : List Visit) (a : UnorderedDigest) (s : σ) :
    host.digestVisits r root (.file path size :: rest) a s =
      match (host.digestWithFallback r path size s).1 with
      | some (.digest d) =>
          match a.add (path.below root) d with
          | .ok a =>
              host.digestVisits r root rest a
                (host.digestWithFallback r path size s).2
          | .error e =>
              (some (.failed e), (host.digestWithFallback r path size s).2)
      | other => (other, (host.digestWithFallback r path size s).2) := by
  rw [digestVisits]
  generalize host.digestWithFallback r path size s = x
  obtain ⟨o, s'⟩ := x
  cases o with
  | none => rfl
  | some o => cases o <;> rfl

end FileDigest.Host
