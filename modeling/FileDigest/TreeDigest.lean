import FileDigest.Aggregate
import FileDigest.Walk

/-!
# The digest of a tree

The digest of a tree is the aggregate of its regular files, each under its path
relative to the root, so it does not change when the whole tree is moved. The
first file or directory that cannot be digested ends the walk: there is no
digest of a part of a tree.
-/

namespace FileDigest

/-- A path relative to a root that it lies below; any other path stays as
it is. -/
def Path.below (p root : Path) : Path :=
  (p.relativeTo? root).getD p

namespace Host

variable {σ : Type} (host : Host σ)

def digestVisits (r : Resolver) (root : Path) :
    List Visit → UnorderedDigest → σ → Option Outcome × σ
  | [], a, s =>
      (some (.digest a.finish),
        host.setSite s ((host.site s).report (.treeDigested root a.size)))
  | .failed path cause :: _, _, s => (some (.failed (.io path cause)), s)
  | .file path size :: rest, a, s =>
      match host.digestWithFallback r path size s with
      | (some (.digest d), s) =>
          match a.add (path.below root) d with
          | .ok a => digestVisits r root rest a s
          | .error e => (some (.failed e), s)
      | (other, s) => (other, s)

def digestTree (r : Resolver) (root : Path) (visits : List Visit) (s : σ) :
    Option Outcome × σ :=
  host.digestVisits r root visits .empty s

end Host

end FileDigest
