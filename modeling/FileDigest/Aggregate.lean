import FileDigest.Blake3
import FileDigest.Bytes.Xor
import FileDigest.Error
import FileDigest.Store

/-!
# Aggregates that do not depend on order

An aggregate is a digest of a set of paths with their digests. Each path is
hashed together with its digest before it is folded in, so the result depends on
the pairs and not on the paths and the digests apart. The path is hashed as it
was written and preceded by its length, so no byte can move between the path and
the digest.

Contributing a path twice is refused, because under exclusive or the two
contributions would cancel. For this the paths are compared by their components.
-/

namespace FileDigest

def digestSize : Nat := 32

def contributionInput (path : Path) (d : Digest) : Bytes :=
  Bytes.littleEndian 8 path.bytes.length ++ path.bytes ++ d

def contribution (path : Path) (d : Digest) : Digest :=
  Blake3.hash (contributionInput path d)

/-- The aggregate of the contributions so far. -/
structure UnorderedDigest where
  total : Digest
  /-- The paths that have contributed, the latest first. -/
  seen : List Path

namespace UnorderedDigest

def empty : UnorderedDigest := ⟨[], []⟩

def contains (a : UnorderedDigest) (path : Path) : Bool :=
  a.seen.any (·.same path)

def add (a : UnorderedDigest) (path : Path) (d : Digest) :
    Except DigestError UnorderedDigest :=
  if a.contains path then .error (.duplicateContribution path)
  else .ok ⟨Bytes.combineInto a.total (contribution path d), path :: a.seen⟩

def size (a : UnorderedDigest) : Nat :=
  a.seen.length

def isEmpty (a : UnorderedDigest) : Bool :=
  a.seen.isEmpty

/-- The digest of the aggregate, all zeros when nothing has contributed. -/
def finish (a : UnorderedDigest) : Digest :=
  if a.total.isEmpty then List.replicate digestSize 0 else a.total

/-- Adds the pairs in order and passes over those that are refused, with the
answer and the aggregate after each. -/
def addEach (a : UnorderedDigest) :
    List (Path × Digest) → List (Except DigestError Unit × UnorderedDigest)
  | [] => []
  | (path, d) :: rest =>
      match a.add path d with
      | .ok b => (.ok (), b) :: b.addEach rest
      | .error e => (.error e, a) :: a.addEach rest

@[simp] theorem size_empty : empty.size = 0 := rfl

@[simp] theorem finish_empty : empty.finish = List.replicate digestSize 0 := rfl

theorem length_contribution (path : Path) (d : Digest) :
    (contribution path d).length = 32 := by
  simp [contribution]

theorem add_eq_error_iff {a : UnorderedDigest} {path : Path} {d : Digest}
    {e : DigestError} :
    a.add path d = .error e ↔ a.contains path = true ∧
    e = .duplicateContribution path := by
  cases h : a.contains path with
  | true => simp only [add, h, if_true, Except.error.injEq, true_and, eq_comm]
  | false => simp [add, h]

end UnorderedDigest

end FileDigest
