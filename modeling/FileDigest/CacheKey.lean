import FileDigest.FileStatus
import FileDigest.Path

/-!
# Cache keys

A computed digest is remembered under the path and the status that the file had.
A key stands for the content only as long as a change of the content changes the
node, the time or the size. Paths count by their components here, so two
spellings of one path share their entry.
-/

namespace FileDigest

/-- What a remembered digest is found by. -/
structure CacheKey where
  /-- The path as it was written. -/
  path : Path
  status : FileStatus

namespace CacheKey

/-- What counts of a key: the components of its path, and its status. -/
def identity (k : CacheKey) : List Component × FileStatus :=
  (k.path.components, k.status)

/-- Keys are equal when their identities are; the status is compared first,
since it differs more often. -/
instance : BEq CacheKey :=
  ⟨fun j k => j.status == k.status && j.path.same k.path⟩

instance : Hashable CacheKey := ⟨fun k => hash k.identity⟩

theorem beq_iff {j k : CacheKey} : (j == k) = true ↔
    j.identity = k.identity := by
  change (j.status == k.status && j.path.same k.path) = true ↔ _
  simp [identity, Path.same_iff, and_comm]

instance : EquivBEq CacheKey where
  rfl := beq_iff.2 rfl
  symm h := beq_iff.2 (beq_iff.1 h).symm
  trans h₁ h₂ := beq_iff.2 ((beq_iff.1 h₁).trans (beq_iff.1 h₂))

instance : LawfulHashable CacheKey where
  hash_eq j k h := by
    change hash j.identity = hash k.identity
    rw [beq_iff.1 h]

def firstEqual (k : CacheKey) (keys : List CacheKey) : Nat :=
  keys.findIdx (· == k)

end CacheKey

end FileDigest
