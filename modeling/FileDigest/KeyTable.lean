import FileDigest.CacheKey
import Std.Data.HashMap

/-!
# A table of keys by hash

Keys are numbered in the order in which they are first met, through a hash
table, so that equal keys get one number whichever of their spellings comes
first.
-/

namespace FileDigest

/-- For every key met so far, the position at which an equal key was met
first. -/
abbrev KeyTable := Std.HashMap CacheKey Nat

namespace KeyTable

def meet (table : KeyTable) (position : Nat) (k : CacheKey) : Nat × KeyTable :=
  match table[k]? with
  | some first => (first, table)
  | none => (position, table.insert k position)

def meetAll (table : KeyTable) (position : Nat) : List CacheKey →
    List Nat × KeyTable
  | [] => ([], table)
  | k :: rest =>
      let (first, table) := meet table position k
      let (firsts, table) := meetAll table (position + 1) rest
      (first :: firsts, table)

/-- The first positions of the keys of a list, and how many different keys it
holds. -/
def classify (keys : List CacheKey) : List Nat × Nat :=
  let (firsts, table) := meetAll ∅ 0 keys
  (firsts, table.size)

end KeyTable

end FileDigest
