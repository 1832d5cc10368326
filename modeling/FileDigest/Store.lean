import FileDigest.CacheKey
import FileDigest.WordLimit
import FileDigest.Recency

/-!
# Bounded stores of digests

A store holds at most `capacity` digests. Asking for a digest that is there, and
putting one in, both make its key the most recently used; a new key beyond the
capacity pushes out the one that was used least recently. The store counts the
questions that it could and could not answer and the entries that it pushed out.
A digest that takes the place of another under the same key is none of these.

The bookkeeping is up to date after every operation. A concurrent map puts it
off: evictions are due until its maintenance is flushed, and its number of
entries is an estimate until then. What is said here of evictions and of the
number of entries is said of such a map with its maintenance flushed after every
operation.
-/

namespace FileDigest

/-- The digest of a file or of an aggregate; one computed from content has 32
bytes, one that a file system supplies has any length. -/
abbrev Digest := Bytes

structure Store where
  capacity : Nat
  /-- The digests, most recently used first. -/
  entries : List (CacheKey × Digest)
  hits : Nat
  misses : Nat
  evictions : Nat

structure CacheStats where
  hits : UInt64
  misses : UInt64
  evictions : UInt64
deriving DecidableEq, Repr, Inhabited

namespace CacheStats

/-- All questions, as many as 64 bits can count. -/
def requests (s : CacheStats) : UInt64 :=
  if s.hits.toNat + s.misses.toNat < wordLimit then s.hits + s.misses
  else 0xffffffffffffffff

/-- The part of the questions that were answered; all of them where there were
none. -/
def hitRate (s : CacheStats) : Float :=
  if s.requests = 0 then 1.0 else s.hits.toFloat / s.requests.toFloat

def missRate (s : CacheStats) : Float :=
  if s.requests = 0 then 0.0 else s.misses.toFloat / s.requests.toFloat

end CacheStats

namespace Store

def empty (capacity : Nat) : Store :=
  ⟨capacity, [], 0, 0, 0⟩

def get (s : Store) (k : CacheKey) : Option Digest × Store :=
  match Recency.find? k s.entries with
  | some d =>
      (some d,
        { s with entries := Recency.put k d s.entries, hits := s.hits + 1 })
  | none => (none, { s with misses := s.misses + 1 })

def insert (s : Store) (k : CacheKey) (d : Digest) : Store :=
  let entries := Recency.put k d s.entries
  { s with
    entries := entries.take s.capacity
    evictions := s.evictions + (entries.length - s.capacity) }

def stats (s : Store) : CacheStats :=
  ⟨UInt64.ofNat s.hits, UInt64.ofNat s.misses, UInt64.ofNat s.evictions⟩

@[simp] theorem capacity_get (s : Store) (k : CacheKey) :
    (s.get k).2.capacity = s.capacity := by
  unfold get
  split <;> rfl

@[simp] theorem capacity_insert (s : Store) (k : CacheKey) (d : Digest) :
    (s.insert k d).capacity = s.capacity := rfl

theorem length_entries_insert_le (s : Store) (k : CacheKey) (d : Digest) :
    (s.insert k d).entries.length ≤ s.capacity :=
  List.length_take_le _ _

end Store

end FileDigest
