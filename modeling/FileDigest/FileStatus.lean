/-!
# The status of a file

What a file system tells about a file without reading it: the number of its
node, the time of its last change and its size. A time is whole seconds since
the epoch, rounded down, and the nanoseconds after them, so that equal times are
equal values.
-/

namespace FileDigest

/-- A point in time, before or after the epoch. -/
structure Timestamp where
  /-- Whole seconds since the epoch, rounded down. -/
  seconds : Int
  nanos : Nat
  /-- A full second is counted with the seconds. -/
  nanos_lt : nanos < 1000000000
deriving DecidableEq, Repr

namespace Timestamp

def ofParts (seconds : Int) (nanos : Nat) : Timestamp :=
  ⟨seconds + (nanos / 1000000000 : Nat), nanos % 1000000000,
    Nat.mod_lt _ (by decide)⟩

def epoch : Timestamp := ofParts 0 0

instance : Inhabited Timestamp := ⟨epoch⟩

instance : Hashable Timestamp :=
  ⟨fun t => mixHash (hash t.seconds) (hash t.nanos)⟩

end Timestamp

/-- What is known about a file without reading it. -/
structure FileStatus where
  /-- The number of the node, which a renamed file keeps and a replaced one does
  not. -/
  node : UInt64
  modified : Timestamp
  size : UInt64
deriving DecidableEq, Repr, Hashable, Inhabited

end FileDigest
