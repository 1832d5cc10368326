import FileDigest.Error
import FileDigest.Store

/-!
# A cache that can be configured anew

A cache is off, or has one store in use. Configuring it never changes a store:
it puts a fresh one into use, or none. An operation works on the store that was
in use when it began, so the stores that have gone out of use are kept here too;
they are numbered in the order of their configuration, and an operation holds a
number.
-/

namespace FileDigest

/-- All the stores that were ever in use, and the one that is. -/
structure Cache where
  stores : List Store
  current : Option Nat

namespace Cache

def disabled : Cache := ⟨[], none⟩

/-- Puts a fresh store into use, or none when there is no room for an entry.
Entries and counters start anew even when the capacity stays the same. -/
def configure (c : Cache) (capacity : UInt64) : Cache :=
  if capacity = 0 then { c with current := none }
  else ⟨c.stores ++ [Store.empty capacity.toNat], some c.stores.length⟩

def ofCapacity (capacity : UInt64) : Cache :=
  disabled.configure capacity

def inUse (c : Cache) : Option Store :=
  c.current.bind (c.stores[·]?)

/-- Asks the store with a number. A number that was never given out has no
answer. -/
def getAt (c : Cache) (number : Nat) (k : CacheKey) : Option Digest × Cache :=
  match c.stores[number]? with
  | some s =>
      ((s.get k).1, { c with stores := c.stores.set number (s.get k).2 })
  | none => (none, c)

def insertAt (c : Cache) (number : Nat) (k : CacheKey) (d : Digest) : Cache :=
  match c.stores[number]? with
  | some s => { c with stores := c.stores.set number (s.insert k d) }
  | none => c

/-- Asks the store in use; a cache that is off answers nothing and counts
nothing. -/
def get (c : Cache) (k : CacheKey) : Option Digest × Cache :=
  match c.current with
  | some number => c.getAt number k
  | none => (none, c)

def insert (c : Cache) (k : CacheKey) (d : Digest) : Cache :=
  match c.current with
  | some number => c.insertAt number k d
  | none => c

def isEnabled (c : Cache) : Bool :=
  c.inUse.isSome

def maxEntries (c : Cache) : Option Nat :=
  c.inUse.map (·.capacity)

def entryCount (c : Cache) : Nat :=
  (c.inUse.map (·.entries.length)).getD 0

def stats (c : Cache) : Except DigestError CacheStats :=
  match c.inUse with
  | some s => .ok s.stats
  | none => .error .cacheDisabled

@[simp] theorem inUse_disabled : disabled.inUse = none := rfl

theorem inUse_configure (c : Cache) (capacity : UInt64) :
    (c.configure capacity).inUse =
      if capacity = 0 then none else some (Store.empty capacity.toNat) := by
  by_cases h : capacity = 0 <;> simp [configure, inUse, h]

@[simp] theorem get_disabled (k : CacheKey) :
    disabled.get k = (none, disabled) := rfl

@[simp] theorem insert_disabled (k : CacheKey) (d : Digest) :
    disabled.insert k d = disabled := rfl

end Cache

end FileDigest
