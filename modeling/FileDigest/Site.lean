import FileDigest.Cache
import FileDigest.Event
import FileDigest.Gate

/-!
# What resolvers share

Resolvers hold no state. They name a cache and a gate of a site, and any number
of them may name the same ones. The site also keeps the journal of what happened
there.
-/

namespace FileDigest

/-- The caches and gates of a process and the journal of its events. -/
structure Site where
  caches : List Cache
  gates : List Gate
  /-- What happened, the latest first. -/
  journal : List Event

namespace Site

/-- The number of the gate that is one for the whole process: whoever asks for
the shared gate is given this one. -/
def sharedGate : Nat := 0

def initial : Site :=
  ⟨[], [Gate.default], []⟩

/-- The cache with a number; one that was never made is off. -/
def cache (s : Site) (i : Nat) : Cache :=
  (s.caches[i]?).getD Cache.disabled

/-- The gate with a number; one that was never made is the default. -/
def gate (s : Site) (i : Nat) : Gate :=
  (s.gates[i]?).getD Gate.default

def setCache (s : Site) (i : Nat) (c : Cache) : Site :=
  { s with caches := s.caches.set i c }

def setGate (s : Site) (i : Nat) (g : Gate) : Site :=
  { s with gates := s.gates.set i g }

def report (s : Site) (e : Event) : Site :=
  { s with journal := e :: s.journal }

def addCache (s : Site) : Option UInt64 → Site
  | none => { s with caches := s.caches ++ [Cache.disabled] }
  | some capacity =>
      { s with caches := s.caches ++ [Cache.ofCapacity capacity] }.report
        (if capacity = 0 then .cacheDisabled else .cacheConfigured capacity)

def addGate (s : Site) (g : Gate) : Site :=
  { s with gates := s.gates ++ [g] }

def configure (s : Site) (i : Nat) (capacity : UInt64) : Site :=
  (s.setCache i ((s.cache i).configure capacity)).report
    (if capacity = 0 then .cacheDisabled else .cacheConfigured capacity)

def get (s : Site) (i : Nat) (k : CacheKey) : Option Digest × Site :=
  let (found, c) := (s.cache i).get k
  (found, s.setCache i c)

/-- Puts a digest into a cache, which is reported where the cache is not off. -/
def insert (s : Site) (i : Nat) (k : CacheKey) (d : Digest) : Site :=
  let c := s.cache i
  match c.current with
  | some _ => (s.setCache i (c.insert k d)).report (.digestCached k.path d)
  | none => s

end Site

end FileDigest
