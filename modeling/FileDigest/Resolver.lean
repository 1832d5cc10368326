import FileDigest.Site

/-!
# Resolvers

A resolver finds the digest of a file. It takes a digest that the file system
has at hand, or else reads the content, unless a cache still holds the digest of
a file with this path and status.

A manual computation goes through stages: it takes the store in use, asks for
the status of the file, looks into the store, enters the gate, reads, leaves the
gate and puts the digest into the store it took. Between two stages other
computations may run and the file system may change, so a computation is a value
that says where it stands, and `Call.step` is the only rule by which it goes on.
A run without interruption takes the steps one after another, and a concurrent
run takes those of several computations in any order.
-/

namespace FileDigest

/-- A cache and a gate of a site, by their numbers. -/
structure Resolver where
  cache : Nat
  gate : Nat
deriving DecidableEq, Repr

namespace Resolver

/-- A resolver with a gate that it may have in common with others. -/
def withGate (cache gate : Nat) : Resolver :=
  ⟨cache, gate⟩

/-- A resolver with the gate that is shared by the whole process. -/
def new (cache : Nat) : Resolver :=
  withGate cache Site.sharedGate

@[simp] theorem gate_new (cache : Nat) :
    (new cache).gate = Site.sharedGate := rfl

end Resolver

/-- A file system at one moment. A digest that was read may be absent, when the
file system reads a file but does not hash it. -/
structure FileView where
  stat : Path → Except IoError FileStatus
  read : Path → Except IoError (Option Digest)

inductive Outcome where
  | digest (d : Digest)
  | failed (e : DigestError)
  /-- The content was read and no digest came of it: a fault of the file system,
  which stops the program. -/
  | missing (path : Path) (size : SizeHint)
deriving DecidableEq, Repr

def Outcome.missingText (path : Path) (size : SizeHint) : String :=
  "Missing digest for " ++ path.text ++ " (" ++ size.text ++ ")"

/-- The place that a computed digest is put into. -/
structure Slot where
  /-- The number of the store that was in use when the computation began. -/
  store : Nat
  key : CacheKey

inductive Stage where
  | opening
  | identifying (store : Nat)
  | consulting (slot : Slot)
  | entering (slot : Option Slot)
  | reading (slot : Option Slot)
  | leaving (slot : Option Slot) (answer : Except IoError (Option Digest))
  | recording (slot : Slot) (d : Digest)
  | finished (outcome : Outcome)

def Stage.remaining : Stage → Nat
  | opening => 7
  | identifying _ => 6
  | consulting _ => 5
  | entering _ => 4
  | reading _ => 3
  | leaving _ _ => 2
  | recording _ _ => 1
  | finished _ => 0

structure Call where
  resolver : Resolver
  path : Path
  size : SizeHint
  stage : Stage

namespace Call

def start (r : Resolver) (path : Path) (size : SizeHint) : Call :=
  ⟨r, path, size, .opening⟩

def afterRead (c : Call) (slot : Option Slot) :
    Except IoError (Option Digest) → Stage
  | .error e => .finished (.failed (.io c.path e))
  | .ok none => .finished (.missing c.path c.size)
  | .ok (some d) =>
      match slot with
      | some slot => .recording slot d
      | none => .finished (.digest d)

/-- One step of a computation, or nothing while it waits for the gate. -/
def step (view : FileView) (site : Site) (c : Call) : Option (Call × Site) :=
  match c.stage with
  | .opening =>
      match (site.cache c.resolver.cache).current with
      | some store => some ({ c with stage := .identifying store }, site)
      | none => some ({ c with stage := .entering none }, site)
  | .identifying store =>
      match view.stat c.path with
      | .ok status =>
          some ({ c with stage := .consulting ⟨store, ⟨c.path, status⟩⟩ }, site)
      | .error e =>
          some ({ c with stage := .finished (.failed (.io c.path e)) }, site)
  | .consulting slot =>
      let (found, cache) :=
        (site.cache c.resolver.cache).getAt slot.store slot.key
      let site := site.setCache c.resolver.cache cache
      match found with
      | some d =>
          some ({ c with stage := .finished (.digest d) },
            site.report (.cacheHit c.path))
      | none => some ({ c with stage := .entering (some slot) }, site)
  | .entering slot =>
      match (site.gate c.resolver.gate).enter c.size with
      | some gate =>
          some ({ c with stage := .reading slot },
            site.setGate c.resolver.gate gate)
      | none => none
  | .reading slot =>
      some ({ c with stage := .leaving slot (view.read c.path) }, site)
  | .leaving slot answer =>
      let gate := (site.gate c.resolver.gate).leave c.size
      some ({ c with stage := c.afterRead slot answer },
        site.setGate c.resolver.gate gate)
  | .recording slot d =>
      let cache := (site.cache c.resolver.cache).insertAt slot.store slot.key d
      some ({ c with stage := .finished (.digest d) },
        (site.setCache c.resolver.cache cache).report
          (.digestCached slot.key.path d))
  | .finished _ => some (c, site)

end Call

/-- The surroundings of a computation that runs without interruption: a state
that holds the site, and a file system whose answers may change the state. -/
structure Host (σ : Type) where
  site : σ → Site
  setSite : σ → Site → σ
  stat : Path → σ → Except IoError FileStatus × σ
  read : Path → σ → Except IoError (Option Digest) × σ
  /-- The digest that the file system has at hand, if any. -/
  fast : Path → σ → Except IoError (Option Digest) × σ

namespace Host

variable {σ : Type} (host : Host σ)

/-- What a computation sees when its step comes, and the state after it has
asked. Only the two stages that ask the file system ask it. -/
def look (c : Call) (s : σ) : FileView × σ :=
  match c.stage with
  | .identifying _ =>
      let (answer, s) := host.stat c.path s
      (⟨fun _ => answer, fun _ => .ok none⟩, s)
  | .reading _ =>
      let (answer, s) := host.read c.path s
      (⟨fun _ => .error .notFound, fun _ => answer⟩, s)
  | _ => (⟨fun _ => .error .notFound, fun _ => .ok none⟩, s)

/-- At most `n` steps of a computation; nothing comes of one that has to wait,
since nobody else could open the gate. -/
def steps : Nat → Call → σ → Option Outcome × σ
  | 0, c, s =>
      match c.stage with
      | .finished outcome => (some outcome, s)
      | _ => (none, s)
  | n + 1, c, s =>
      let (view, s) := host.look c s
      match c.step view (host.site s) with
      | some (c, site) => steps n c (host.setSite s site)
      | none => (none, s)

def computeManually (r : Resolver) (path : Path) (size : SizeHint) (s : σ) :
    Option Outcome × σ :=
  let c := Call.start r path size
  host.steps c.stage.remaining c s

/-- The digest of a file as the file system has it at hand, or else computed. A
digest at hand is taken as it is, and neither the cache nor the content is
touched. -/
def digestWithFallback (r : Resolver) (path : Path) (size : SizeHint) (s : σ) :
    Option Outcome × σ :=
  match host.fast path s with
  | (.error e, s) => (some (.failed (.io path e)), s)
  | (.ok (some d), s) =>
      (some (.digest d),
        host.setSite s ((host.site s).report (.fastDigest path)))
  | (.ok none, s) => host.computeManually r path size s

def digestOfUnknownSize (r : Resolver) (path : Path) (s : σ) :
    Option Outcome × σ :=
  host.digestWithFallback r path .unknown s

def withoutFast : Host σ :=
  { host with fast := fun _ s => (.ok none, s) }

end Host

/-- The surroundings in which the file system is one and the same view
throughout. -/
def FileView.host (view : FileView)
    (fast : Path → Except IoError (Option Digest)) : Host Site where
  site s := s
  setSite _ s := s
  stat path s := (view.stat path, s)
  read path s := (view.read path, s)
  fast path s := (fast path, s)

end FileDigest
