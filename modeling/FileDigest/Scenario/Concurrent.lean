import FileDigest.Resolver

/-!
# Computations side by side

Two scenarios in which several computations are under way at once. In the first
a computation reads while another one tries to begin its own read, and the
question is whether the gate lets it. In the second every thread computes the
same files a number of times through one resolver; what is reported of it is the
same in every order of their steps, so the threads are taken in turn.
-/

namespace FileDigest.Scenario

def isReading (c : Call) : Bool :=
  match c.stage with
  | .reading _ => true
  | _ => false

/-- At most `n` steps of a computation, up to where it stops or has to wait. -/
def proceed (view : FileView) (stop : Call → Bool) : Nat → Call →
    Site → Call × Site
  | 0, c, site => (c, site)
  | n + 1, c, site =>
      if stop c then (c, site)
      else
        match c.step view site with
        | some (c, site) => proceed view stop n c site
        | none => (c, site)

def outcomeOf (c : Call) : Option Outcome :=
  match c.stage with
  | .finished o => some o
  | _ => none

/-- What was seen of two reads. -/
structure Overlap where
  sameGate : Bool
  /-- Whether the second read began while the first was running. -/
  overlaps : Bool
  holder : Option Outcome
  probe : Option Outcome

/-- Begins a second computation while the first one reads. Gates are given
beside the shared one, and a computation without a gate of its own uses that. -/
def overlap (gates : List Gate) (holder probe : Nat × SizeHint)
    (holderPath probePath : Path) (view : FileView) : Overlap :=
  let site := gates.foldl Site.addGate (Site.initial.addCache none)
  let h := Call.start ⟨0, holder.1⟩ holderPath holder.2
  let p := Call.start ⟨0, probe.1⟩ probePath probe.2
  let all := Stage.opening.remaining
  let (h, site) := proceed view isReading all h site
  let (p, site) := proceed view isReading all p site
  let overlaps := isReading h && isReading p
  let (h, site) := proceed view (fun _ => false) all h site
  let (p, _) := proceed view (fun _ => false) all p site
  ⟨holder.1 == probe.1, overlaps, outcomeOf h, outcomeOf p⟩

/-- How often a thread found what it had to find, and the site after it. -/
def computeEach (host : Host Site) (r : Resolver) (size : SizeHint) :
    List (Path × Digest) → Site → Nat × Site
  | [], site => (0, site)
  | (path, expected) :: rest, site =>
      let (o, site) := host.computeManually r path size site
      let (n, site) := computeEach host r size rest site
      (if o = some (.digest expected) then n + 1 else n, site)

/-- How often each of some threads found what it had to find, when all compute
the same files the given number of times, and the site after them. -/
def computeAll (host : Host Site) (r : Resolver) (size : SizeHint)
    (files : List (Path × Digest)) (rounds : Nat) : Nat → Site → List Nat × Site
  | 0, site => ([], site)
  | threads + 1, site =>
      let (n, site) :=
        computeEach host r size (List.replicate rounds files).flatten site
      let (ns, site) := computeAll host r size files rounds threads site
      (n :: ns, site)

end FileDigest.Scenario
