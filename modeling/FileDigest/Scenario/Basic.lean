import FileDigest.Disk.Edit
import FileDigest.TreeDigest

/-!
# Scenarios

A scenario is a list of steps on a few caches and resolvers over one file
system. The file system is a disk, or files in memory whose status and content
are given outright. Such a file can carry further steps that are taken while its
status or its content is asked for, and so a scenario says exactly what happens
in the middle of a computation.
-/

namespace FileDigest.Scenario

inductive Step where
  /-- Puts a file into memory, with the steps that are taken the next time that
  its status or its content is asked for. -/
  | put (path : Path) (status : FileStatus) (statError : Option IoError)
      (content : Except IoError (Option Digest)) (onStat onRead : List Step)
  | remove (path : Path)
  | fast (path : Path) (answer : Except IoError (Option Digest))
  | edit (e : Edit)
  /-- Asks the file system for the status of a file, without taking its
  steps. -/
  | stat (path : Path)
  /-- Asks the file system for the digest of the content of a file, without
  taking its steps. -/
  | hash (path : Path)
  | manual (resolver : Nat) (path : Path) (size : SizeHint)
  | fallback (resolver : Nat) (path : Path) (size : SizeHint) (useFast : Bool)
  | fallbackUnknown (resolver : Nat) (path : Path) (useFast : Bool)
  | tree (resolver : Nat) (root : Path) (useFast : Bool)
  | configure (cache : Nat) (capacity : UInt64)
  | get (cache : Nat) (key : CacheKey)
  | insert (cache : Nat) (key : CacheKey) (d : Digest)
  | lookup (resolver : Nat) (path : Path)
  | stats (cache : Nat)
  | info (cache : Nat)

mutual

def Step.count : Step → Nat
  | .put _ _ _ _ onStat onRead => 1 + countAll onStat + countAll onRead
  | _ => 1

def countAll : List Step → Nat
  | [] => 0
  | step :: rest => step.count + countAll rest

end

structure File where
  status : FileStatus
  statError : Option IoError
  content : Except IoError (Option Digest)
  /-- The steps that are taken the next time that the status is asked for. -/
  onStat : List Step
  /-- The steps that are taken the next time that the content is asked for. -/
  onRead : List Step

def File.statAnswer (f : File) : Except IoError FileStatus :=
  match f.statError with
  | some e => .error e
  | none => .ok f.status

inductive Files where
  | memory (files : List (Path × File))
  | disk (w : Workbench)

structure Calls where
  stat : Nat
  read : Nat
  fast : Nat
deriving DecidableEq, Repr

structure State where
  site : Site
  resolvers : List Resolver
  files : Files
  atHand : List (Path × Except IoError (Option Digest))
  calls : Calls

inductive Answer where
  | done
  | present (was : Bool)
  | status (s : FileStatus)
  | content (d : Option Digest)
  | found (d : Option Digest)
  | outcome (o : Outcome)
  /-- The step would wait for a gate that only itself could open. -/
  | waits
  | stats (s : CacheStats)
  | info (enabled : Bool) (maxEntries : Option Nat) (entries : Nat)
  | failed (e : DigestError)

def noSuchFile : IoError := ⟨.notFound, "no such file"⟩

def assign {α : Type} (path : Path) (v : α) : List (Path × α) → List (Path × α)
  | [] => [(path, v)]
  | (p, w) :: rest =>
      if p = path then (p, v) :: rest else (p, w) :: assign path v rest

def unassign {α : Type} (path : Path) (entries : List (Path × α)) :
    List (Path × α) :=
  entries.filter fun e => e.1 ≠ path

namespace State

def resolver (s : State) (i : Nat) : Resolver :=
  (s.resolvers[i]?).getD (.new 0)

def file? (s : State) (path : Path) : Option File :=
  match s.files with
  | .memory files => files.lookup path
  | .disk _ => none

def setFile (s : State) (path : Path) (f : File) : State :=
  match s.files with
  | .memory files => { s with files := .memory (assign path f files) }
  | .disk _ => s

/-- The status of a file as it is, without taking its steps. -/
def peekStat (s : State) (path : Path) : Except IoError FileStatus :=
  match s.files with
  | .memory files =>
      match files.lookup path with
      | some f => f.statAnswer
      | none => .error noSuchFile
  | .disk w => w.disk.stat path

def peekRead (s : State) (path : Path) : Except IoError (Option Digest) :=
  match s.files with
  | .memory files =>
      match files.lookup path with
      | some f => f.content
      | none => .error noSuchFile
  | .disk w => w.disk.read path

/-- The surroundings of a computation, given the rule by which the steps of a
file are taken. The status that is answered is the one before these steps, the
content the one after them. Steps are taken once. -/
def host (take : List Step → State → State) : Host State where
  site s := s.site
  setSite s site := { s with site }
  stat path s :=
    let s := { s with calls := { s.calls with stat := s.calls.stat + 1 } }
    let answer := s.peekStat path
    match s.file? path with
    | some f => (answer, take f.onStat (s.setFile path { f with onStat := [] }))
    | none => (answer, s)
  read path s :=
    let s := { s with calls := { s.calls with read := s.calls.read + 1 } }
    let s :=
      match s.file? path with
      | some f => take f.onRead (s.setFile path { f with onRead := [] })
      | none => s
    (s.peekRead path, s)
  fast path s :=
    let s := { s with calls := { s.calls with fast := s.calls.fast + 1 } }
    ((s.atHand.lookup path).getD (.ok none), s)

/-- The walk over what a path leads to; files in memory form no tree. -/
def walk (s : State) (root : Path) : List Visit :=
  match s.files with
  | .memory _ => [Visit.failure root .notFound]
  | .disk w => w.disk.walk root

end State

def Answer.ofOutcome : Option Outcome → Answer
  | some o => .outcome o
  | none => .waits

def Step.perform (host : Host State) (step : Step) (s : State) :
    Answer × State :=
  match step with
  | .put path status statError content onStat onRead =>
      (.done, s.setFile path ⟨status, statError, content, onStat, onRead⟩)
  | .remove path =>
      match s.files with
      | .memory files =>
          (.present (files.lookup path).isSome,
            { s with files := .memory (unassign path files) })
      | .disk _ => (.present false, s)
  | .fast path answer =>
      (.done, { s with atHand := assign path answer s.atHand })
  | .edit e =>
      match s.files with
      | .memory _ => (.done, s)
      | .disk w => (.done, { s with files := .disk (w.apply e) })
  | .stat path =>
      match s.peekStat path with
      | .ok status => (.status status, s)
      | .error e => (.failed (.io path e), s)
  | .hash path =>
      match s.peekRead path with
      | .ok d => (.content d, s)
      | .error e => (.failed (.io path e), s)
  | .manual r path size =>
      let (o, s) := host.computeManually (s.resolver r) path size s
      (.ofOutcome o, s)
  | .fallback r path size useFast =>
      let host := if useFast then host else host.withoutFast
      let (o, s) := host.digestWithFallback (s.resolver r) path size s
      (.ofOutcome o, s)
  | .fallbackUnknown r path useFast =>
      let host := if useFast then host else host.withoutFast
      let (o, s) := host.digestOfUnknownSize (s.resolver r) path s
      (.ofOutcome o, s)
  | .tree r root useFast =>
      let host := if useFast then host else host.withoutFast
      let (o, s) := host.digestTree (s.resolver r) root (s.walk root) s
      (.ofOutcome o, s)
  | .configure i capacity =>
      (.done, { s with site := s.site.configure i capacity })
  | .get i key =>
      let (found, site) := s.site.get i key
      (.found found, { s with site })
  | .insert i key d => (.done, { s with site := s.site.insert i key d })
  | .lookup r path =>
      match s.peekStat path with
      | .ok status =>
          let (found, site) := s.site.get (s.resolver r).cache ⟨path, status⟩
          (.found found, { s with site })
      | .error e => (.failed (.io path e), s)
  | .stats i =>
      match (s.site.cache i).stats with
      | .ok counters => (.stats counters, s)
      | .error e => (.failed e, s)
  | .info i =>
      let c := s.site.cache i
      (.info c.isEnabled c.maxEntries c.entryCount, s)

/-- Takes a step, and inside it the steps of files to a given depth. -/
def take : Nat → Step → State → Answer × State
  | 0, _, s => (.done, s)
  | depth + 1, step, s =>
      step.perform (State.host fun steps s =>
        steps.foldl (fun s step => (take depth step s).2) s) s

def trace (depth : Nat) : List Step → State → List (Answer × State)
  | [], _ => []
  | step :: rest, s =>
      let (answer, s) := take depth step s
      (answer, s) :: trace depth rest s

/-- The run of a scenario. The steps of files are taken once, so they cannot be
nested deeper than there are steps. -/
def run (steps : List Step) (s : State) : List (Answer × State) :=
  trace (countAll steps + 1) steps s

/-- The state before the first step: caches that are off or just configured, and
resolvers that name a cache and may have a gate of their own. -/
def start (caches : List (Option UInt64)) (resolvers : List (Nat × Option Gate))
    (files : Files) : State :=
  let site := caches.foldl Site.addCache Site.initial
  let (site, resolvers) := resolvers.foldl (fun (site, rs) (cache, gate) =>
    match gate with
    | none => (site, rs ++ [.new cache])
    | some gate =>
        (site.addGate gate, rs ++ [.withGate cache site.gates.length])) (site,
          [])
  ⟨site, resolvers, files, [], ⟨0, 0, 0⟩⟩

end FileDigest.Scenario
