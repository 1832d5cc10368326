import FileDigest.Proofs.Resolver.Failures
import FileDigest.Proofs.Resolver.Steps
import FileDigest.Proofs.Tree.Visits
import Mathlib.Logic.Relation

/-!
# Requests under way

A resolver is asked for a manual computation, for a digest that is computed only
where none is at hand, or for the digest of a tree. While it is being answered,
a request goes on by single steps, so other requests may go on between two of
them. The steps of a computation are those of `Call.step`; before a computation
comes the question for a digest at hand, and a tree is such a question for each
file that its walk meets.

A request that is left to itself comes to what it answers in one piece
(`Host.leads_request`). In a file system that counts its calls `Progress.Step`
lists what one step can do, and which call it costs hangs on how far the request
has come (`Progress.charged`).
-/

namespace FileDigest

/-- The walk of a tree in progress: the visits that are left, and what those
before came to. -/
structure TreeWalk where
  root : Path
  rest : List Visit
  aggregate : UnorderedDigest

/-- How far a request has come. What is done for a file of a tree carries the
walk along. -/
inductive Progress where
  /-- A digest at hand is about to be asked for. -/
  | asking (walk : Option TreeWalk) (path : Path) (size : SizeHint)
  | computing (walk : Option TreeWalk) (path : Path) (size : SizeHint)
      (stage : Stage)
  /-- The next file of a tree is about to be taken up. -/
  | walking (walk : TreeWalk)
  | ended (o : Outcome)

structure PendingRequest where
  resolver : Resolver
  progress : Progress

/-- What can be asked of a resolver. The request for a file of which nothing is
known is `resolve` with an unknown size. -/
inductive DigestRequest where
  | compute (r : Resolver) (path : Path) (size : SizeHint)
  | resolve (r : Resolver) (path : Path) (size : SizeHint)
  | tree (r : Resolver) (root : Path) (visits : List Visit)

namespace DigestRequest

def resolver : DigestRequest → Resolver
  | compute r _ _ => r
  | resolve r _ _ => r
  | tree r _ _ => r

def progress : DigestRequest → Progress
  | compute _ path size => .computing none path size .opening
  | resolve _ path size => .asking none path size
  | tree _ root visits => .walking ⟨root, visits, .empty⟩

def answer {σ : Type} (host : Host σ) (s : σ) : DigestRequest →
    Option Outcome × σ
  | compute r path size => host.computeManually r path size s
  | resolve r path size => host.digestWithFallback r path size s
  | tree r root visits => host.digestTree r root visits s

end DigestRequest

/-- How far a request has come when it is known what comes of a file. A tree
goes on with the digest of a file, and ends with anything else. -/
def Progress.settled (walk : Option TreeWalk) (path : Path)
    (o : Outcome) : Progress :=
  match walk, o with
  | some walk, .digest d =>
      match walk.aggregate.add (path.below walk.root) d with
      | .ok a => .walking { walk with aggregate := a }
      | .error e => .ended (.failed e)
  | _, o => .ended o

namespace PendingRequest

variable {σ : Type}

def step (host : Host σ) (e : PendingRequest) (s : σ) :
    Option (PendingRequest × σ) :=
  match e.progress with
  | .asking walk path size =>
      match host.fast path s with
      | (.error cause, s) =>
          some
            ({ e with
              progress := .settled walk path (.failed (.io path cause)) }, s)
      | (.ok (some d), s) =>
          some ({ e with progress := .settled walk path (.digest d) },
            host.setSite s ((host.site s).report (.fastDigest path)))
      | (.ok none, s) =>
          some ({ e with progress := .computing walk path size .opening }, s)
  | .computing walk path _ (.finished o) =>
      some ({ e with progress := .settled walk path o }, s)
  | .computing walk path size stage =>
      let (view, s) := host.look ⟨e.resolver, path, size, stage⟩ s
      (Call.step view (host.site s) ⟨e.resolver, path, size, stage⟩).map
        fun x =>
        ({ e with progress := .computing walk path size x.1.stage },
          host.setSite s x.2)
  | .walking walk =>
      match walk.rest with
      | [] =>
          some ({ e with progress := .ended (.digest walk.aggregate.finish) },
            host.setSite s ((host.site s).report
              (.treeDigested walk.root walk.aggregate.size)))
      | .failed path cause :: _ =>
          some ({ e with progress := .ended (.failed (.io path cause)) }, s)
      | .file path size :: rest =>
          let walk := { walk with rest := rest }
          some ({ e with progress := .asking (some walk) path size }, s)
  | .ended _ => some (e, s)

theorem step_computing (host : Host σ) (r : Resolver)
    (walk : Option TreeWalk) (path : Path) (size : SizeHint) {stage : Stage}
    (hstage : ∀ o, stage ≠ .finished o) (s : σ) :
    step host ⟨r, .computing walk path size stage⟩ s =
      (Call.step (host.look ⟨r, path, size, stage⟩ s).1
        (host.site (host.look ⟨r, path, size, stage⟩ s).2) ⟨r, path, size,
          stage⟩).map fun x =>
          (⟨r, .computing walk path size x.1.stage⟩,
            host.setSite (host.look ⟨r, path, size, stage⟩ s).2 x.2) := by
  cases stage with
  | finished o => exact absurd rfl (hstage o)
  | _ => rfl

end PendingRequest

namespace Host

variable {σ : Type} {host : Host σ}

/-- A request that is left to itself gets from one state to another. -/
def Leads (host : Host σ) : PendingRequest × σ → PendingRequest × σ → Prop :=
  Relation.ReflTransGen fun x y => x.1.step host x.2 = some y

theorem leads_finished (r : Resolver) (walk : Option TreeWalk) (path : Path)
    (size : SizeHint) (o : Outcome) (s : σ) :
    host.Leads (⟨r, .computing walk path size (.finished o)⟩, s)
      (⟨r, .settled walk path o⟩, s) :=
  Relation.ReflTransGen.single rfl

/-- A computation comes to its outcome. The induction is on the steps that are
left, the first of which is that of the request. -/
theorem leads_computing (hh : host.Apart) (r : Resolver)
    (walk : Option TreeWalk) (path : Path) (size : SizeHint) {n : Nat}
    {stage : Stage} {s s' : σ} {o : Outcome}
    (h : host.steps n ⟨r, path, size, stage⟩ s = (some o, s')) :
    host.Leads (⟨r, .computing walk path size stage⟩, s)
      (⟨r, .settled walk path o⟩, s') := by
  induction n generalizing stage s with
  | zero =>
      unfold steps at h
      split at h
      · rename_i o' hstage
        cases h
        cases hstage
        exact leads_finished r walk path size o _
      · cases h
  | succ n ih =>
      by_cases hstage : ∃ o', stage = .finished o'
      · obtain ⟨o', rfl⟩ := hstage
        rw [steps_finished hh] at h
        cases h
        exact leads_finished r walk path size o _
      · have hgoing : ∀ o', stage ≠ .finished o' := fun o' ho => hstage ⟨o', ho⟩
        rw [steps] at h
        split at h
        rename_i view s₁ hlook
        split at h
        · rename_i c site hstep
          obtain ⟨stage', rfl, -⟩ := Call.step_sound hstep
          refine Relation.ReflTransGen.head ?_ (ih h)
          rw [PendingRequest.step_computing host r walk path size hgoing s,
            hlook, hstep]
          rfl
        · cases h

theorem leads_asking (hh : host.Apart) (r : Resolver)
    (walk : Option TreeWalk) (path : Path) (size : SizeHint)
    {s s' : σ} {o : Outcome}
    (h : host.digestWithFallback r path size s = (some o, s')) :
    host.Leads (⟨r, .asking walk path size⟩, s)
      (⟨r, .settled walk path o⟩, s') := by
  unfold digestWithFallback at h
  split at h
  · rename_i cause s₁ hfast
    cases h
    exact Relation.ReflTransGen.single
      (by simp only [PendingRequest.step, hfast])
  · rename_i d s₁ hfast
    cases h
    exact Relation.ReflTransGen.single
      (by simp only [PendingRequest.step, hfast])
  · rename_i s₁ hfast
    refine Relation.ReflTransGen.head ?_ (leads_computing hh r walk path size h)
    simp only [PendingRequest.step, hfast]

/-- A tree comes to its digest, or to the first failure. The induction is on the
files of the walk. -/
theorem leads_walking (hh : host.Apart) (r : Resolver) (root : Path)
    {visits : List Visit} {a : UnorderedDigest} {s s' : σ} {o : Outcome}
    (h : host.digestVisits r root visits a s = (some o, s')) :
    host.Leads (⟨r, .walking ⟨root, visits, a⟩⟩, s) (⟨r, .ended o⟩, s') := by
  induction visits generalizing a s with
  | nil =>
      cases h
      exact Relation.ReflTransGen.single rfl
  | cons visit rest ih =>
      cases visit with
      | failed path cause =>
          cases h
          exact Relation.ReflTransGen.single rfl
      | file path size =>
          refine Relation.ReflTransGen.head
            (b := (⟨r, .asking (some ⟨root, rest, a⟩) path size⟩, s)) rfl ?_
          rw [digestVisits_file] at h
          cases hone : host.digestWithFallback r path size s with
          | mk answer s₁ =>
              rw [hone] at h
              cases answer with
              | none => cases h
              | some o₁ =>
                  have hasked :=
                    leads_asking hh r (some ⟨root, rest, a⟩) path size hone
                  cases o₁ with
                  | digest d =>
                      simp only at h
                      split at h
                      · rename_i a' hadd
                        refine hasked.trans ?_
                        simp only [Progress.settled, hadd]
                        exact ih h
                      · rename_i e hadd
                        cases h
                        simp only [Progress.settled, hadd] at hasked
                        exact hasked
                  | failed e =>
                      cases h
                      exact hasked
                  | missing p n =>
                      cases h
                      exact hasked

/-- A request that is left to itself answers what the request answers in one
piece, and leaves the same behind. -/
theorem leads_request (hh : host.Apart) {d : DigestRequest}
    {s s' : σ} {o : Outcome} (h : d.answer host s = (some o, s')) :
    host.Leads (⟨d.resolver, d.progress⟩, s) (⟨d.resolver, .ended o⟩, s') := by
  cases d with
  | compute r path size => exact leads_computing hh r none path size h
  | resolve r path size => exact leads_asking hh r none path size h
  | tree r root visits => exact leads_walking hh r root h

end Host

namespace Progress

def charged (calls : Scenario.Calls) : Progress → Scenario.Calls
  | asking _ _ _ => { calls with fast := calls.fast + 1 }
  | computing _ _ _ (.identifying _) => { calls with stat := calls.stat + 1 }
  | computing _ _ _ (.reading _) => { calls with read := calls.read + 1 }
  | _ => calls

/-- From where to where a request of a resolver goes in one step, and the site
after the step. -/
inductive Step (view : FileView) (fast : Path → Except IoError (Option Digest))
    (s : Site) (r : Resolver) : Progress → Progress → Site → Prop where
  | refused {walk : Option TreeWalk} {path : Path} {size : SizeHint}
      {cause : IoError}
      (h : fast path = .error cause) :
      Step view fast s r (.asking walk path size)
        (.settled walk path (.failed (.io path cause))) s
  | atHand {walk : Option TreeWalk} {path : Path} {size : SizeHint} {d : Digest}
      (h : fast path = .ok (some d)) :
      Step view fast s r (.asking walk path size)
        (.settled walk path (.digest d))
        (s.report (.fastDigest path))
  | unaided {walk : Option TreeWalk} {path : Path} {size : SizeHint}
      (h : fast path = .ok none) :
      Step view fast s r (.asking walk path size)
        (.computing walk path size .opening) s
  | computed {walk : Option TreeWalk} {path : Path} {size : SizeHint}
      {stage stage' : Stage}
      {s' : Site} (hgoing : ∀ o, stage ≠ .finished o)
      (h : Call.Step view s ⟨r, path, size, stage⟩ stage stage' s') :
      Step view fast s r (.computing walk path size stage)
        (.computing walk path size stage') s'
  | finished {walk : Option TreeWalk} {path : Path} {size : SizeHint}
      {o : Outcome} :
      Step view fast s r (.computing walk path size (.finished o))
        (.settled walk path o) s
  | walked {root : Path} {a : UnorderedDigest} :
      Step view fast s r (.walking ⟨root, [], a⟩) (.ended (.digest a.finish))
        (s.report (.treeDigested root a.size))
  | failed {root path : Path} {cause : IoError} {rest : List Visit}
      {a : UnorderedDigest} :
      Step view fast s r (.walking ⟨root, .failed path cause :: rest, a⟩)
        (.ended (.failed (.io path cause))) s
  | next {root path : Path} {size : SizeHint} {rest : List Visit}
      {a : UnorderedDigest} :
      Step view fast s r (.walking ⟨root, .file path size :: rest, a⟩)
        (.asking (some ⟨root, rest, a⟩) path size) s
  | stayed {o : Outcome} : Step view fast s r (.ended o) (.ended o) s

end Progress

section Tallied

variable (view : FileView) (fast : Path → Except IoError (Option Digest))

/-- What a computation sees of a file system that counts its calls is what is
there, and the call is counted. -/
theorem Host.look_tallied (walk : Option TreeWalk) (c : Call) (s : Site)
    (calls : Scenario.Calls) :
    c.step ((view.tallied fast).look c (s, calls)).1 s = c.step view s ∧
      ((view.tallied fast).look c (s, calls)).2 =
        (s, (Progress.computing walk c.path c.size c.stage).charged calls) := by
  obtain ⟨r, path, size, stage⟩ := c
  cases stage <;> exact ⟨rfl, rfl⟩

variable {view fast}

/-- Every step of a request is on the list, and costs what it says. -/
theorem PendingRequest.step_sound {e e' : PendingRequest} {s s' : Site}
    {calls calls' : Scenario.Calls}
    (h : e.step (view.tallied fast) (s, calls) = some (e', (s', calls'))) :
    ∃ progress, e' = { e with progress := progress } ∧
      calls' = e.progress.charged calls ∧
      Progress.Step view fast s e.resolver e.progress progress s' := by
  obtain ⟨r, progress⟩ := e
  cases progress with
  | asking walk path size =>
      simp only [step, FileView.tallied] at h
      cases hfast : fast path with
      | error cause =>
          rw [hfast] at h
          cases h
          exact ⟨_, rfl, rfl, .refused hfast⟩
      | ok found =>
          rw [hfast] at h
          cases found with
          | some d =>
              cases h
              exact ⟨_, rfl, rfl, .atHand hfast⟩
          | none =>
              cases h
              exact ⟨_, rfl, rfl, .unaided hfast⟩
  | computing walk path size stage =>
      by_cases hstage : ∃ o, stage = .finished o
      · obtain ⟨o, rfl⟩ := hstage
        cases h
        exact ⟨_, rfl, rfl, .finished⟩
      · have hgoing : ∀ o, stage ≠ .finished o := fun o ho => hstage ⟨o, ho⟩
        obtain ⟨hsees, hcosts⟩ := Host.look_tallied view fast walk
          ⟨r, path, size, stage⟩ s calls
        rw [step_computing _ r walk path size hgoing, hcosts] at h
        obtain ⟨⟨c, site⟩, hcall, heq⟩ := Option.map_eq_some_iff.1 h
        obtain ⟨stage', rfl, hstep⟩ := Call.step_sound (hsees ▸ hcall)
        cases heq
        exact ⟨_, rfl, rfl, .computed hgoing hstep⟩
  | walking walk =>
      obtain ⟨root, rest, a⟩ := walk
      cases rest with
      | nil =>
          cases h
          exact ⟨_, rfl, rfl, .walked⟩
      | cons visit rest =>
          cases visit <;> cases h
          · exact ⟨_, rfl, rfl, .next⟩
          · exact ⟨_, rfl, rfl, .failed⟩
  | ended o =>
      cases h
      exact ⟨_, rfl, rfl, .stayed⟩

end Tallied

end FileDigest
