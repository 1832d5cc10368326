import FileDigest.Proofs.Process.Basic
import FileDigest.Proofs.Resolver.Uninterrupted
import FileDigest.Proofs.Tree.Visits

/-!
# Whole calls are runs

A resolver is also asked for a whole answer at once: the digest of a file
computed, or taken from the file system where it is at hand, or the digest of a
tree. In a file system that is apart from the site these calls are runs of a
process. Each computation is begun and brought to its end before the next one
begins, and the file system changes to what the computation is going to see
before each of its steps. So what holds of the caches and gates at the end of
every run holds of them after whole calls as well.

Only the journals differ, since no operation reports a digest at hand or that of
a tree.
-/

namespace FileDigest

namespace Site

/-- The sites are the same but for their journals. -/
structure Agrees (s s' : Site) : Prop where
  caches : s'.caches = s.caches
  gates : s'.gates = s.gates

variable {s s' : Site}

theorem Agrees.symm (h : s.Agrees s') : s'.Agrees s :=
  ⟨h.caches.symm, h.gates.symm⟩

theorem Agrees.cache (h : s.Agrees s') (i : Nat) : s'.cache i = s.cache i := by
  rw [Site.cache, Site.cache, h.caches]

theorem Agrees.gate (h : s.Agrees s') (i : Nat) : s'.gate i = s.gate i := by
  rw [Site.gate, Site.gate, h.gates]

theorem Agrees.report (h : s.Agrees s') (e e' : Event) :
    (s.report e).Agrees (s'.report e') :=
  ⟨h.caches, h.gates⟩

theorem Agrees.setCache (h : s.Agrees s') (i : Nat) (c : Cache) :
    (s.setCache i c).Agrees (s'.setCache i c) :=
  ⟨by rw [Site.setCache, Site.setCache, h.caches], h.gates⟩

theorem Agrees.setGate (h : s.Agrees s') (i : Nat) (g : Gate) :
    (s.setGate i g).Agrees (s'.setGate i g) :=
  ⟨h.caches, by rw [Site.setGate, Site.setGate, h.gates]⟩

end Site

namespace Call

theorem Step.agrees {view : FileView} {s s' s₁ : Site} {c : Call}
    {stage stage' : Stage} (h : Step view s c stage stage' s₁)
    (hs : s.Agrees s') :
    ∃ s₁', Step view s' c stage stage' s₁' ∧ s₁.Agrees s₁' := by
  have hcache := hs.cache c.resolver.cache
  have hgate := hs.gate c.resolver.gate
  cases h with
  | taken hcurrent => exact ⟨s', .taken (hcache ▸ hcurrent), hs⟩
  | off hcurrent => exact ⟨s', .off (hcache ▸ hcurrent), hs⟩
  | identified hstat => exact ⟨s', .identified hstat, hs⟩
  | unidentified hstat => exact ⟨s', .unidentified hstat, hs⟩
  | hit hfound =>
      rw [← hcache] at hfound
      refine ⟨_, .hit hfound, ?_⟩
      rw [hcache]
      exact (hs.setCache _ _).report _ _
  | miss hfound =>
      rw [← hcache] at hfound
      refine ⟨_, .miss hfound, ?_⟩
      rw [hcache]
      exact hs.setCache _ _
  | entered henter => exact ⟨_, .entered (hgate ▸ henter), hs.setGate _ _⟩
  | read => exact ⟨s', .read, hs⟩
  | left =>
      refine ⟨_, .left, ?_⟩
      rw [hgate]
      exact hs.setGate _ _
  | recorded =>
      refine ⟨_, .recorded, ?_⟩
      rw [hcache]
      exact (hs.setCache _ _).report _ _
  | stayed => exact ⟨s', .stayed, hs⟩

/-- What a step does hangs on nothing that the journal says. -/
theorem step_agrees {view : FileView} {s s' s₁ : Site} {c c₁ : Call}
    (h : c.step view s = some (c₁, s₁)) (hs : s.Agrees s') :
    ∃ s₁', c.step view s' = some (c₁, s₁') ∧ s₁.Agrees s₁' := by
  obtain ⟨stage, rfl, hstep⟩ := step_sound h
  obtain ⟨s₁', hstep', hs₁⟩ := hstep.agrees hs
  exact ⟨s₁', step_complete hstep' rfl, hs₁⟩

theorem opened_agrees {s s' : Site} (hs : s.Agrees s')
    (r : Resolver) (path : Path) (size : SizeHint) :
    opened s' r path size = opened s r path size := by
  rw [opened, opened, hs.cache]

end Call

namespace Host

variable {σ : Type} {host : Host σ}

theorem Apart.site_look (hh : host.Apart) (c : Call) (s : σ) :
    host.site (host.look c s).2 = host.site s := by
  unfold look
  split
  · exact hh.site_stat c.path s
  · exact hh.site_read c.path s
  · rfl

theorem exists_run_steps (hh : host.Apart) (n : Nat) {c : Call} {s : σ}
    {p : Process} {j : Nat} (ht : p.tasks[j]? = some (.computing c))
    (hs : p.site.Agrees (host.site s)) :
    ∃ as q, p.run as = some q ∧ q.site.Agrees (host.site (host.steps n c s).2) ∧
      ∀ o, (host.steps n c s).1 = some o →
        ∃ c', q.tasks[j]? = some (.computing c') ∧ c'.stage = .finished o := by
  induction n generalizing c s p with
  | zero =>
      refine ⟨[], p, rfl, ?_⟩
      unfold steps
      split
      · refine ⟨hs, fun o ho => ⟨c, ht, ?_⟩⟩
        cases ho
        assumption
      · exact ⟨hs, fun o ho => by cases ho⟩
  | succ n ih =>
      have hlook : p.site.Agrees (host.site (host.look c s).2) := by
        rw [hh.site_look]
        exact hs
      cases hstep : c.step (host.look c s).1 (host.site (host.look c s).2) with
      | none =>
          refine ⟨[], p, rfl, ?_⟩
          simp only [steps, hstep]
          exact ⟨hlook, fun o ho => by cases ho⟩
      | some x =>
          obtain ⟨c₁, site⟩ := x
          obtain ⟨site', hstep', hsite⟩ := Call.step_agrees hstep hlook.symm
          have hj : j < p.tasks.length := (List.getElem?_eq_some_iff.1 ht).1
          let m : Process :=
            ⟨(host.look c s).1, site', p.tasks.set j (.computing c₁)⟩
          have hm : p.run [.change (host.look c s).1, .advance j] = some m := by
            simp [Process.run, Process.step, Process.advance, ht,
              Task.step, hstep', m]
          have hsite' : m.site.Agrees
              (host.site (host.setSite (host.look c s).2 site)) := by
            rw [hh.site_setSite]
            exact hsite.symm
          obtain ⟨as, q, hrun, hq⟩ := ih (List.getElem?_set_self hj) hsite'
          refine ⟨_ ++ as, q, Process.run_append_eq_some.2 ⟨m, hm, hrun⟩, ?_⟩
          simp only [steps, hstep]
          exact hq

/-- A manual computation is a run that begins it and takes its steps, and the
computation ends with what the call answers. -/
theorem exists_run_computeManually (hh : host.Apart)
    (r : Resolver) (path : Path) (size : SizeHint) {s : σ} {p : Process}
    (hs : p.site.Agrees (host.site s)) :
    ∃ as q, p.run as = some q ∧
      q.site.Agrees (host.site (host.computeManually r path size s).2) ∧
      ∀ o, (host.computeManually r path size s).1 = some o →
        ∃ c, q.tasks[p.tasks.length]? = some (.computing c) ∧
        c.stage = .finished o := by
  have hfirst : host.computeManually r path size s =
      host.steps 6 (Call.opened p.site r path size) s := by
    rw [computeManually, ← Call.opened_agrees hs]
    change host.steps 7 (Call.start r path size) s = _
    rw [steps]
    simp only [Call.step_start, hh.setSite_site]
    rfl
  rw [hfirst]
  let m : Process :=
    { p with tasks := p.tasks ++ [.computing (Call.opened p.site r path size)] }
  have ht : m.tasks[p.tasks.length]? =
      some (.computing (Call.opened p.site r path size)) := by
    simp [m]
  obtain ⟨as, q, hrun, hq⟩ := exists_run_steps hh 6 ht hs
  exact ⟨.begin (.compute r path size) :: as, q,
    Process.run_cons_eq_some.2 ⟨m, rfl, hrun⟩, hq⟩

section Fast

variable (hh : host.Apart)
  (hfast : ∀ path s, host.site (host.fast path s).2 = host.site s)
include hh hfast

theorem exists_run_digestWithFallback (r : Resolver) (path : Path)
    (size : SizeHint) {s : σ} {p : Process} (hs : p.site.Agrees (host.site s)) :
    ∃ as q, p.run as = some q ∧
      q.site.Agrees (host.site (host.digestWithFallback r path size s).2) := by
  rw [digestWithFallback]
  have hs' := hfast path s ▸ hs
  cases hanswer : host.fast path s with
  | mk answer s' =>
      rw [hanswer] at hs'
      cases answer with
      | error e => exact ⟨[], p, rfl, hs'⟩
      | ok found =>
          cases found with
          | some d =>
              refine ⟨[], p, rfl, ?_⟩
              simp only [hh.site_setSite]
              exact ⟨hs'.caches, hs'.gates⟩
          | none =>
              obtain ⟨as, q, hrun, hq, -⟩ :=
                exists_run_computeManually hh r path size hs'
              exact ⟨as, q, hrun, hq⟩

/-- The digest of a tree is a run in which the files that the walk meets are
computed one after another. -/
theorem exists_run_digestVisits (r : Resolver) (root : Path)
    (visits : List Visit) (a : UnorderedDigest) {s : σ} {p : Process}
    (hs : p.site.Agrees (host.site s)) :
    ∃ as q, p.run as = some q ∧
      q.site.Agrees (host.site (host.digestVisits r root visits a s).2) := by
  induction visits generalizing a s p with
  | nil =>
      refine ⟨[], p, rfl, ?_⟩
      simp only [digestVisits, hh.site_setSite]
      exact ⟨hs.caches, hs.gates⟩
  | cons visit rest ih =>
      cases visit with
      | failed path cause => exact ⟨[], p, rfl, hs⟩
      | file path size =>
          obtain ⟨as, m, hrun, hm⟩ :=
            exists_run_digestWithFallback hh hfast r path size hs
          rw [digestVisits_file]
          split
          · split
            · obtain ⟨bs, q, hrest, hq⟩ := ih _ hm
              exact ⟨as ++ bs, q,
                Process.run_append_eq_some.2 ⟨m, hrun, hrest⟩, hq⟩
            · exact ⟨as, m, hrun, hm⟩
          · exact ⟨as, m, hrun, hm⟩

end Fast

end Host

end FileDigest
