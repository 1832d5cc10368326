import FileDigest.Proofs.Site
import FileDigest.Resolver

/-!
# Computations that nothing interrupts

A computation takes up to seven steps. While nobody else moves and nobody holds
the gate, they come to what `Host.compute` says in one piece: without a store in
use the content is read, and with one the status is asked for, the store is
consulted under it, and the content is read only where the store has no answer.
This holds for every file system that is apart from the site, and may have a
state of its own (`Host.computeManually_eq`). For a file system that stays the
same, what later modules say about runs without interruption is said about
`Site.compute` (`Site.computeManually_host`).
-/

namespace FileDigest

def Outcome.ofRead (path : Path) (size : SizeHint) :
    Except IoError (Option Digest) → Outcome
  | .error e => .failed (.io path e)
  | .ok none => .missing path size
  | .ok (some d) => .digest d

def FileView.outcome (view : FileView) (path : Path)
    (size : SizeHint) : Outcome :=
  .ofRead path size (view.read path)

theorem FileView.outcome_eq_digest_iff {view : FileView} {path : Path}
    {size : SizeHint} {d : Digest} : view.outcome path size = .digest d ↔
    view.read path = .ok (some d) := by
  unfold FileView.outcome Outcome.ofRead
  split <;> simp_all

namespace Site

/-- The site after a file was read that a store had no digest for. -/
def record (s : Site) (i g : Nat) (k : CacheKey) :
    Except IoError (Option Digest) → Site
  | .ok (some d) =>
      (s.setCache i ((s.cache i).insertAt g k d)).report
        (.digestCached k.path d)
  | _ => s

/-- A whole computation in a file system that stays the same. -/
def compute (view : FileView) (r : Resolver) (path : Path)
    (size : SizeHint) (s : Site) : Outcome × Site :=
  match (s.cache r.cache).current with
  | none => (view.outcome path size, s)
  | some g =>
      match view.stat path with
      | .error e => (.failed (.io path e), s)
      | .ok status =>
          let asked := (s.cache r.cache).getAt g ⟨path, status⟩
          let s := s.setCache r.cache asked.2
          match asked.1 with
          | some d => (.digest d, s.report (.cacheHit path))
          | none =>
              (view.outcome path size,
                s.record r.cache g ⟨path, status⟩ (view.read path))

variable {view : FileView} {fast : Path → Except IoError (Option Digest)}

theorem gate_compute (s : Site) (r : Resolver) (path : Path)
    (size : SizeHint) (i : Nat) :
    (s.compute view r path size).2.gate i = s.gate i := by
  unfold Site.compute
  split
  · rfl
  · split
    · rfl
    · dsimp only
      split
      · rfl
      · unfold Site.record
        split <;> rfl

end Site

namespace Host

variable {σ : Type} {host : Host σ}

/-- The file system is apart from the site: neither its answers nor what becomes
of it hang on the site, and asking it leaves the site as it is. -/
structure Apart (host : Host σ) : Prop where
  site_setSite : ∀ s x, host.site (host.setSite s x) = x
  setSite_site : ∀ s, host.setSite s (host.site s) = s
  setSite_setSite : ∀ s x y, host.setSite (host.setSite s x) y =
    host.setSite s y
  stat_setSite : ∀ path s x, host.stat path (host.setSite s x) =
    ((host.stat path s).1, host.setSite (host.stat path s).2 x)
  read_setSite : ∀ path s x, host.read path (host.setSite s x) =
    ((host.read path s).1, host.setSite (host.read path s).2 x)

theorem Apart.site_stat (hh : host.Apart) (path : Path) (s : σ) :
    host.site (host.stat path s).2 = host.site s := by
  have h := hh.stat_setSite path s (host.site s)
  rw [hh.setSite_site] at h
  rw [h, hh.site_setSite]

theorem Apart.site_read (hh : host.Apart) (path : Path) (s : σ) :
    host.site (host.read path s).2 = host.site s := by
  have h := hh.read_setSite path s (host.site s)
  rw [hh.setSite_site] at h
  rw [h, hh.site_setSite]

/-- What is left of a computation when it looks into the store that it took. -/
def consult (host : Host σ) (r : Resolver) (path : Path)
    (size : SizeHint) (g : Nat) (k : CacheKey) (s : σ) : Outcome × σ :=
  let asked := ((host.site s).cache r.cache).getAt g k
  let site := (host.site s).setCache r.cache asked.2
  match asked.1 with
  | some d => (.digest d, host.setSite s (site.report (.cacheHit path)))
  | none =>
      (.ofRead path size (host.read path s).1,
        host.setSite (host.read path s).2
          (site.record r.cache g k (host.read path s).1))

def compute (host : Host σ) (r : Resolver) (path : Path)
    (size : SizeHint) (s : σ) : Outcome × σ :=
  match ((host.site s).cache r.cache).current with
  | none => (.ofRead path size (host.read path s).1, (host.read path s).2)
  | some g =>
      match (host.stat path s).1 with
      | .error e => (.failed (.io path e), (host.stat path s).2)
      | .ok status =>
          host.consult r path size g ⟨path, status⟩ (host.stat path s).2

/-- The steps from the gate on, when the gate is open: the content is read, and
what was read goes into the store that was taken. -/
theorem steps_entering (hh : host.Apart) {r : Resolver} {s : σ}
    (hopen : ((host.site s).gate r.gate).held = false) (path : Path)
    (size : SizeHint) (slot : Option Slot) (n : Nat) :
    host.steps (n + 3) ⟨r, path, size, .entering slot⟩ s =
      host.steps n
        ⟨r, path, size,
          (Call.mk r path size (.entering slot)).afterRead slot
            (host.read path s).1⟩
        (host.read path s).2 := by
  obtain ⟨g, henter, hleave⟩ := Site.enter_leave hopen size
  simp only [steps, look, Call.step, henter, hh.read_setSite, hh.site_setSite,
    hleave, hh.setSite_setSite]
  rw [← hh.site_read path s, hh.setSite_site]
  rfl

theorem steps_finished (hh : host.Apart) (r : Resolver) (path : Path)
    (size : SizeHint) (o : Outcome) (s : σ) (n : Nat) :
    host.steps n ⟨r, path, size, .finished o⟩ s = (some o, s) := by
  induction n with
  | zero => rfl
  | succ n ih =>
      simp only [steps, look, Call.step, hh.setSite_site]
      exact ih

theorem steps_afterRead_none (hh : host.Apart) (r : Resolver) (path : Path)
    (size : SizeHint) (st : Stage) (answer : Except IoError (Option Digest))
    (s : σ) (n : Nat) :
    host.steps n ⟨r, path, size,
      (Call.mk r path size st).afterRead none answer⟩ s =
      (some (.ofRead path size answer), s) := by
  cases answer with
  | error e => exact steps_finished hh r path size _ s n
  | ok found => cases found <;> exact steps_finished hh r path size _ s n

theorem steps_afterRead_some (hh : host.Apart) (r : Resolver) (path : Path)
    (size : SizeHint) (st : Stage) (g : Nat) (k : CacheKey)
    (answer : Except IoError (Option Digest)) (s : σ) (n : Nat) :
    host.steps (n + 1)
        ⟨r, path, size,
          (Call.mk r path size st).afterRead (some ⟨g, k⟩) answer⟩ s =
      (some (.ofRead path size answer),
        host.setSite s ((host.site s).record r.cache g k answer)) := by
  cases answer with
  | error e =>
      change _ = (_, host.setSite s (host.site s))
      rw [hh.setSite_site]
      exact steps_finished hh r path size _ s _
  | ok found =>
      cases found with
      | none =>
          change _ = (_, host.setSite s (host.site s))
          rw [hh.setSite_site]
          exact steps_finished hh r path size _ s _
      | some d =>
          simp only [Call.afterRead, steps, look, Call.step]
          exact steps_finished hh r path size _ _ n

theorem steps_consulting (hh : host.Apart) {r : Resolver} {s : σ}
    (hopen : ((host.site s).gate r.gate).held = false) (path : Path)
    (size : SizeHint) (g : Nat) (k : CacheKey) :
    host.steps 5 ⟨r, path, size, .consulting ⟨g, k⟩⟩ s =
      (some (host.consult r path size g k s).1,
        (host.consult r path size g k s).2) := by
  rw [steps, consult]
  cases hfound : (((host.site s).cache r.cache).getAt g k).1 with
  | some d =>
      simp only [look, Call.step, hfound]
      exact steps_finished hh r path size (.digest d) _ 4
  | none =>
      simp only [look, Call.step, hfound]
      generalize hsite : (host.site s).setCache r.cache
        (((host.site s).cache r.cache).getAt g k).2 = site
      have hopen' : ((host.site (host.setSite s site)).gate r.gate).held =
          false := by
        rw [hh.site_setSite, ← hsite, Site.gate_setCache]
        exact hopen
      refine (steps_entering hh hopen' path size _ 1).trans ?_
      refine (steps_afterRead_some hh r path size _ g k _ _ 0).trans ?_
      rw [hh.read_setSite, hh.site_setSite, hh.setSite_setSite]

/-- A computation that nothing interrupts, and that finds its gate open, comes
to its end, and in one piece. -/
theorem computeManually_eq (hh : host.Apart) {r : Resolver} {s : σ}
    (hopen : ((host.site s).gate r.gate).held = false) (path : Path)
    (size : SizeHint) :
    host.computeManually r path size s =
      (some (host.compute r path size s).1,
        (host.compute r path size s).2) := by
  rw [computeManually, compute]
  change host.steps 7 ⟨r, path, size, .opening⟩ s = _
  rw [steps]
  cases hcurrent : ((host.site s).cache r.cache).current with
  | none =>
      simp only [look, Call.step, hcurrent, hh.setSite_site]
      exact (steps_entering hh hopen path size none 3).trans
        (steps_afterRead_none hh r path size _ _ _ 3)
  | some g =>
      simp only [look, Call.step, hcurrent, hh.setSite_site]
      rw [steps]
      simp only [look, Call.step]
      cases hstat : (host.stat path s).1 with
      | error e =>
          simp only [hh.setSite_site]
          exact steps_finished hh r path size _ _ 5
      | ok status =>
          simp only [hh.setSite_site]
          refine steps_consulting hh ?_ path size g ⟨path, status⟩
          rw [hh.site_stat]
          exact hopen

end Host

theorem FileView.apart_host (view : FileView)
    (fast : Path → Except IoError (Option Digest)) : (view.host fast).Apart :=
  ⟨fun _ _ => rfl, fun _ => rfl, fun _ _ _ => rfl, fun _ _ _ => rfl,
    fun _ _ _ => rfl⟩

namespace Site

variable {view : FileView} {fast : Path → Except IoError (Option Digest)}

theorem compute_host (r : Resolver) (path : Path) (size : SizeHint) (s : Site) :
    (view.host fast).compute r path size s = s.compute view r path size := by
  simp only [Host.compute, Host.consult, Site.compute, FileView.host]
  rfl

/-- In a file system that stays the same a computation is `Site.compute`. -/
theorem computeManually_host {r : Resolver} {s : Site}
    (hopen : (s.gate r.gate).held = false) (path : Path) (size : SizeHint) :
    (view.host fast).computeManually r path size s =
      (some (s.compute view r path size).1,
        (s.compute view r path size).2) := by
  rw [Host.computeManually_eq (view.apart_host fast) hopen, compute_host]

end Site

end FileDigest
