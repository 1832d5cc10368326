import FileDigest.Proofs.Cache.Entries
import FileDigest.Proofs.Resolver.Steps
import FileDigest.Proofs.Resolver.Uninterrupted
import FileDigest.Scenario.Basic

/-!
# Calls that fail

A call has no digest to return when the source of digests at hand fails, when
the status cannot be asked for, or when the content cannot be read or is not
hashed. In the first two cases the store is not even asked. In the last one it
was asked in vain, if there is one in use, and that is all that is left of the
call: one miss in the store in use, `Site.withMiss`. What the file system was
asked is counted by the file system itself, in the surroundings
`FileView.tallied`.

Whatever the file system answers and however it changes meanwhile, a failure
names the file that the call is about (`Host.digestWithFallback_eq_failed`).
-/

namespace FileDigest

/-- The surroundings in which the file system stays the same and counts how
often it is asked. -/
def FileView.tallied (view : FileView)
    (fast : Path → Except IoError (Option Digest)) :
    Host (Site × Scenario.Calls) where
  site x := x.1
  setSite x s := (s, x.2)
  stat path x := (view.stat path, (x.1, { x.2 with stat := x.2.stat + 1 }))
  read path x := (view.read path, (x.1, { x.2 with read := x.2.read + 1 }))
  fast path x := (fast path, (x.1, { x.2 with fast := x.2.fast + 1 }))

theorem FileView.apart_tallied (view : FileView)
    (fast : Path → Except IoError (Option Digest)) :
    (view.tallied fast).Apart :=
  ⟨fun _ _ => rfl, fun _ => rfl, fun _ _ _ => rfl, fun _ _ _ => rfl,
    fun _ _ _ => rfl⟩

def Store.withMiss (s : Store) : Store :=
  { s with misses := s.misses + 1 }

def Cache.withMiss (c : Cache) : Cache :=
  match c.current with
  | some g => { c with stores := c.stores.modify g Store.withMiss }
  | none => c

def Site.withMiss (s : Site) (i : Nat) : Site :=
  s.setCache i (s.cache i).withMiss

namespace Cache

@[simp] theorem current_withMiss (c : Cache) :
    c.withMiss.current = c.current := by
  unfold withMiss
  split <;> rfl

theorem inUse_withMiss (c : Cache) :
    c.withMiss.inUse = c.inUse.map Store.withMiss := by
  unfold inUse
  rw [current_withMiss]
  cases hg : c.current with
  | none => simp
  | some g => simp [withMiss, hg]

/-- A lookup in vain counts one miss and does nothing else. -/
theorem getAt_eq_withMiss {c : Cache} {g : Nat} {k : CacheKey}
    (hg : c.current = some g) (h : (c.getAt g k).1 = none) :
    (c.getAt g k).2 = c.withMiss := by
  unfold getAt at h ⊢
  simp only [withMiss, hg]
  cases hs : c.stores[g]? with
  | none =>
      have hout : c.stores.length ≤ g := List.getElem?_eq_none_iff.1 hs
      simp only [List.modify_eq_self hout, ← hg]
  | some s =>
      simp only [hs, Store.get_fst] at h
      have hmiss : (s.get k).2 = s.withMiss := by
        rw [Store.get_of_find?_eq_none h]; rfl
      have hmodify : c.stores.set g s.withMiss =
          c.stores.modify g Store.withMiss := by
        apply List.ext_getElem?
        intro j
        rw [List.getElem?_set, List.getElem?_modify]
        by_cases hj : g = j
        · subst hj
          rw [if_pos rfl, if_pos (List.getElem?_eq_some_iff.1 hs).1, hs]
          simp
        · simp [hj]
      simp only [hmiss, hmodify, ← hg]

end Cache

namespace Site

theorem cache_withMiss_self (s : Site) (i : Nat) :
    (s.withMiss i).cache i = (s.cache i).withMiss := by
  apply cache_setCache_self
  intro hi
  rw [cache_eq_disabled_of_le s hi]
  rfl

@[simp] theorem gate_withMiss (s : Site) (i j : Nat) :
    (s.withMiss i).gate j = s.gate j := rfl

end Site

def Outcome.Fails (o : Outcome) : Prop :=
  ∀ d, o ≠ .digest d

inductive FileView.ReadFails (view : FileView) (path : Path) (size : SizeHint) :
    Outcome → Prop where
  | error {e : IoError} (h : view.read path = .error e) :
      ReadFails view path size (.failed (.io path e))
  | missing (h : view.read path = .ok none) : ReadFails view path size
      (.missing path size)

namespace FileView.ReadFails

variable {view : FileView} {path : Path} {size : SizeHint} {o : Outcome}

theorem outcome_eq (h : view.ReadFails path size o) :
    Outcome.ofRead path size (view.read path) = o := by
  cases h with
  | error h => rw [h]; rfl
  | missing h => rw [h]; rfl

theorem record_eq (h : view.ReadFails path size o) (s : Site) (i g : Nat)
    (k : CacheKey) : s.record i g k (view.read path) = s := by
  cases h with
  | error h => rw [h]; rfl
  | missing h => rw [h]; rfl

end FileView.ReadFails

theorem FileView.readFails_of_fails {view : FileView} {path : Path}
    {size : SizeHint} (h : (view.outcome path size).Fails) :
    view.ReadFails path size (view.outcome path size) := by
  unfold FileView.outcome at h ⊢
  cases hread : view.read path with
  | error e => exact .error hread
  | ok found =>
      cases found with
      | none => exact .missing hread
      | some d => exact absurd (by rw [hread]; rfl) (h d)

section Calls

variable (view : FileView) (fast : Path → Except IoError (Option Digest))
  (r : Resolver) (path : Path) (size : SizeHint) {s : Site}
  (calls : Scenario.Calls)

theorem digestWithFallback_of_fast_error {e : IoError}
    (h : fast path = .error e) :
    (view.tallied fast).digestWithFallback r path size (s, calls) =
      (some (.failed (.io path e)),
        (s, { calls with fast := calls.fast + 1 })) := by
  simp [Host.digestWithFallback, FileView.tallied, h]

theorem digestWithFallback_of_fast_none (h : fast path = .ok none) :
    (view.tallied fast).digestWithFallback r path size (s, calls) =
      (view.tallied fast).computeManually r path size
        (s, { calls with fast := calls.fast + 1 }) := by
  simp [Host.digestWithFallback, FileView.tallied, h]

variable (hfree : (s.gate r.gate).held = false)
include hfree

theorem computeManually_tallied :
    (view.tallied fast).computeManually r path size (s, calls) =
      (some ((view.tallied fast).compute r path size (s, calls)).1,
        ((view.tallied fast).compute r path size (s, calls)).2) :=
  Host.computeManually_eq (view.apart_tallied fast) (s := (s, calls))
    hfree path size

/-- A status that cannot be asked for ends a computation before the store is
looked into. -/
theorem computeManually_of_stat_error {g : Nat} {e : IoError}
    (hg : (s.cache r.cache).current = some g) (h : view.stat path = .error e) :
    (view.tallied fast).computeManually r path size (s, calls) =
      (some (.failed (.io path e)),
        (s, { calls with stat := calls.stat + 1 })) := by
  rw [computeManually_tallied view fast r path size calls hfree]
  simp [Host.compute, FileView.tallied, hg, h]

theorem computeManually_off_of_readFails {o : Outcome}
    (hoff : (s.cache r.cache).current = none) (h : view.ReadFails path size o) :
    (view.tallied fast).computeManually r path size (s, calls) =
      (some o, (s, { calls with read := calls.read + 1 })) := by
  rw [computeManually_tallied view fast r path size calls hfree]
  simp [Host.compute, FileView.tallied, hoff, h.outcome_eq]

theorem computeManually_of_readFails {g : Nat}
    {status : FileStatus} {o : Outcome}
    (hg : (s.cache r.cache).current = some g)
    (hstat : view.stat path = .ok status)
    (hmiss : ((s.cache r.cache).get ⟨path, status⟩).1 = none)
    (h : view.ReadFails path size o) :
    (view.tallied fast).computeManually r path size (s, calls) =
      (some o, (s.withMiss r.cache,
        { calls with stat := calls.stat + 1, read := calls.read + 1 })) := by
  rw [Cache.get, hg] at hmiss
  rw [computeManually_tallied view fast r path size calls hfree]
  simp [Host.compute, Host.consult, FileView.tallied, hg, hstat, hmiss,
    h.outcome_eq, h.record_eq, Cache.getAt_eq_withMiss hg hmiss, Site.withMiss]

end Calls

/-- A computation without a digest leaves a miss at most. -/
theorem Site.compute_of_fails {view : FileView} {r : Resolver} {path : Path}
    {size : SizeHint} {s : Site} (h : (s.compute view r path size).1.Fails) :
    (s.compute view r path size).2 = s ∨ (s.compute view r path size).2 =
      s.withMiss r.cache := by
  unfold Site.compute at h ⊢
  cases hg : (s.cache r.cache).current with
  | none => exact Or.inl rfl
  | some g =>
      simp only [hg] at h ⊢
      cases hstat : view.stat path with
      | error e => exact Or.inl rfl
      | ok status =>
          simp only [hstat] at h ⊢
          cases hfound : ((s.cache r.cache).getAt g ⟨path, status⟩).1 with
          | some d =>
              simp only [hfound] at h
              exact absurd rfl (h d)
          | none =>
              simp only [hfound] at h ⊢
              rw [(FileView.readFails_of_fails h).record_eq,
                Cache.getAt_eq_withMiss hg hfound]
              exact Or.inr rfl

/-- A computation that has failed names its own file. -/
def Call.NamesItsFile (c : Call) : Prop :=
  ∀ e, c.stage = .finished (.failed e) → ∃ cause, e = .io c.path cause

theorem Call.NamesItsFile.step {view : FileView}
    {site site' : Site} {c c' : Call} (hc : c.NamesItsFile)
    (h : c.step view site = some (c', site')) :
    c'.NamesItsFile ∧ c'.path = c.path := by
  obtain ⟨stage, rfl, hstep⟩ := step_sound h
  refine ⟨fun e he => ?_, rfl⟩
  change stage = .finished (.failed e) at he
  generalize hold : c.stage = old at hstep
  cases hstep with
  | unidentified hstat =>
      cases he
      exact ⟨_, rfl⟩
  | @left slot answer =>
      cases answer with
      | error cause =>
          cases he
          exact ⟨cause, rfl⟩
      | ok found =>
          cases found with
          | none => cases he
          | some d => cases slot <;> cases he
  | stayed => exact hc e (hold.trans he)
  | _ => cases he

namespace Host

variable {σ : Type} (host : Host σ)

theorem steps_eq_failed {n : Nat} {c : Call} {s : σ} {e : DigestError}
    (hc : c.NamesItsFile) (h : (host.steps n c s).1 = some (.failed e)) :
    ∃ cause, e = .io c.path cause := by
  induction n generalizing c s with
  | zero =>
      rw [steps] at h
      split at h
      · cases h
        exact hc e ‹_›
      · cases h
  | succ n ih =>
      simp only [steps] at h
      split at h
      · obtain ⟨hnext, hpath⟩ := hc.step ‹_›
        rw [← hpath]
        exact ih hnext h
      · cases h

/-- A search for a digest that fails names the file, whatever the file system
does meanwhile. -/
theorem digestWithFallback_eq_failed {r : Resolver} {path : Path}
    {size : SizeHint} {s : σ} {e : DigestError}
    (h : (host.digestWithFallback r path size s).1 = some (.failed e)) :
    ∃ cause, e = .io path cause := by
  unfold digestWithFallback at h
  split at h
  · cases h
    exact ⟨_, rfl⟩
  · cases h
  · refine host.steps_eq_failed (c := Call.start r path size) (fun e he => ?_) h
    cases he

end Host

end FileDigest
