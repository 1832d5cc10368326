import FileDigest.Resolver

/-!
# The steps of a manual computation

`Call.Step` lists what one step of a computation can do, with a name for each
way to go on from a stage. `Call.step_sound` says that nothing is missing from
the list, so that a property that every step keeps is proved by cases on it, and
`Call.step_complete` says that all that is on the list can happen.
-/

namespace FileDigest.Call

def opened (s : Site) (r : Resolver) (path : Path) (size : SizeHint) : Call :=
  { start r path size with
    stage :=
      match (s.cache r.cache).current with
      | some g => .identifying g
      | none => .entering none }

theorem step_start (view : FileView) (s : Site) (r : Resolver) (path : Path)
    (size : SizeHint) :
    (start r path size).step view s = some (opened s r path size, s) := by
  simp only [step, opened, start]
  cases (s.cache r.cache).current <;> rfl

/-- From which stage to which a computation goes in one step, and the site after
the step. -/
inductive Step (view : FileView) (s : Site) (c : Call) : Stage → Stage →
    Site → Prop where
  | taken {g : Nat} (h : (s.cache c.resolver.cache).current = some g) :
      Step view s c .opening (.identifying g) s
  | off (h : (s.cache c.resolver.cache).current = none) :
      Step view s c .opening (.entering none) s
  | identified {g : Nat} {status : FileStatus}
      (h : view.stat c.path = .ok status) :
      Step view s c (.identifying g) (.consulting ⟨g, ⟨c.path, status⟩⟩) s
  | unidentified {g : Nat} {e : IoError} (h : view.stat c.path = .error e) :
      Step view s c (.identifying g) (.finished (.failed (.io c.path e))) s
  | hit {slot : Slot} {d : Digest}
      (h : ((s.cache c.resolver.cache).getAt slot.store slot.key).1 = some d) :
      Step view s c (.consulting slot) (.finished (.digest d))
        ((s.setCache c.resolver.cache
          ((s.cache c.resolver.cache).getAt slot.store slot.key).2).report
            (.cacheHit c.path))
  | miss {slot : Slot}
      (h : ((s.cache c.resolver.cache).getAt slot.store slot.key).1 = none) :
      Step view s c (.consulting slot) (.entering (some slot))
        (s.setCache c.resolver.cache
          ((s.cache c.resolver.cache).getAt slot.store slot.key).2)
  | entered {slot : Option Slot} {g : Gate}
      (h : (s.gate c.resolver.gate).enter c.size = some g) :
      Step view s c (.entering slot) (.reading slot)
        (s.setGate c.resolver.gate g)
  | read {slot : Option Slot} :
      Step view s c (.reading slot) (.leaving slot (view.read c.path)) s
  | left {slot : Option Slot} {answer : Except IoError (Option Digest)} :
      Step view s c (.leaving slot answer) (c.afterRead slot answer)
        (s.setGate c.resolver.gate ((s.gate c.resolver.gate).leave c.size))
  | recorded {slot : Slot} {d : Digest} :
      Step view s c (.recording slot d) (.finished (.digest d))
        ((s.setCache c.resolver.cache
          ((s.cache c.resolver.cache).insertAt slot.store slot.key d)).report
            (.digestCached slot.key.path d))
  | stayed {o : Outcome} : Step view s c (.finished o) (.finished o) s

variable {view : FileView} {s s' : Site} {c c' : Call}

theorem step_sound (h : c.step view s = some (c', s')) :
    ∃ stage, c' = { c with stage := stage } ∧
    Step view s c c.stage stage s' := by
  obtain ⟨r, path, size, stage⟩ := c
  cases stage with
  | opening =>
      simp only [step] at h
      split at h
      · cases h
        exact ⟨_, rfl, .taken ‹_›⟩
      · cases h
        exact ⟨_, rfl, .off ‹_›⟩
  | identifying g =>
      simp only [step] at h
      split at h
      · cases h
        exact ⟨_, rfl, .identified ‹_›⟩
      · cases h
        exact ⟨_, rfl, .unidentified ‹_›⟩
  | consulting slot =>
      simp only [step] at h
      split at h
      · cases h
        exact ⟨_, rfl, .hit ‹_›⟩
      · cases h
        exact ⟨_, rfl, .miss ‹_›⟩
  | entering slot =>
      simp only [step] at h
      split at h
      · cases h
        exact ⟨_, rfl, .entered ‹_›⟩
      · cases h
  | reading slot =>
      cases h
      exact ⟨_, rfl, .read⟩
  | leaving slot answer =>
      cases h
      exact ⟨_, rfl, .left⟩
  | recording slot d =>
      cases h
      exact ⟨_, rfl, .recorded⟩
  | finished o =>
      cases h
      exact ⟨_, rfl, .stayed⟩

theorem step_complete {stage stage' : Stage} (h : Step view s c stage stage' s')
    (hc : c.stage = stage) :
    c.step view s = some ({ c with stage := stage' }, s') := by
  obtain ⟨r, path, size, old⟩ := c
  subst hc
  cases h with
  | taken h => simp only [step, h]
  | off h => simp only [step, h]
  | identified h => simp only [step, h]
  | unidentified h => simp only [step, h]
  | hit h => simp only [step, h]
  | miss h => simp only [step, h]
  | entered h => simp only [step, h]
  | read => rfl
  | left => rfl
  | recorded => rfl
  | stayed => rfl

end FileDigest.Call
