import FileDigest.Proofs.Cache.Entries
import FileDigest.Proofs.Process.Basic

/-!
# Which stores the operations of a process use

An operation uses a store at most twice: it asks for its key, and it puts a
digest in. `Task.work?` says which of these the next step of an operation does,
in which generation of which cache, and `Process.works` lists what the
operations of a run do to stores. `Process.step_cache` is the one lemma about
the effect of an action on a cache that is not configured by it; the generation
that an operation holds never changes after its beginning, which is
`Task.generation?_step`.
-/

namespace FileDigest

inductive Access where
  | ask (key : CacheKey)
  | put (key : CacheKey) (d : Digest)

namespace Access

def toStore : Access → Store → Store
  | ask k, s => (s.get k).2
  | put k d, s => s.insert k d

def toCache : Access → Cache → Cache
  | ask k, c => (c.get k).2
  | put k d, c => c.insert k d

/-- A cache after an access to one of its generations. -/
def toGeneration (g : Nat) : Access → Cache → Cache
  | ask k, c => (c.getAt g k).2
  | put k d, c => c.insertAt g k d

@[simp] theorem current_toGeneration (a : Access) (g : Nat) (c : Cache) :
    (a.toGeneration g c).current = c.current := by
  cases a <;> simp [toGeneration]

theorem getElem?_toGeneration (a : Access) (g : Nat) (c : Cache) (g' : Nat) :
    (a.toGeneration g c).stores[g']? =
      if g = g' then (c.stores[g']?).map a.toStore else c.stores[g']? := by
  cases a with
  | ask k =>
      simp only [toGeneration, Cache.getAt]
      split <;> grind [toStore]
  | put k d =>
      simp only [toGeneration, Cache.insertAt]
      split <;> grind [toStore]

@[simp] theorem length_toGeneration (a : Access) (g : Nat) (c : Cache) :
    (a.toGeneration g c).stores.length = c.stores.length := by
  cases a with
  | ask k =>
      simp only [toGeneration, Cache.getAt]
      split <;> simp
  | put k d =>
      simp only [toGeneration, Cache.insertAt]
      split <;> simp

theorem inUse_toGeneration (a : Access) (g : Nat) (c : Cache) :
    (a.toGeneration g c).inUse =
      if c.current = some g then c.inUse.map a.toStore else c.inUse := by
  unfold Cache.inUse
  rw [current_toGeneration]
  cases h : c.current with
  | none => simp
  | some g' =>
      simp only [Option.bind_some, getElem?_toGeneration, Option.some.injEq]
      by_cases hg : g = g'
      · simp [hg]
      · simp [hg, Ne.symm hg]

theorem toCache_of_current {a : Access} {c : Cache} {g : Nat}
    (h : c.current = some g) : a.toCache c = a.toGeneration g c := by
  cases a <;> simp [toCache, toGeneration, Cache.get, Cache.insert, h]

theorem inUse_toCache (a : Access) (c : Cache) :
    (a.toCache c).inUse = c.inUse.map a.toStore := by
  cases h : c.current with
  | none => cases a <;> simp [toCache, Cache.get, Cache.insert, Cache.inUse, h]
  | some g => rw [toCache_of_current h, inUse_toGeneration, if_pos h]

theorem all_toGeneration {P : Nat → CacheKey → Digest → Prop} {c : Cache}
    (hc : c.All P) (hP : ∀ g j k d, (j == k) = true → P g j d → P g k d)
    {a : Access} {g : Nat} (h : ∀ k d, a = .put k d → P g k d) :
    (a.toGeneration g c).All P := by
  cases a with
  | ask k => exact hc.getAt hP g k
  | put k d => exact hc.insertAt (h k d rfl)

end Access

structure Work where
  task : Nat
  cache : Nat
  store : Nat
  access : Access

def Work.on (w : Work) (i : Nat) (c : Cache) : Cache :=
  if w.cache = i then w.access.toGeneration w.store c else c

@[simp] theorem Work.current_on (w : Work) (i : Nat) (c : Cache) :
    (w.on i c).current = c.current := by
  unfold Work.on
  split <;> simp

@[simp] theorem Work.length_on (w : Work) (i : Nat) (c : Cache) :
    (w.on i c).stores.length = c.stores.length := by
  unfold Work.on
  split <;> simp

namespace Task

/-- The cache that an operation uses and the generation that it took, as long as
it may still need them. -/
def generation? : Task → Option (Nat × Nat)
  | computing c =>
      match c.stage with
      | .identifying g => some (c.resolver.cache, g)
      | .consulting slot => some (c.resolver.cache, slot.store)
      | .entering slot => slot.map fun slot => (c.resolver.cache, slot.store)
      | .reading slot => slot.map fun slot => (c.resolver.cache, slot.store)
      | .leaving slot _ => slot.map fun slot => (c.resolver.cache, slot.store)
      | .recording slot _ => some (c.resolver.cache, slot.store)
      | _ => none
  | looking i g _ => g.map fun g => (i, g)
  | inserting i g _ _ => g.map fun g => (i, g)
  | ended _ => none

/-- A manual computation has taken the store in use. -/
def Begun : Task → Prop
  | computing c => c.stage ≠ .opening
  | _ => True

/-- What the next step of the operation with a number does to a store. -/
def work? (j : Nat) : Task → Option Work
  | computing c =>
      match c.stage with
      | .consulting slot =>
          some ⟨j, c.resolver.cache, slot.store, .ask slot.key⟩
      | .recording slot d =>
          some ⟨j, c.resolver.cache, slot.store, .put slot.key d⟩
      | _ => none
  | looking i (some g) k => some ⟨j, i, g, .ask k⟩
  | inserting i (some g) k d => some ⟨j, i, g, .put k d⟩
  | _ => none

variable {view : FileView} {s s' : Site} {t t' : Task}

theorem generation?_of_work? {j : Nat} {w : Work} (h : t.work? j = some w) :
    w.task = j ∧ t.generation? = some (w.cache, w.store) := by
  cases t with
  | computing c =>
      obtain ⟨r, path, size, stage⟩ := c
      cases stage with
      | consulting slot =>
          cases h
          exact ⟨rfl, rfl⟩
      | recording slot d =>
          cases h
          exact ⟨rfl, rfl⟩
      | _ => cases h
  | looking i g k =>
      cases g with
      | none => cases h
      | some g =>
          cases h
          exact ⟨rfl, rfl⟩
  | inserting i g k d =>
      cases g with
      | none => cases h
      | some g =>
          cases h
          exact ⟨rfl, rfl⟩
  | ended found => cases h

theorem put_of_work? {j : Nat} {w : Work} (h : t.work? j = some w)
    {k : CacheKey} {d : Digest} (hput : w.access = .put k d) :
    (∃ c, t = computing c ∧ c.stage = .recording ⟨w.store, k⟩ d ∧
      c.resolver.cache = w.cache) ∨
      t = inserting w.cache (some w.store) k d := by
  cases t with
  | computing c =>
      obtain ⟨r, path, size, stage⟩ := c
      cases stage with
      | consulting slot =>
          cases h
          cases hput
      | recording slot d' =>
          cases h
          cases hput
          exact Or.inl ⟨_, rfl, rfl, rfl⟩
      | _ => cases h
  | looking i g key =>
      cases g with
      | none => cases h
      | some g =>
          cases h
          cases hput
  | inserting i g key d' =>
      cases g with
      | none => cases h
      | some g =>
          cases h
          cases hput
          exact Or.inr rfl
  | ended found => cases h

theorem cache_setCache_work (s : Site) (w : Work) (i : Nat) :
    (s.setCache w.cache (w.access.toGeneration w.store (s.cache w.cache))).cache
      i =
      w.on i (s.cache i) := by
  unfold Work.on
  split
  · subst i
    cases w.access with
    | ask k => exact Site.cache_setCache_getAt s w.cache w.store k
    | put k d => exact Site.cache_setCache_insertAt s w.cache w.store k d
  · exact Site.cache_setCache_of_ne s ‹_› _

theorem step_cache (h : t.step view s = some (t', s')) (j i : Nat) :
    s'.cache i = (t.work? j).elim (s.cache i) fun w => w.on i (s.cache i) := by
  cases step_eq_some_iff.1 h with
  | @computed r path size stage stage' s' hcall =>
      cases hcall with
      | hit hfound => exact cache_setCache_work s ⟨j, r.cache, _, .ask _⟩ i
      | miss hfound => exact cache_setCache_work s ⟨j, r.cache, _, .ask _⟩ i
      | recorded => exact cache_setCache_work s ⟨j, r.cache, _, .put _ _⟩ i
      | _ => rfl
  | @looked k g key => exact cache_setCache_work s ⟨j, k, g, .ask key⟩ i
  | @inserted k g key d => exact cache_setCache_work s ⟨j, k, g, .put key d⟩ i
  | _ => rfl

theorem length_caches_step (h : t.step view s = some (t', s')) :
    s'.caches.length = s.caches.length := by
  cases step_eq_some_iff.1 h with
  | computed hcall => cases hcall <;> simp
  | _ => simp

theorem length_gates_step (h : t.step view s = some (t', s')) :
    s'.gates.length = s.gates.length := by
  cases step_eq_some_iff.1 h with
  | computed hcall => cases hcall <;> simp
  | _ => simp

/-- An operation that has begun never takes another generation. -/
theorem generation?_step (h : t.step view s = some (t', s')) (hbegun : t.Begun)
    {x : Nat × Nat} (hx : t'.generation? = some x) :
    t.generation? = some x := by
  cases step_eq_some_iff.1 h with
  | computed hcall =>
      cases hcall with
      | taken hcurrent => exact absurd rfl hbegun
      | identified hstat => exact hx
      | miss hfound => exact hx
      | entered hgate => exact hx
      | read => exact hx
      | @left slot answer =>
          cases answer with
          | error e => cases hx
          | ok found =>
              cases found with
              | none => cases hx
              | some d =>
                  cases slot with
                  | none => cases hx
                  | some slot => exact hx
      | _ => cases hx
  | _ => cases hx

theorem Begun.step (h : t.step view s = some (t', s')) : t'.Begun := by
  cases step_eq_some_iff.1 h with
  | computed hcall =>
      cases hcall with
      | @left slot answer =>
          cases answer with
          | error e => exact Stage.noConfusion
          | ok found => cases found <;> cases slot <;> exact Stage.noConfusion
      | _ => exact Stage.noConfusion
  | _ => trivial

end Task

theorem Operation.begun_begun (o : Operation) (s : Site) :
    (o.begun s).Begun := by
  cases o with
  | compute r path size =>
      change (Call.opened s r path size).stage ≠ .opening
      simp only [Call.opened]
      split <;> exact Stage.noConfusion
  | _ => trivial

theorem Operation.generation?_begun {o : Operation} {s : Site} {i g : Nat}
    (h : (o.begun s).generation? = some (i, g)) :
    i = o.cache ∧ (s.cache i).current = some g := by
  cases o with
  | compute r path size =>
      simp only [begun, Task.generation?, Call.opened, Call.start] at h
      cases hcurrent : (s.cache r.cache).current with
      | none => simp [hcurrent] at h
      | some g' =>
          simp only [hcurrent, Option.some.injEq, Prod.mk.injEq] at h
          obtain ⟨rfl, rfl⟩ := h
          exact ⟨rfl, hcurrent⟩
  | lookup j k =>
      obtain ⟨g', hg', heq⟩ := Option.map_eq_some_iff.1 h
      cases heq
      exact ⟨rfl, hg'⟩
  | insert j k d =>
      obtain ⟨g', hg', heq⟩ := Option.map_eq_some_iff.1 h
      cases heq
      exact ⟨rfl, hg'⟩
  | inspect j => cases h

namespace Process

def work? (p : Process) : Action → Option Work
  | .advance j => (p.tasks[j]?).bind fun t => t.work? j
  | _ => none

def works (p : Process) : List Action → List Work
  | [] => []
  | a :: as => (p.work? a).toList ++ (p.step a).elim [] fun q => q.works as

variable {p q : Process} {a : Action}

theorem work?_eq_some {w : Work} (h : p.work? a = some w) :
    a = .advance w.task ∧ ∃ t, p.tasks[w.task]? = some t ∧
    t.work? w.task = some w ∧
      t.generation? = some (w.cache, w.store) := by
  cases a with
  | advance j =>
      obtain ⟨t, ht, hw⟩ := Option.bind_eq_some_iff.1 h
      obtain ⟨rfl, hg⟩ := Task.generation?_of_work? hw
      exact ⟨rfl, t, ht, hw, hg⟩
  | _ => cases h

theorem works_cons (p : Process) (a : Action) (as : List Action) :
    p.works (a :: as) = (p.work? a).toList ++ (p.step a).elim [] fun q =>
      q.works as := rfl

theorem mem_works {w : Work} {as : List Action} (h : w ∈ p.works as) :
    ∃ bs a cs m, as = bs ++ a :: cs ∧ p.run bs = some m ∧
    m.work? a = some w := by
  induction as generalizing p with
  | nil => cases h
  | cons a as ih =>
      rcases List.mem_append.1 h with h | h
      · exact ⟨[], a, as, p, rfl, rfl, Option.mem_toList.1 h⟩
      · cases hm : p.step a with
        | none =>
            rw [hm] at h
            cases h
        | some m =>
            rw [hm] at h
            obtain ⟨bs, b, cs, m', rfl, hm', hw⟩ := ih h
            exact ⟨a :: bs, b, cs, m', rfl, run_cons_eq_some.2 ⟨m, hm, hm'⟩, hw⟩

/-- A cache that an action does not configure changes by what the action does to
its stores. -/
theorem step_cache (h : p.step a = some q) {i : Nat}
    (ha : ∀ n, a ≠ .configure i n) :
    q.site.cache i = (p.work? a).elim (p.site.cache i) fun w =>
      w.on i (p.site.cache i) := by
  rcases step_cases h with ⟨view, rfl, rfl⟩ | ⟨j, n, rfl, rfl⟩ | ⟨o, rfl, rfl⟩ |
    ⟨j, t, t', s, rfl, ht, hstep, rfl⟩
  · rfl
  · have hij : j ≠ i := by
      rintro rfl
      exact ha n rfl
    exact Site.cache_configure_of_ne p.site hij n
  · rfl
  · have hw : p.work? (.advance j) = t.work? j := by simp [work?, ht]
    rw [hw]
    exact Task.step_cache hstep j i

theorem length_stores_step (h : p.step a = some q) (i : Nat) :
    (p.site.cache i).stores.length ≤ (q.site.cache i).stores.length := by
  rcases step_cases h with ⟨view, rfl, rfl⟩ | ⟨j, n, rfl, rfl⟩ | ⟨o, rfl, rfl⟩ |
    ⟨j, t, t', s, rfl, ht, hstep, rfl⟩
  · exact Nat.le_refl _
  · rcases Site.cache_configure_cases p.site j i n with heq | heq
    · rw [heq]
      exact Cache.length_stores_configure _ _
    · exact Nat.le_of_eq (congrArg (·.stores.length) heq.symm)
  · exact Nat.le_refl _
  · rw [Task.step_cache hstep j i]
    cases t.work? j <;> simp

theorem length_caches_step (h : p.step a = some q) :
    q.site.caches.length = p.site.caches.length := by
  rcases step_cases h with ⟨view, rfl, rfl⟩ | ⟨j, n, rfl, rfl⟩ | ⟨o, rfl, rfl⟩ |
    ⟨j, t, t', s, rfl, ht, hstep, rfl⟩
  · rfl
  · exact Site.length_caches_configure p.site j n
  · rfl
  · exact Task.length_caches_step hstep

theorem length_caches_run {as : List Action} (h : p.run as = some q) :
    q.site.caches.length = p.site.caches.length :=
  run_induction (P := fun m => m.site.caches.length =
    p.site.caches.length) h rfl
    fun _ _ _ _ hm hstep => (length_caches_step hstep).trans hm

/-- The numbers of generations that are in use or held by operations belong to
stores. -/
structure Numbered (p : Process) : Prop where
  begun : ∀ t ∈ p.tasks, t.Begun
  current_lt : ∀ i g, (p.site.cache i).current = some g →
    g < (p.site.cache i).stores.length
  generation_lt : ∀ t ∈ p.tasks, ∀ i g, t.generation? = some (i, g) →
    g < (p.site.cache i).stores.length

theorem numbered_start (caches : List (Option UInt64))
    (thresholds : List UInt64) (view : FileView) :
    (start caches thresholds view).Numbered where
  begun t ht := by cases ht
  current_lt i := by
    refine Site.cache_fresh (p := fun c => ∀ g, c.current = some g →
      g < c.stores.length)
      ?_ ?_ caches thresholds i
    · intro g h
      cases h
    · intro n
      exact fun g h => (Cache.current_configure h).2
  generation_lt t ht := by cases ht

theorem Numbered.step (hp : p.Numbered) (h : p.step a = some q) :
    q.Numbered := by
  have hle : ∀ i, (p.site.cache i).stores.length ≤
      (q.site.cache i).stores.length :=
    length_stores_step h
  rcases step_cases h with ⟨view, rfl, rfl⟩ | ⟨j, n, rfl, rfl⟩ | ⟨o, rfl, rfl⟩ |
    ⟨j, t, t', s, rfl, ht, hstep, rfl⟩
  · exact ⟨hp.begun, hp.current_lt, hp.generation_lt⟩
  · refine ⟨hp.begun, ?_, fun t ht i g hg =>
      Nat.lt_of_lt_of_le (hp.generation_lt t ht i g hg) (hle i)⟩
    intro i
    rcases Site.cache_configure_cases p.site j i n with heq | heq
    · rw [heq]
      exact fun g h => (Cache.current_configure h).2
    · rw [heq]
      exact hp.current_lt i
  · refine ⟨?_, hp.current_lt, ?_⟩
    · intro t ht
      rcases List.mem_append.1 ht with ht | ht
      · exact hp.begun t ht
      · rw [List.mem_singleton.1 ht]
        exact o.begun_begun p.site
    · intro t ht i g hg
      rcases List.mem_append.1 ht with ht | ht
      · exact hp.generation_lt t ht i g hg
      · rw [List.mem_singleton.1 ht] at hg
        exact hp.current_lt i g (Operation.generation?_begun hg).2
  · have hmem : t ∈ p.tasks := List.mem_of_getElem? ht
    refine ⟨?_, ?_, ?_⟩
    · intro u hu
      rcases List.mem_or_eq_of_mem_set hu with hu | rfl
      · exact hp.begun u hu
      · exact Task.Begun.step hstep
    · intro i g hg
      have hcurrent : (s.cache i).current = (p.site.cache i).current := by
        rw [Task.step_cache hstep j i]
        cases t.work? j <;> simp
      exact Nat.lt_of_lt_of_le (hp.current_lt i g (hcurrent ▸ hg)) (hle i)
    · intro u hu i g hg
      rcases List.mem_or_eq_of_mem_set hu with hu | rfl
      · exact Nat.lt_of_lt_of_le (hp.generation_lt u hu i g hg) (hle i)
      · have hg' := Task.generation?_step hstep (hp.begun t hmem) hg
        exact Nat.lt_of_lt_of_le (hp.generation_lt t hmem i g hg') (hle i)

theorem Numbered.run (hp : p.Numbered) {as : List Action}
    (h : p.run as = some q) : q.Numbered :=
  run_induction h hp fun _ _ _ _ hp hstep => hp.step hstep

end Process

end FileDigest
