import FileDigest.Proofs.Process.Gates

/-!
# A process without the later use of a cache

Two processes side by side: in the second one, a cache is not configured any
more, and the operations on it that begin from then on do nothing. A run of the
first one is simulated by the run of the second in which these actions are left
out (`Process.Shadow.run`), and the operations begun before do the same in both.

An operation that has begun depends on nothing but the file system, the store
that it holds and whether its gate is free (`Task.step_congr`). The stores that
older operations hold are the same in both processes. The gates need not be, but
a gate that is held has a holder (`Process.Guarded`), and in the second process
fewer operations hold any; so one that is left out never keeps another one
waiting.
-/

namespace FileDigest

theorem Gate.enter_isSome {g g' : Gate} {size : SizeHint}
    (hserial : g'.requiresSerial size = g.requiresSerial size)
    (hheld : g'.held = true → g.held = true) (h : g.enter size ≠ none) :
    ∃ g₁, g'.enter size = some g₁ := by
  refine Option.ne_none_iff_exists'.1 fun hnone => h ?_
  obtain ⟨h₁, h₂⟩ := Gate.enter_eq_none_iff.1 hnone
  exact Gate.enter_eq_none_iff.2 ⟨hserial ▸ h₁, hheld h₂⟩

/-- What an operation does next depends on nothing but the file system, the
store that it holds, and whether its gate is free. -/
theorem Task.step_congr {view : FileView} {s s₁ s' : Site} {t t' : Task}
    (h : t.step view s = some (t', s₁)) (hbegun : t.Begun)
    (hstores : ∀ i g, t.generation? = some (i, g) →
      (s'.cache i).stores[g]? = (s.cache i).stores[g]?)
    (hthresholds : s.SameThresholds s')
    (hheld : ∀ i, (s'.gate i).held = true → (s.gate i).held = true) :
    ∃ s₁', t.step view s' = some (t', s₁') := by
  suffices ∃ s₁', Task.Step view s' t t' s₁' by
    obtain ⟨s₁', hstep'⟩ := this
    exact ⟨s₁', Task.step_eq_some_iff.2 hstep'⟩
  cases Task.step_eq_some_iff.1 h with
  | @computed r path size stage stage' s₁ hcall =>
      cases hcall with
      | taken hcurrent => exact absurd rfl hbegun
      | off hcurrent => exact absurd rfl hbegun
      | identified hstat => exact ⟨_, .computed (.identified hstat)⟩
      | unidentified hstat => exact ⟨_, .computed (.unidentified hstat)⟩
      | @hit slot d hfound =>
          rw [← Cache.getAt_fst_congr (hstores r.cache slot.store rfl)]
            at hfound
          exact ⟨_, .computed (.hit hfound)⟩
      | @miss slot hfound =>
          rw [← Cache.getAt_fst_congr (hstores r.cache slot.store rfl)]
            at hfound
          exact ⟨_, .computed (.miss hfound)⟩
      | entered hgate =>
          have hsome := Option.ne_none_iff_exists'.2 ⟨_, hgate⟩
          obtain ⟨g₁, hgate'⟩ :=
            Gate.enter_isSome (hthresholds.requiresSerial r.gate size)
              (hheld r.gate) hsome
          exact ⟨_, .computed (.entered hgate')⟩
      | read => exact ⟨_, .computed .read⟩
      | left => exact ⟨_, .computed .left⟩
      | recorded => exact ⟨_, .computed .recorded⟩
      | stayed => exact ⟨_, .computed .stayed⟩
  | @looked i g k =>
      rw [← Cache.getAt_fst_congr (hstores i g rfl)]
      exact ⟨_, .looked⟩
  | lookedOff => exact ⟨s', .lookedOff⟩
  | inserted => exact ⟨_, .inserted⟩
  | insertedOff => exact ⟨s', .insertedOff⟩
  | stayed => exact ⟨s', .stayed⟩

/-- An action without what it does to a cache: the cache is not configured, and
in the place of an operation on it one begins that does nothing. -/
def Action.without (i : Nat) : Action → Option Action
  | .configure j n => if j = i then none else some (.configure j n)
  | .begin o => some (.begin (if o.cache = i then .inspect i else o))
  | a => some a

/-- The second site is as the first one would be, if a cache had not been
configured since it had the given number of generations, and nothing had been
done to the later ones. -/
structure Site.Shadow (i generations : Nat) (s s' : Site) : Prop where
  length_caches : s'.caches.length = s.caches.length
  length_gates : s'.gates.length = s.gates.length
  sameThresholds : s.SameThresholds s'
  cache_of_ne : ∀ j, j ≠ i → s'.cache j = s.cache j
  stores : ∀ g < generations, (s'.cache i).stores[g]? = (s.cache i).stores[g]?
  generations_le : generations ≤ (s.cache i).stores.length
  le_current : ∀ g, (s.cache i).current = some g → generations ≤ g

namespace Site

variable {i generations : Nat} {s s' : Site}

theorem Shadow.configure (hs : Shadow i generations s s') (capacity : UInt64) :
    Shadow i generations (s.configure i capacity) s' where
  length_caches := by rw [length_caches_configure, hs.length_caches]
  length_gates := hs.length_gates
  sameThresholds := hs.sameThresholds
  cache_of_ne j hj := by
    rw [hs.cache_of_ne j hj, cache_configure_of_ne s (Ne.symm hj)]
  stores g hg := by
    rw [hs.stores g hg]
    rcases cache_configure_cases s i i capacity with heq | heq
    · rw [heq,
        Cache.getElem?_configure _ _ (Nat.lt_of_lt_of_le hg hs.generations_le)]
    · rw [heq]
  generations_le := by
    refine Nat.le_trans hs.generations_le ?_
    rcases cache_configure_cases s i i capacity with heq | heq
    · rw [heq]
      exact Cache.length_stores_configure _ _
    · exact Nat.le_of_eq (congrArg (·.stores.length) heq.symm)
  le_current g hg := by
    rcases cache_configure_cases s i i capacity with heq | heq
    · rw [heq] at hg
      rw [(Cache.current_configure hg).1]
      exact hs.generations_le
    · rw [heq] at hg
      exact hs.le_current g hg

theorem Shadow.configure_of_ne (hs : Shadow i generations s s')
    {j : Nat} (hj : j ≠ i) (capacity : UInt64) :
    Shadow i generations (s.configure j capacity)
      (s'.configure j capacity) where
  length_caches := by rw [length_caches_configure, length_caches_configure,
    hs.length_caches]
  length_gates := hs.length_gates
  sameThresholds := hs.sameThresholds
  cache_of_ne k hk := by
    simp only [Site.configure, cache_report, cache_setCache, hs.length_caches,
      hs.cache_of_ne j hj, hs.cache_of_ne k hk]
  stores g hg := by
    rw [cache_configure_of_ne s hj, cache_configure_of_ne s' hj]
    exact hs.stores g hg
  generations_le := by
    rw [cache_configure_of_ne s hj]
    exact hs.generations_le
  le_current g hg := by
    rw [cache_configure_of_ne s hj] at hg
    exact hs.le_current g hg

theorem Shadow.step {view : FileView} {t t' : Task} {s₁ s₁' : Site}
    (hs : Shadow i generations s s') (h : t.step view s = some (t', s₁))
    (h' : t.step view s' = some (t', s₁')) :
    Shadow i generations s₁ s₁' where
  length_caches := by
    rw [Task.length_caches_step h, Task.length_caches_step h', hs.length_caches]
  length_gates := by
    rw [Task.length_gates_step h, Task.length_gates_step h', hs.length_gates]
  sameThresholds j := by
    rw [(Task.step_passage h').sameThresholds j,
      (Task.step_passage h).sameThresholds j, hs.sameThresholds j]
  cache_of_ne j hj := by
    rw [Task.step_cache h 0, Task.step_cache h' 0, hs.cache_of_ne j hj]
  stores g hg := by
    rw [Task.step_cache h 0, Task.step_cache h' 0]
    cases t.work? 0 with
    | none => exact hs.stores g hg
    | some w =>
        simp only [Option.elim_some, Work.on]
        split
        · rw [Access.getElem?_toGeneration, Access.getElem?_toGeneration,
            hs.stores g hg]
        · exact hs.stores g hg
  generations_le := by
    rw [Task.step_cache h 0]
    cases t.work? 0 with
    | none => exact hs.generations_le
    | some w => simpa using hs.generations_le
  le_current g hg := by
    rw [Task.step_cache h 0] at hg
    cases hw : t.work? 0 with
    | none =>
        rw [hw] at hg
        exact hs.le_current g hg
    | some w =>
        rw [hw, Option.elim_some, Work.current_on] at hg
        exact hs.le_current g hg

/-- The step of an operation that holds a newer generation of the cache, or
none, does not show in the second site. -/
theorem Shadow.step_newer {view : FileView} {t t' : Task} {s₁ : Site}
    (hs : Shadow i generations s s') (h : t.step view s = some (t', s₁))
    (hnew : ∀ k g, t.generation? = some (k, g) → k = i ∧ generations ≤ g) :
    Shadow i generations s₁ s' := by
  have hcache : ∀ j, j ≠ i → s₁.cache j = s.cache j := by
    intro j hj
    rw [Task.step_cache h 0]
    cases hw : t.work? 0 with
    | none => rfl
    | some w =>
        have hwi := (hnew _ _ (Task.generation?_of_work? hw).2).1
        rw [Option.elim_some, Work.on, if_neg (by rw [hwi]; exact Ne.symm hj)]
  have hstores : ∀ g < generations, (s₁.cache i).stores[g]? =
      (s.cache i).stores[g]? := by
    intro g hg
    rw [Task.step_cache h 0]
    cases hw : t.work? 0 with
    | none => rfl
    | some w =>
        obtain ⟨hwi, hle⟩ := hnew _ _ (Task.generation?_of_work? hw).2
        rw [Option.elim_some, Work.on, if_pos hwi, Access.getElem?_toGeneration,
          if_neg (by omega)]
  have hkept : (s₁.cache i).current = (s.cache i).current ∧
      (s₁.cache i).stores.length = (s.cache i).stores.length := by
    rw [Task.step_cache h 0]
    cases t.work? 0 <;> simp
  exact
    { length_caches := by rw [Task.length_caches_step h, hs.length_caches]
      length_gates := by rw [Task.length_gates_step h, hs.length_gates]
      sameThresholds := fun j => by
        rw [(Task.step_passage h).sameThresholds j, hs.sameThresholds j]
      cache_of_ne := fun j hj => by rw [hcache j hj, hs.cache_of_ne j hj]
      stores := fun g hg => by rw [hstores g hg, hs.stores g hg]
      generations_le := by
        rw [hkept.2]
        exact hs.generations_le
      le_current := fun g hg => hs.le_current g (hkept.1 ▸ hg) }

end Site

theorem Operation.begun_congr {s s' : Site} {o : Operation}
    (h : s'.cache o.cache = s.cache o.cache) :
    o.begun s' = o.begun s := by
  cases o with
  | compute r path size =>
      have h' : s'.cache r.cache = s.cache r.cache := h
      simp only [begun, Call.opened, h']
  | lookup j k =>
      have h' : s'.cache j = s.cache j := h
      simp only [begun, h']
  | insert j k d =>
      have h' : s'.cache j = s.cache j := h
      simp only [begun, h']
  | inspect j => rfl

namespace Process

/-- The second process stands where the first one stands, except that in it
a cache was not configured since it had the given number of generations,
and that operations on it begun since, which are numbered from `n` on, have
done nothing. -/
structure Shadow (i generations n : Nat) (p p' : Process) : Prop where
  view : p'.view = p.view
  site : Site.Shadow i generations p.site p'.site
  length_tasks : p'.tasks.length = p.tasks.length
  le_length : n ≤ p.tasks.length
  /-- An operation is either the same in both, and then holds none of the newer
  generations, or holds nothing else. -/
  task : ∀ j t, p.tasks[j]? = some t →
    (p'.tasks[j]? = some t ∧ ∀ g, t.generation? = some (i, g) →
      g < generations) ∨
      (n ≤ j ∧ p'.tasks[j]? = some (.ended none) ∧
        ∀ k g, t.generation? = some (k, g) → k = i ∧ generations ≤ g)

variable {i generations n : Nat} {p p' q : Process} {a : Action}
  {as : List Action}

theorem shadow_configure (hp : p.Numbered) {i : Nat}
    (hi : i < p.site.caches.length) (capacity : UInt64) :
    Shadow i (p.site.cache i).stores.length p.tasks.length
      { p with site := p.site.configure i capacity } p where
  view := rfl
  site :=
    { length_caches := (Site.length_caches_configure _ _ _).symm
      length_gates := rfl
      sameThresholds := fun _ => rfl
      cache_of_ne := fun j hj =>
        (Site.cache_configure_of_ne p.site (Ne.symm hj) capacity).symm
      stores := fun g hg => by
        rw [Site.cache_configure _ hi, Cache.getElem?_configure _ _ hg]
      generations_le := by
        rw [Site.cache_configure _ hi]
        exact Cache.length_stores_configure _ _
      le_current := fun g hg => by
        rw [Site.cache_configure _ hi] at hg
        exact Nat.le_of_eq (Cache.current_configure hg).1.symm }
  length_tasks := rfl
  le_length := Nat.le_refl _
  task j t ht :=
    Or.inl ⟨ht, fun g hg => hp.generation_lt t (List.mem_of_getElem? ht) i g hg⟩

theorem Shadow.held (hs : Shadow i generations n p p') (hp : p.Guarded)
    (hp' : p'.Guarded) (k : Nat) (h : (p'.site.gate k).held = true) :
    (p.site.gate k).held = true := by
  have hk : k < p'.site.gates.length := by
    rcases Nat.lt_or_ge k p'.site.gates.length with hk | hk
    · exact hk
    · rw [Site.gate, List.getElem?_eq_none hk] at h
      cases h
  obtain ⟨j, hj⟩ := (hp'.held_iff k hk).1 h
  refine (hp.held_iff k (hs.site.length_gates ▸ hk)).2 ⟨j, ?_⟩
  obtain ⟨t', ht', hholds⟩ := Option.bind_eq_some_iff.1 hj
  have hlt : j < p.tasks.length :=
    hs.length_tasks ▸ (List.getElem?_eq_some_iff.1 ht').1
  have ht := List.getElem?_eq_getElem hlt
  rcases hs.task j _ ht with ⟨hsame, -⟩ | ⟨-, hended, -⟩
  · rw [ht', Option.some.injEq] at hsame
    rw [holds, ht, Option.bind_some, ← hsame,
      ← Task.holds_congr hs.site.sameThresholds]
    exact hholds
  · rw [ht', Option.some.injEq] at hended
    rw [hended] at hholds
    cases hholds

theorem Shadow.stores_eq (hs : Shadow i generations n p p') {t : Task}
    (hold : ∀ g, t.generation? = some (i, g) → g < generations) {k g : Nat}
    (hg : t.generation? = some (k, g)) :
    (p'.site.cache k).stores[g]? = (p.site.cache k).stores[g]? := by
  by_cases hk : k = i
  · subst hk
    exact hs.site.stores g (hold g hg)
  · rw [hs.site.cache_of_ne k hk]

/-- An operation begins: on the cache, it does nothing in the second process. -/
theorem Shadow.begin (hs : Shadow i generations n p p') (o : Operation) :
    Shadow i generations n { p with tasks := p.tasks ++ [o.begun p.site] }
      { p' with
        tasks := p'.tasks ++
          [(if o.cache = i then .inspect i else o : Operation).begun p'.site]
            } where
  view := hs.view
  site := hs.site
  length_tasks := by simpa using hs.length_tasks
  le_length := Nat.le_trans hs.le_length (by simp)
  task j u hu := by
    rcases task_of_begin hu with hu | ⟨rfl, rfl⟩
    · have hj : j < p'.tasks.length :=
        hs.length_tasks ▸ (List.getElem?_eq_some_iff.1 hu).1
      rw [List.getElem?_append_left hj]
      exact hs.task j u hu
    · rw [← hs.length_tasks, List.getElem?_concat_length]
      by_cases ho : o.cache = i
      · rw [if_pos ho]
        refine Or.inr ⟨hs.length_tasks.symm ▸ hs.le_length, rfl,
          fun k g hg => ?_⟩
        obtain ⟨rfl, hcurrent⟩ := Operation.generation?_begun hg
        exact ⟨ho, hs.site.le_current g (ho ▸ hcurrent)⟩
      · rw [if_neg ho, Operation.begun_congr (hs.site.cache_of_ne o.cache ho)]
        refine Or.inl ⟨rfl, fun g hg => ?_⟩
        exact absurd (Operation.generation?_begun hg).1.symm ho

theorem Shadow.set (hs : Shadow i generations n p p') {j : Nat}
    {t t' : Task} {s s' : Site} (hsite : Site.Shadow i generations s s')
    (h : (t' = t ∧ ∀ g, t.generation? = some (i, g) → g < generations) ∨
      (n ≤ j ∧ t' = .ended none ∧
        ∀ k g, t.generation? = some (k, g) → k = i ∧ generations ≤ g)) :
    Shadow i generations n { p with site := s, tasks := p.tasks.set j t }
      { p' with site := s', tasks := p'.tasks.set j t' } where
  view := hs.view
  site := hsite
  length_tasks := by simpa using hs.length_tasks
  le_length := by simpa using hs.le_length
  task k u hu := by
    rcases task_of_advance hu with ⟨rfl, rfl⟩ | ⟨hjk, hu⟩
    · have hj : j < p'.tasks.length := by
        have hj := (List.getElem?_eq_some_iff.1 hu).1
        rw [List.length_set] at hj
        exact hs.length_tasks.symm ▸ hj
      rw [List.getElem?_set_self hj]
      rcases h with ⟨rfl, hold⟩ | ⟨hle, rfl, hnew⟩
      · exact Or.inl ⟨rfl, hold⟩
      · exact Or.inr ⟨hle, rfl, hnew⟩
    · rw [List.getElem?_set_ne hjk]
      exact hs.task k u hu

/-- An operation goes on: in the second process it takes the same step, or has
ended and stays so. -/
theorem Shadow.advance (hs : Shadow i generations n p p') (hn : p.Numbered)
    (hp : p.Guarded) (hp' : p'.Guarded) {j : Nat} {t t' : Task} {s : Site}
    (ht : p.tasks[j]? = some t) (hstep : t.step p.view p.site = some (t', s)) :
    ∃ q', p'.step (.advance j) = some q' ∧
      Shadow i generations n { p with site := s, tasks := p.tasks.set j t' }
        q' := by
  have hbegun := hn.begun t (List.mem_of_getElem? ht)
  have hgen : ∀ {k g}, t'.generation? = some (k, g) →
      t.generation? = some (k, g) :=
    fun h => Task.generation?_step hstep hbegun h
  rcases hs.task j t ht with ⟨ht', hold⟩ | ⟨hle, ht', hnew⟩
  · obtain ⟨s', hstep'⟩ := Task.step_congr hstep hbegun
      (fun k g hg => hs.stores_eq hold hg) hs.site.sameThresholds
        (hs.held hp hp')
    refine ⟨{ p' with site := s', tasks := p'.tasks.set j t' }, ?_, ?_⟩
    · simp only [Process.step, Process.advance, ht', hs.view, hstep',
        Option.map_some]
    · exact hs.set (hs.site.step hstep hstep')
        (Or.inl ⟨rfl, fun g hg => hold g (hgen hg)⟩)
  · refine ⟨{ p' with tasks := p'.tasks.set j (.ended none) }, ?_, ?_⟩
    · simp only [Process.step, Process.advance, ht', Task.step, Option.map_some]
    · exact hs.set (hs.site.step_newer hstep hnew)
        (Or.inr ⟨hle, rfl, fun k g hg => hnew k g (hgen hg)⟩)

/-- A run has a shadow: the run in which the cache is not configured and the
later operations on it do nothing. Each of its actions is possible. -/
theorem Shadow.run (hs : Shadow i generations n p p') (hn : p.Numbered)
    (hp : p.Guarded) (hp' : p'.Guarded) (h : p.run as = some q) :
    ∃ q', p'.run (as.filterMap (Action.without i)) = some q' ∧
      Shadow i generations n q q' := by
  induction as generalizing p p' with
  | nil =>
      cases h
      exact ⟨p', rfl, hs⟩
  | cons a as ih =>
      obtain ⟨m, hm, hrun⟩ := run_cons_eq_some.1 h
      -- either the action leaves no trace in the second process, or it has one
      -- there
      have hstep : (a.without i = none ∧ Shadow i generations n m p') ∨
          ∃ b m', a.without i = some b ∧ p'.step b = some m' ∧
          Shadow i generations n m m' := by
        rcases step_cases hm with ⟨view, rfl, rfl⟩ | ⟨j, capacity, rfl, rfl⟩ |
          ⟨o, rfl, rfl⟩ |
          ⟨j, t, t', s, rfl, ht, hstep, rfl⟩
        · exact Or.inr ⟨_, _, rfl, rfl, { hs with view := rfl }⟩
        · by_cases hj : j = i
          · subst hj
            exact Or.inl ⟨if_pos rfl,
              { hs with site := hs.site.configure capacity }⟩
          · have hs' : Shadow i generations n
                { p with site := p.site.configure j capacity }
                { p' with site := p'.site.configure j capacity } :=
              { hs with site := hs.site.configure_of_ne hj capacity }
            exact Or.inr ⟨_, _, if_neg hj, rfl, hs'⟩
        · exact Or.inr ⟨_, _, rfl, rfl, hs.begin o⟩
        · obtain ⟨m', hm', hs'⟩ := hs.advance hn hp hp' ht hstep
          exact Or.inr ⟨_, m', rfl, hm', hs'⟩
      rcases hstep with ⟨hnone, hs'⟩ | ⟨b, m', hsome, hm', hs'⟩
      · rw [List.filterMap_cons_none hnone]
        exact ih hs' (hn.step hm) (hp.step hm) hp' hrun
      · obtain ⟨q', hq', hsq⟩ :=
          ih hs' (hn.step hm) (hp.step hm) (hp'.step hm') hrun
        refine ⟨q', ?_, hsq⟩
        rw [List.filterMap_cons_some hsome]
        exact run_cons_eq_some.2 ⟨m', hm', hq'⟩

end Process

end FileDigest
