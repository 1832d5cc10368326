import FileDigest.Proofs.Cache.Transparency
import FileDigest.Proofs.Process.Shadow

/-!
# Generations do not mix

Configuring a cache puts a fresh store into use while operations may still be
under way on the store before. Each operation keeps to the store that it took
when it began. So the store in use is at any time what the accesses of the
operations begun since make of a fresh one, and the operations begun before go
on as if neither the configuration nor any later operation on the cache had
happened.

The first is an induction over the run after the configuration: the operations
that hold the store in use are those numbered from a bound on (`Process.Since`).
The second is the simulation between the run and the one with these left out
(`Process.Shadow`).
-/

namespace FileDigest

def Cache.afterAccesses (c : Cache) (as : List Access) : Cache :=
  as.foldl (fun c a => a.toCache c) c

/-- What the operations numbered from a bound on have done to the stores of a
cache. -/
def Work.accessesFrom (i n : Nat) (ws : List Work) : List Access :=
  ws.filterMap fun w => if w.cache = i ∧ n ≤ w.task then some w.access else none

namespace Process

variable {p q : Process} {a : Action} {as : List Action}

/-- A generation that an operation holds after an action was held before, or the
operation has just begun and the generation was in use. -/
theorem generation?_origin_step (hp : p.Numbered) (h : p.step a = some q)
    {j : Nat} {t : Task} {i g : Nat} (ht : q.tasks[j]? = some t)
    (hg : t.generation? = some (i, g)) :
    (∃ t₀, p.tasks[j]? = some t₀ ∧ t₀.generation? = some (i, g)) ∨
      ∃ o, a = .begin o ∧ o.cache = i ∧ p.tasks.length = j ∧
        (p.site.cache i).current = some g := by
  rcases step_cases h with ⟨view, rfl, rfl⟩ | ⟨k, n, rfl, rfl⟩ | ⟨o, rfl, rfl⟩ |
    ⟨k, t₁, t', s, rfl, ht₁, hstep, rfl⟩
  · exact Or.inl ⟨t, ht, hg⟩
  · exact Or.inl ⟨t, ht, hg⟩
  · rcases task_of_begin ht with ht | ⟨rfl, rfl⟩
    · exact Or.inl ⟨t, ht, hg⟩
    · obtain ⟨hcache, hcurrent⟩ := Operation.generation?_begun hg
      exact Or.inr ⟨o, rfl, hcache.symm, rfl, hcurrent⟩
  · rcases task_of_advance ht with ⟨rfl, rfl⟩ | ⟨-, ht⟩
    · have hbegun := hp.begun t₁ (List.mem_of_getElem? ht₁)
      exact Or.inl ⟨t₁, ht₁, Task.generation?_step hstep hbegun hg⟩
    · exact Or.inl ⟨t, ht, hg⟩

/-- The operation with a number took a generation of a cache when it began in
the course of a run. -/
def Took (p : Process) (as : List Action) (j i g : Nat) : Prop :=
  ∃ bs o cs m, as = bs ++ .begin o :: cs ∧ p.run bs = some m ∧
    m.tasks.length = j ∧
    o.cache = i ∧ (m.site.cache i).current = some g

theorem Took.cons {m : Process} (hstep : p.step a = some m) {j i g : Nat}
    (h : m.Took as j i g) :
    p.Took (a :: as) j i g := by
  obtain ⟨bs, o, cs, m', rfl, hbs, hm'⟩ := h
  exact ⟨a :: bs, o, cs, m', rfl, run_cons_eq_some.2 ⟨m, hstep, hbs⟩, hm'⟩

theorem Took.append {j i g : Nat} (h : p.Took as j i g) (cs : List Action) :
    p.Took (as ++ cs) j i g := by
  obtain ⟨bs, o, cs', m, rfl, hm⟩ := h
  exact ⟨bs, o, cs' ++ cs, m, by simp, hm⟩

theorem generation?_origin (hp : p.Numbered) (h : p.run as = some q)
    {j : Nat} {t : Task} {i g : Nat} (ht : q.tasks[j]? = some t)
    (hg : t.generation? = some (i, g)) :
    (∃ t₀, p.tasks[j]? = some t₀ ∧ t₀.generation? = some (i, g)) ∨
    p.Took as j i g := by
  induction as generalizing p with
  | nil =>
      cases h
      exact Or.inl ⟨t, ht, hg⟩
  | cons a as ih =>
      obtain ⟨m, hm, hrun⟩ := run_cons_eq_some.1 h
      rcases ih (hp.step hm) hrun with ⟨t₁, ht₁, hg₁⟩ | htook
      · rcases generation?_origin_step hp hm ht₁ hg₁ with h₀ |
          ⟨o, rfl, hi, hj, hcurrent⟩
        · exact Or.inl h₀
        · exact Or.inr ⟨[], o, as, p, rfl, rfl, hj, hi, hcurrent⟩
      · exact Or.inr (htook.cons hm)

theorem works_origin (hp : p.Numbered) {w : Work} (hw : w ∈ p.works as) :
    (∃ t₀, p.tasks[w.task]? = some t₀ ∧ t₀.generation? =
      some (w.cache, w.store)) ∨
      p.Took as w.task w.cache w.store := by
  obtain ⟨bs, a, cs, m, rfl, hm, hwork⟩ := mem_works hw
  obtain ⟨-, t, ht, -, hg⟩ := work?_eq_some hwork
  rcases generation?_origin hp hm ht hg with h₀ | htook
  · exact Or.inl h₀
  · exact Or.inr (htook.append (a :: cs))

/-- The operations that hold the store in use of a cache are those from a number
on. -/
structure Since (p : Process) (i n : Nat) : Prop where
  le_length : n ≤ p.tasks.length
  holds_iff : ∀ j t g, p.tasks[j]? = some t → t.generation? = some (i, g) →
    (n ≤ j ↔ (p.site.cache i).current = some g)

theorem current_step (h : p.step a = some q) {i : Nat}
    (ha : ∀ n, a ≠ .configure i n) :
    (q.site.cache i).current = (p.site.cache i).current := by
  rw [step_cache h ha]
  cases p.work? a <;> simp

theorem length_tasks_step (h : p.step a = some q) :
    p.tasks.length ≤ q.tasks.length := by
  rcases step_cases h with ⟨view, rfl, rfl⟩ | ⟨k, n, rfl, rfl⟩ | ⟨o, rfl, rfl⟩ |
    ⟨k, t₁, t', s, rfl, ht₁, hstep, rfl⟩ <;> simp

theorem Since.step {i n : Nat} (hs : p.Since i n) (hp : p.Numbered)
    (h : p.step a = some q) (ha : ∀ n, a ≠ .configure i n) :
    q.Since i n where
  le_length := Nat.le_trans hs.le_length (length_tasks_step h)
  holds_iff j t g ht hg := by
    rw [current_step h ha]
    rcases generation?_origin_step hp h ht hg with ⟨t₀, ht₀, hg₀⟩ |
      ⟨o, -, -, hj, hcurrent⟩
    · exact hs.holds_iff j t₀ g ht₀ hg₀
    · have hn : n ≤ j := hj ▸ hs.le_length
      simp [hn, hcurrent]

theorem since_configure (hp : p.Numbered) {i : Nat}
    (hi : i < p.site.caches.length) (capacity : UInt64) :
    ({ p with site := p.site.configure i capacity } : Process).Since i
      p.tasks.length where
  le_length := Nat.le_refl _
  holds_iff j t g ht hg := by
    have hj : j < p.tasks.length := (List.getElem?_eq_some_iff.1 ht).1
    have hlt := hp.generation_lt t (List.mem_of_getElem? ht) i g hg
    constructor
    · intro hle
      omega
    · intro hcurrent
      change ((p.site.configure i capacity).cache i).current =
        some g at hcurrent
      rw [Site.cache_configure _ hi] at hcurrent
      have hg' := (Cache.current_configure hcurrent).1
      omega

/-- The store in use after an action, when the cache is not configured: it
changes by the accesses of the operations that hold it, and so does another
cache whose store in use is the same. -/
theorem Since.inUse_step {i n : Nat} (hs : p.Since i n) (h : p.step a = some q)
    (ha : ∀ n, a ≠ .configure i n) {c : Cache}
    (hc : (p.site.cache i).inUse = c.inUse) :
    (q.site.cache i).inUse =
      (c.afterAccesses (Work.accessesFrom i n (p.work? a).toList)).inUse := by
  rw [step_cache h ha]
  cases hw : p.work? a with
  | none => exact hc
  | some w =>
      obtain ⟨-, t, ht, -, hg⟩ := work?_eq_some hw
      change (w.on i (p.site.cache i)).inUse = _
      unfold Work.on
      by_cases hi : w.cache = i
      · rw [if_pos hi, Access.inUse_toGeneration]
        rw [hi] at hg
        have hiff := hs.holds_iff w.task t w.store ht hg
        by_cases hn : n ≤ w.task
        · have hacc : Work.accessesFrom i n [w] = [w.access] := by
            simp [Work.accessesFrom, hi, hn]
          rw [if_pos (hiff.1 hn), hc]
          change _ = (c.afterAccesses (Work.accessesFrom i n [w])).inUse
          rw [hacc]
          exact (Access.inUse_toCache w.access c).symm
        · rw [if_neg fun hcurrent => hn (hiff.2 hcurrent), hc]
          simp [Work.accessesFrom, hn, Cache.afterAccesses]
      · rw [if_neg hi, hc]
        simp [Work.accessesFrom, hi, Cache.afterAccesses]

theorem Since.inUse_run {i n : Nat} (hs : p.Since i n) (hp : p.Numbered)
    (h : p.run as = some q) (has : ∀ m, .configure i m ∉ as) {c : Cache}
    (hc : (p.site.cache i).inUse = c.inUse) :
    (q.site.cache i).inUse =
      (c.afterAccesses (Work.accessesFrom i n (p.works as))).inUse := by
  induction as generalizing p c with
  | nil =>
      cases h
      exact hc
  | cons a as ih =>
      obtain ⟨m, hm, hrun⟩ := run_cons_eq_some.1 h
      have ha : ∀ n, a ≠ .configure i n := by
        rintro n rfl
        exact has n List.mem_cons_self
      have hstep := hs.inUse_step hm ha hc
      have hrest := ih (hs.step hp hm ha) (hp.step hm) hrun
        (fun n hn => has n (List.mem_cons_of_mem a hn)) hstep
      rw [hrest, works_cons, hm, Work.accessesFrom, Work.accessesFrom,
        Work.accessesFrom, List.filterMap_append, Cache.afterAccesses,
        Cache.afterAccesses, Cache.afterAccesses, List.foldl_append]
      rfl

/-- After any run a cache is configured, and the run goes on. Every access of
the whole run is one to the generation that the operation took when it began.
Unless the cache is configured again, its store in use is what the accesses of
the operations begun since make of a fresh one. And every operation begun before
ends as in the run without the configuration and without what was done to the
cache by later operations. -/
theorem generations_isolated (caches : List (Option UInt64))
    (thresholds : List UInt64) (view : FileView) {before as : List Action}
    {p q : Process} {i : Nat} {capacity : UInt64} (hi : i < caches.length)
    (hp : (start caches thresholds view).run before = some p)
    (h : p.run (.configure i capacity :: as) = some q) :
    (∀ w ∈ (start caches thresholds view).works
      (before ++ .configure i capacity :: as),
        (start caches thresholds view).Took
          (before ++ .configure i capacity :: as) w.task w.cache w.store) ∧
    ((∀ m, .configure i m ∉ as) →
      (q.site.cache i).inUse =
        ((Cache.ofCapacity capacity).afterAccesses
          (Work.accessesFrom i p.tasks.length
            (p.works (.configure i capacity :: as)))).inUse) ∧
    ∃ q', p.run (as.filterMap (Action.without i)) = some q' ∧
      ∀ j < p.tasks.length, q'.tasks[j]? = q.tasks[j]? := by
  have hn : p.Numbered := (numbered_start caches thresholds view).run hp
  have hguard : p.Guarded := (guarded_start caches thresholds view).run hp
  have hlength : i < p.site.caches.length := by
    rw [length_caches_run hp, start, Site.caches_fresh, List.length_map]
    exact hi
  have hrun : ({ p with site := p.site.configure i capacity } : Process).run
      as = some q := by
    simpa [run_cons, Process.step] using h
  have hn' := hn.step (a := .configure i capacity) rfl
  have hguard' := hguard.step (a := .configure i capacity) rfl
  refine ⟨?_, ?_, ?_⟩
  · intro w hw
    rcases works_origin (numbered_start caches thresholds view) hw with
      ⟨t, ht, -⟩ | htook
    · cases ht
    · exact htook
  · intro has
    refine (since_configure hn hlength capacity).inUse_run hn' hrun has ?_
    change ((p.site.configure i capacity).cache i).inUse = _
    rw [Site.cache_configure _ hlength, Cache.ofCapacity, Cache.inUse_configure,
      Cache.inUse_configure]
  · obtain ⟨q', hq', hs⟩ :=
      (shadow_configure hn hlength capacity).run hn' hguard' hguard hrun
    refine ⟨q', hq', fun j hj => ?_⟩
    have hjq : j < q.tasks.length := Nat.lt_of_lt_of_le hj hs.le_length
    rcases hs.task j _ (List.getElem?_eq_getElem hjq) with
      ⟨hsame, -⟩ | ⟨hle, -, -⟩
    · rw [hsame, List.getElem?_eq_getElem hjq]
    · omega

/-- A computation begins on one store and is still under way when the cache is
configured with the same capacity: it puts its digest into the store it took,
and the store in use stays empty. -/
theorem generations_isolated_straddling :
    let c : Operation := .compute ⟨0, 0⟩ (.ofText "a") .unknown
    let s := start [some 2] [] (.ofNode 1)
    let later := List.replicate 5 (Action.advance 0)
    ∃ p q, s.run [.begin c, .advance 0] = some p ∧
    p.run (.configure 0 2 :: later) = some q ∧
      (q.site.cache 0).inUse = some (Store.empty 2) ∧
      ∃ q', p.run later = some q' ∧ q'.tasks[0]? = q.tasks[0]? := by
  intro c s later
  have hisolated := @generations_isolated [some 2] [] (.ofNode 1) [.begin c,
    .advance 0] later
    _ _ 0 2 (by decide) rfl rfl
  refine ⟨_, _, rfl, rfl, ?_⟩
  obtain ⟨-, hfresh, q', hq', htasks⟩ := hisolated
  refine ⟨?_, q', hq', htasks 0 (by decide)⟩
  have hlater : ∀ m, Action.configure 0 m ∉ later := by
    intro m hm
    cases List.eq_of_mem_replicate hm
  rw [hfresh hlater]
  rfl

end Process

end FileDigest
