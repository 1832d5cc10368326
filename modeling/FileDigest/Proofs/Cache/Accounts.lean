import FileDigest.Proofs.Cache.Accesses
import Mathlib.Data.List.Induction

/-!
# The accounts of a cache

The counters of a cache are those of its store in use, and that is what the
operations begun since the cache was last configured make of a fresh one; a
cache counts as configured when it is made. So in a whole run the questions of
these operations are the hits and the misses, and the digests that they put in
under new keys are the entries and the evictions.

The counters have 64 bits. An operation asks at most once and puts in at most
once (`Task.MakesOnce`), so they are exact as long as fewer operations have
begun than 64 bits can count.
-/

namespace FileDigest

namespace Action

def configures? (i : Nat) : Action → Option UInt64
  | .configure j capacity => if j = i then some capacity else none
  | _ => none

def begins : Action → Bool
  | .begin _ => true
  | _ => false

theorem eq_configure_of_configures? {a : Action} {i : Nat} {capacity : UInt64}
    (h : a.configures? i = some capacity) :
    a = .configure i capacity := by
  cases a with
  | configure j n =>
      simp only [configures?] at h
      split at h
      · cases h
        rw [‹j = i›]
      · cases h
  | _ => cases h

theorem ne_configure_of_configures? {a : Action} {i : Nat}
    (h : a.configures? i = none) : ∀ capacity, a ≠ .configure i capacity := by
  rintro capacity rfl
  simp [configures?] at h

end Action

namespace Task

/-- An operation makes an access of a kind only while it may, and may not any
more after it. -/
def MakesOnce (kind : Access → Bool) (may : Task → Bool) : Prop :=
  ∀ (view : FileView) (s s' : Site) (t t' : Task) (j : Nat),
    t.step view s = some (t', s') →
    ((t.work? j).elim 0 fun w => (kind w.access).toNat) + (may t').toNat ≤
      (may t).toNat

def mayAsk : Task → Bool
  | computing c =>
      match c.stage with
      | .opening => true
      | .identifying _ => true
      | .consulting _ => true
      | _ => false
  | looking _ _ _ => true
  | _ => false

def mayPut : Task → Bool
  | computing c =>
      match c.stage with
      | .finished _ => false
      | _ => true
  | inserting _ _ _ _ => true
  | _ => false

theorem makesOnce_ask : MakesOnce Access.isAsk mayAsk := by
  intro view s s' t t' j h
  cases step_eq_some_iff.1 h with
  | computed hcall =>
      cases hcall with
      | @left slot answer =>
          cases answer with
          | error e => exact Nat.le_refl _
          | ok found => cases found <;> cases slot <;> exact Nat.le_refl _
      | _ => simp [work?, mayAsk]
  | _ => simp [work?, mayAsk]

theorem makesOnce_put : MakesOnce (fun a => !a.isAsk) mayPut := by
  intro view s s' t t' j h
  cases step_eq_some_iff.1 h with
  | computed hcall =>
      cases hcall with
      | @left slot answer => simpa [work?, mayPut] using Bool.toNat_le _
      | _ => simp [work?, mayPut]
  | _ => simp [work?, mayPut]

end Task

namespace Process

/-- The capacity that a cache was given last, when it was made or in the
course of a run. A cache that was made without one is off, as with a
capacity of zero. -/
def lastCapacity (i : Nat) (made : Option UInt64) (as : List Action) : UInt64 :=
  (as.reverse.findSome? (Action.configures? i)).getD (made.getD 0)

/-- How many operations had begun when a cache was configured last. -/
def begunBefore (i : Nat) (as : List Action) : Nat :=
  (as.reverse.dropWhile fun a => (a.configures? i).isNone).countP Action.begins

variable {p q : Process} {a : Action} {as : List Action}

theorem lastCapacity_concat (i : Nat) (made : Option UInt64) (as : List Action)
    (a : Action) :
    lastCapacity i made (as ++ [a]) =
      (a.configures? i).getD (lastCapacity i made as) := by
  cases h : a.configures? i <;> simp [lastCapacity, h]

theorem begunBefore_concat (i : Nat) (as : List Action) (a : Action) :
    begunBefore i (as ++ [a]) =
      if (a.configures? i).isNone then begunBefore i as
        else as.countP Action.begins := by
  cases h : a.configures? i with
  | none => simp [begunBefore, h]
  | some n =>
      have ha : a.begins = false := by
        rw [Action.eq_configure_of_configures? h]
        rfl
      simp [begunBefore, h, ha]

theorem length_tasks_run (h : p.run as = some q) :
    q.tasks.length = p.tasks.length + as.countP Action.begins := by
  induction as generalizing p with
  | nil =>
      cases h
      rfl
  | cons a as ih =>
      obtain ⟨m, hm, hrun⟩ := run_cons_eq_some.1 h
      rw [ih hrun, List.countP_cons]
      rcases step_cases hm with ⟨view, rfl, rfl⟩ | ⟨j, n, rfl, rfl⟩ |
        ⟨o, rfl, rfl⟩ |
        ⟨j, t, t', s, rfl, ht, hstep, rfl⟩ <;> simp [Action.begins]
      omega

theorem works_append {m : Process} (h : p.run as = some m) (bs : List Action) :
    p.works (as ++ bs) = p.works as ++ m.works bs := by
  induction as generalizing p with
  | nil =>
      cases h
      rfl
  | cons a as ih =>
      obtain ⟨m', hm', hrun⟩ := run_cons_eq_some.1 h
      rw [List.cons_append, works_cons, works_cons, hm']
      simp only [Option.elim_some, ih hrun, List.append_assoc]

theorem works_concat {m : Process} (h : p.run as = some m) (a : Action) :
    p.works (as ++ [a]) = p.works as ++ (m.work? a).toList := by
  rw [works_append h, works_cons]
  cases m.step a <;> simp [works]

theorem task_lt_of_mem_works (h : p.run as = some q) {w : Work}
    (hw : w ∈ p.works as) : w.task < q.tasks.length := by
  obtain ⟨bs, a, cs, m, rfl, hm, hwork⟩ := mem_works hw
  obtain ⟨m', hm', hrest⟩ := run_append_eq_some.1 h
  cases hm.symm.trans hm'
  obtain ⟨-, t, ht, -, -⟩ := work?_eq_some hwork
  have hlt := (List.getElem?_eq_some_iff.1 ht).1
  have hlength := length_tasks_run hrest
  omega

theorem accessesFrom_eq_nil {i n : Nat} {ws : List Work}
    (h : ∀ w ∈ ws, w.task < n) : Work.accessesFrom i n ws = [] := by
  refine List.filterMap_eq_nil_iff.2 fun w hw => ?_
  have hlt := h w hw
  rw [if_neg]
  omega

theorem accessesFrom_append (i n : Nat) (ws vs : List Work) :
    Work.accessesFrom i n (ws ++ vs) = Work.accessesFrom i n ws ++
      Work.accessesFrom i n vs :=
  List.filterMap_append

theorem since_start (caches : List (Option UInt64)) (thresholds : List UInt64)
    (view : FileView) (i : Nat) :
    (start caches thresholds view).Since i 0 where
  le_length := Nat.zero_le _
  holds_iff j t g ht := by simp [start] at ht

theorem inUse_start (caches : List (Option UInt64)) (thresholds : List UInt64)
    (view : FileView) {i : Nat} {made : Option UInt64}
    (hi : caches[i]? = some made) :
    ((start caches thresholds view).site.cache i).inUse =
      (Cache.ofCapacity (made.getD 0)).inUse := by
  have hcache : (start caches thresholds view).site.cache i =
      Site.newCache made := by
    simp [start, Site.cache, Site.caches_fresh, hi]
  rw [hcache]
  cases made <;> rfl

/-- The store in use after a run is what the accesses of the operations begun
since the last configuration make of a fresh one. The induction is on the run
from its end, since it is the last configuration that counts. -/
theorem inUse_run (caches : List (Option UInt64)) (thresholds : List UInt64)
    (view : FileView) {i : Nat} {made : Option UInt64}
    (hi : caches[i]? = some made)
    (h : (start caches thresholds view).run as = some p) :
    p.Since i (begunBefore i as) ∧
      (p.site.cache i).inUse =
        ((Cache.ofCapacity (lastCapacity i made as)).afterAccesses
        (Work.accessesFrom i (begunBefore i as)
          ((start caches thresholds view).works as))).inUse := by
  induction as using List.reverseRecOn generalizing p with
  | nil =>
      cases h
      exact ⟨since_start caches thresholds view i,
        inUse_start caches thresholds view hi⟩
  | append_singleton as a ih =>
      obtain ⟨m, hm, hstep⟩ := run_concat_eq_some.1 h
      obtain ⟨hsince, hinUse⟩ := ih hm
      have hn : m.Numbered := (numbered_start caches thresholds view).run hm
      rw [lastCapacity_concat, begunBefore_concat, works_concat hm]
      cases hconf : a.configures? i with
      | some n =>
          obtain rfl := Action.eq_configure_of_configures? hconf
          have hlength : m.tasks.length = as.countP Action.begins := by
            simpa [start] using length_tasks_run hm
          have hlt : i < m.site.caches.length := by
            rw [length_caches_run hm, start, Site.caches_fresh, List.length_map]
            exact (List.getElem?_eq_some_iff.1 hi).1
          cases hstep
          have hnone : m.work? (.configure i n) = none := rfl
          rw [if_neg (by simp), ← hlength, hnone, Option.toList_none,
            List.append_nil, accessesFrom_eq_nil fun w hw =>
              task_lt_of_mem_works hm hw]
          refine ⟨since_configure hn hlt n, ?_⟩
          change ((m.site.configure i n).cache i).inUse =
            (Cache.ofCapacity n).inUse
          rw [Site.cache_configure _ hlt, Cache.ofCapacity,
            Cache.inUse_configure, Cache.inUse_configure]
      | none =>
          have ha := Action.ne_configure_of_configures? hconf
          rw [if_pos Option.isNone_none, Option.getD_none, accessesFrom_append]
          refine ⟨hsince.step hn hstep ha, ?_⟩
          rw [hsince.inUse_step hstep ha hinUse, Cache.afterAccesses,
            Cache.afterAccesses, Cache.afterAccesses, List.foldl_append]

def allowed (may : Task → Bool) (p : Process) : Nat :=
  (p.tasks.map fun t => (may t).toNat).sum

section Bound

variable {kind : Access → Bool} {may : Task → Bool}

theorem countP_work_le (hmay : Task.MakesOnce kind may)
    (h : p.step a = some q) :
    (p.work? a).toList.countP (fun w => kind w.access) + q.allowed may +
      p.tasks.length ≤
      p.allowed may + q.tasks.length := by
  rcases step_cases h with ⟨view, rfl, rfl⟩ | ⟨j, n, rfl, rfl⟩ | ⟨o, rfl, rfl⟩ |
    ⟨j, t, t', s, rfl, ht, hstep, rfl⟩
  · simp [work?, allowed]
  · simp [work?, allowed]
  · have hone : (may (o.begun p.site)).toNat ≤ 1 := Bool.toNat_le _
    simp only [work?, allowed, Option.toList_none, List.countP_nil,
      List.map_append, List.sum_append, List.map_singleton, List.sum_singleton,
      List.length_append, List.length_singleton]
    omega
  · have hone := hmay p.view p.site s t t' j hstep
    have hset := sum_map_set (fun t => (may t).toNat) ht t'
    have hwork : (p.work? (.advance j)).toList.countP (fun w => kind w.access) =
        (t.work? j).elim 0 fun w => (kind w.access).toNat := by
      simp only [work?, ht, Option.bind_some]
      cases t.work? j with
      | none => rfl
      | some w => exact (countP_cons_toNat _ w []).trans (Nat.zero_add _)
    simp only [hwork, allowed, List.length_set]
    omega

theorem countP_works_le (hmay : Task.MakesOnce kind may)
    (h : p.run as = some q) :
    (p.works as).countP (fun w => kind w.access) + q.allowed may +
      p.tasks.length ≤
      p.allowed may + q.tasks.length := by
  induction as generalizing p with
  | nil =>
      cases h
      simp [works]
  | cons a as ih =>
      obtain ⟨m, hm, hrun⟩ := run_cons_eq_some.1 h
      have hone := countP_work_le hmay hm
      have hrest := ih hrun
      rw [works_cons, hm, List.countP_append, Option.elim_some]
      omega

theorem countP_accessesFrom_le (hmay : Task.MakesOnce kind may)
    {caches : List (Option UInt64)} {thresholds : List UInt64} {view : FileView}
    (h : (start caches thresholds view).run as = some p) (i n : Nat) :
    (Work.accessesFrom i n ((start caches thresholds view).works as)).countP
      kind ≤
      p.tasks.length := by
  have hworks := countP_works_le hmay h
  have hle : ∀ ws : List Work, (Work.accessesFrom i n ws).countP kind ≤
      ws.countP fun w => kind w.access := by
    intro ws
    rw [Work.accessesFrom, List.countP_filterMap]
    refine List.countP_mono_left fun w hw hkind => ?_
    split at hkind <;> simp_all
  have hstart : (start caches thresholds view).allowed may = 0 := rfl
  have hnone : (start caches thresholds view).tasks.length = 0 := rfl
  have hone := hle ((start caches thresholds view).works as)
  omega

end Bound

/-- In every reachable state a cache is on, and has counters, exactly when it
was last given room for an entry. Then its store is what the operations begun
since have made of a fresh one: the entries are under different keys and within
the capacity, every question was counted once, and every digest that was put in
under a new key is there or was counted as pushed out. -/
theorem accounts_balance (caches : List (Option UInt64))
    (thresholds : List UInt64) (view : FileView) {as : List Action}
    {p : Process} {i : Nat} {made : Option UInt64} (hi : caches[i]? = some made)
    (h : (start caches thresholds view).run as = some p)
    (hcount : p.tasks.length < wordLimit) :
    let cache := p.site.cache i
    let capacity := lastCapacity i made as
    let accesses :=
      Work.accessesFrom i (begunBefore i as)
        ((start caches thresholds view).works as)
    (cache.isEnabled = true ↔ capacity ≠ 0) ∧
    ((∃ counters, cache.stats = .ok counters) ↔ capacity ≠ 0) ∧
    ∀ s, cache.inUse = some s →
      s = (Store.empty capacity.toNat).after accesses ∧
      cache.maxEntries = some capacity.toNat ∧ Recency.Distinct s.entries ∧
      cache.entryCount ≤ capacity.toNat ∧
      ∃ counters, cache.stats = .ok counters ∧
        counters.hits.toNat + counters.misses.toNat =
          accesses.countP Access.isAsk ∧
        counters.evictions.toNat + cache.entryCount =
          (Store.empty capacity.toNat).additions accesses := by
  intro cache capacity accesses
  have hinUse : cache.inUse =
      if capacity = 0 then none
      else some ((Store.empty capacity.toNat).after accesses) := by
    rw [(inUse_run caches thresholds view hi h).2, Cache.inUse_afterAccesses,
      Cache.ofCapacity, Cache.inUse_configure]
    split <;> rfl
  have hasks : accesses.countP Access.isAsk < wordLimit :=
    Nat.lt_of_le_of_lt (countP_accessesFrom_le Task.makesOnce_ask h i _) hcount
  have hputs : (accesses.countP fun a => !a.isAsk) < wordLimit :=
    Nat.lt_of_le_of_lt (countP_accessesFrom_le Task.makesOnce_put h i _) hcount
  by_cases hoff : capacity = 0
  · rw [if_pos hoff] at hinUse
    simp [Cache.isEnabled, Cache.stats, hinUse, hoff]
  · rw [if_neg hoff] at hinUse
    refine ⟨by simp [Cache.isEnabled, hinUse, hoff], by
      simp [Cache.stats, hinUse, hoff], ?_⟩
    intro s hs
    cases hinUse.symm.trans hs
    have htidy := (Store.tidy_empty capacity.toNat).after accesses
    have hstats := Store.stats_after capacity.toNat hasks hputs
    refine ⟨rfl, ?_, htidy.distinct, ?_, _, by
      rw [Cache.stats, hinUse], hstats.1, ?_⟩
    · rw [Cache.maxEntries, hinUse, Option.map_some, Store.capacity_after]
      rfl
    · rw [Cache.entryCount, hinUse]
      simpa [Store.empty] using htidy.length_le
    · rw [Cache.entryCount, hinUse]
      exact hstats.2

/-- A cache is given room for one digest while it is in use. Of what is done
since, a computation misses and puts its digest in, another digest pushes that
one out, takes the place of itself and is found. -/
theorem accounts_balance_replaced :
    let a : CacheKey := ⟨.ofText "a", ⟨1, .epoch, 0⟩⟩
    let b : CacheKey := ⟨.ofText "b", ⟨2, .epoch, 0⟩⟩
    let compute : Operation := .compute ⟨0, 0⟩ (.ofText "a") .unknown
    let as : List Action :=
      [.begin (.insert 0 a [7]), .advance 0, .configure 0 1, .begin compute] ++
      List.replicate 6 (.advance 1) ++ [.begin (.insert 0 b [8]), .advance 2,
        .begin (.insert 0 b [9]), .advance 3, .begin (.lookup 0 b), .advance 4]
    ∃ p counters, (start [some 3] [] (.ofNode 1)).run as = some p ∧
      (p.site.cache 0).stats = .ok counters ∧
      counters.hits.toNat + counters.misses.toNat = 2 ∧
      counters.evictions.toNat + (p.site.cache 0).entryCount = 2 := by
  intro a b compute as
  have hrun : ((start [some 3] [] (.ofNode 1)).run as).isSome = true := by
    decide
  obtain ⟨p, hp⟩ := Option.isSome_iff_exists.1 hrun
  have hcount : p.tasks.length < wordLimit := by
    rw [length_tasks_run hp]
    decide
  obtain ⟨hon, -, hin⟩ := accounts_balance [some 3] [] (.ofNode 1)
    (i := 0) rfl hp hcount
  have henabled : (p.site.cache 0).isEnabled = true := hon.2 (by decide)
  obtain ⟨s, hs⟩ := Option.isSome_iff_exists.1 henabled
  obtain ⟨-, -, -, -, counters, hstats, hasked, hadded⟩ := hin s hs
  exact ⟨p, counters, hp, hstats, hasked.trans (by decide),
    hadded.trans (by decide)⟩

end Process

end FileDigest
