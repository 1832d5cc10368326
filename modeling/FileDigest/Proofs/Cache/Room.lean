import FileDigest.Proofs.Cache.Agreement

/-!
# Threads with room for every key

With room for all keys that the threads ask for nothing is ever pushed out of
their store. Then a key that a thread has missed is in the store, or the thread
still owes it and will put it in before it looks anything up again
(`Thread.Kept.pending`). So no thread misses a key twice, and since what is in
the store was put in by a thread that had missed it, each key that is asked for
was missed by at least one thread and by at most as many as ask for it.
-/

namespace FileDigest

open Recency

namespace Thread

/-- The computation under way has missed a key, and has not put anything in
under it yet. -/
def Owes (status : Path → FileStatus) (t : Thread) (k : CacheKey) : Prop :=
  ∃ job stage, t.current = some (job, stage) ∧ stage.missed = true ∧
    (job.key status == k) = true

def HasMissed (t : Thread) (k : CacheKey) : Prop :=
  ∃ j ∈ t.missed, (j == k) = true

/-- What a thread has done to a store that loses nothing. -/
structure Kept (status : Path → FileStatus) (st : Store)
    (t : Thread) : Prop where
  returned : ∀ x ∈ t.returned, has (x.1.key status) st.entries = true
  pending : ∀ k ∈ t.missed, has k st.entries = true ∨ t.Owes status k
  once : t.missed.Pairwise fun j k => (j == k) = false
  owed : ∀ k, t.Owes status k → t.HasMissed k

variable {status : Path → FileStatus} {digest : Path → Digest} {jobs : List Job}
  {t t' : Thread} {st st' : Store}

theorem variety_keys_le {entries : List (CacheKey × Digest)}
    (h : ∀ e ∈ entries, Stored status digest jobs e.1 e.2) :
    CacheKey.variety (keys entries) ≤
      CacheKey.variety (jobs.map (Job.key status)) := by
  refine CacheKey.variety_mono fun k hk => ?_
  obtain ⟨e, he, rfl⟩ := List.mem_map.1 hk
  obtain ⟨job, hjob, hkey, -⟩ := h e he
  exact ⟨job.key status, List.mem_map_of_mem hjob, hkey⟩

/-- With room for all keys an insertion pushes nothing out. -/
theorem entries_insert_of_room (htidy : st.Tidy)
    (hst : st.All (Stored status digest jobs))
    (hroom : CacheKey.variety (jobs.map (Job.key status)) ≤ st.capacity)
    {job : Job} (hjob : job ∈ jobs) :
    (st.insert (job.key status) (digest job.path)).entries =
      put (job.key status) (digest job.path) st.entries := by
  refine List.take_of_length_le (Nat.le_trans ?_ hroom)
  rw [CacheKey.length_eq_variety (distinct_put htidy.distinct _ _)]
  refine @variety_keys_le status digest jobs _ fun e he => ?_
  rcases mem_put he with rfl | he
  · exact stored_key hjob
  · exact hst e he

theorem Kept.mono (h : ∀ k, has k st.entries = true → has k st'.entries = true)
    (ht : t.Kept status st) : t.Kept status st' where
  returned x hx := h _ (ht.returned x hx)
  pending k hk := (ht.pending k hk).imp_left (h k)
  once := ht.once
  owed := ht.owed

theorem kept_start (program : List Job) : (start program).Kept status st where
  returned := by simp [start]
  pending := by simp [start]
  once := List.Pairwise.nil
  owed := by
    rintro k ⟨job, stage, hcurrent, -⟩
    cases hcurrent

theorem owes_iff {job : Job} {stage : Stage}
    (hcurrent : t.current = some (job, stage)) {k : CacheKey} :
    t.Owes status k ↔ stage.missed = true ∧ (job.key status == k) = true := by
  constructor
  · rintro ⟨job', stage', h, hmissed, hk⟩
    cases hcurrent.symm.trans h
    exact ⟨hmissed, hk⟩
  · rintro ⟨hmissed, hk⟩
    exact ⟨job, stage, hcurrent, hmissed, hk⟩

theorem not_owes (h : ∀ job stage, t.current = some (job, stage) →
      stage.missed = false)
    (k : CacheKey) : ¬ t.Owes status k := by
  rintro ⟨job, stage, hcurrent, hmissed, -⟩
  rw [h job stage hcurrent] at hmissed
  cases hmissed

namespace Turn

theorem hasMissed (hturn : Turn status digest st t t' st') {k : CacheKey}
    (h : t.HasMissed k) : t'.HasMissed k := by
  obtain ⟨j, hj, hjk⟩ := h
  cases hturn with
  | missed => exact ⟨j, List.mem_cons_of_mem _ hj, hjk⟩
  | _ => exact ⟨j, hj, hjk⟩

/-- With room for all keys, what is in the store after a turn was there before,
or the thread owed it and has returned. -/
theorem has_iff_of_room (htidy : st.Tidy)
    (hst : st.All (Stored status digest jobs))
    (hjobs : ∀ job ∈ t.program, job ∈ jobs)
    (hroom : CacheKey.variety (jobs.map (Job.key status)) ≤ st.capacity)
    (hturn : Turn status digest st t t' st') (k : CacheKey) :
    has k st'.entries = true ↔
      has k st.entries = true ∨ t.Owes status k ∧ t'.current = none := by
  cases hturn with
  | begun hcurrent => simp
  | walked hcurrent => simp
  | @found job d hcurrent hfound =>
      have hconsulting : ¬ t.Owes status k := by
        simp [owes_iff hcurrent, Stage.missed]
      rw [Store.get_of_find? hfound, has_put, Bool.or_eq_true]
      constructor
      · rintro (hk | hk)
        · refine Or.inl ?_
          rw [has, ← find?_congr hk, hfound]
          rfl
        · exact Or.inl hk
      · rintro (hk | hk)
        · exact Or.inr hk
        · exact absurd hk.1 hconsulting
  | missed hcurrent habsent => simp [Store.entries_get_of_not_has habsent]
  | @recorded job hcurrent =>
      have hjob := hjobs job (mem_program_of_current hcurrent)
      rw [entries_insert_of_room htidy hst hroom hjob, has_put, Bool.or_eq_true,
        or_comm, owes_iff hcurrent]
      simp [Stage.missed]

theorem kept (hiff : ∀ k, has k st'.entries = true ↔
      has k st.entries = true ∨ t.Owes status k ∧ t'.current = none)
    (ht : t.Kept status st) (hturn : Turn status digest st t t' st') :
    t'.Kept status st' := by
  have hreturned : ∀ x ∈ t.returned, has (x.1.key status) st'.entries = true :=
    fun x hx => (hiff _).2 (Or.inl (ht.returned x hx))
  have hknown : (∀ k, ¬ t.Owes status k) → ∀ k ∈ t.missed,
      has k st'.entries = true :=
    fun hnothing k hk =>
      (hiff k).2 (Or.inl ((ht.pending k hk).resolve_right (hnothing k)))
  cases hturn with
  | begun hcurrent hqueue =>
      have hnothing : ∀ k, ¬ t.Owes status k := not_owes (by simp [hcurrent])
      refine ⟨hreturned, fun k hk => Or.inl (hknown hnothing k hk), ht.once,
        fun k hk => ?_⟩
      exact absurd hk (not_owes (by rintro _ _ ⟨⟩; rfl) k)
  | walked hcurrent hdue hsame =>
      have howes : ∀ k, t.Owes status k ↔ _ := fun k => owes_iff hcurrent
      refine ⟨hreturned, fun k hk => ?_, ht.once, fun k hk => ?_⟩
      · refine (ht.pending k hk).imp (fun h => (hiff k).2 (Or.inl h)) fun h =>
          ?_
        rw [owes_iff rfl, hsame]
        exact (howes k).1 h
      · rw [owes_iff rfl, hsame] at hk
        exact ht.owed k ((howes k).2 hk)
  | @found job d hcurrent hfound =>
      have hnothing : ∀ k, ¬ t.Owes status k := fun k => by
        simp [owes_iff hcurrent, Stage.missed]
      have hkey : has (job.key status) st.entries = true := by
        rw [has, hfound]; rfl
      refine ⟨?_, fun k hk => Or.inl (hknown hnothing k hk), ht.once, ?_⟩
      · refine List.forall_mem_append.2 ⟨hreturned,
          List.forall_mem_singleton.2 ?_⟩
        exact (hiff _).2 (Or.inl hkey)
      · exact fun k hk => absurd hk (not_owes (by simp) k)
  | @missed job hcurrent habsent =>
      have hnothing : ∀ k, ¬ t.Owes status k := fun k => by
        simp [owes_iff hcurrent, Stage.missed]
      refine ⟨hreturned, ?_, List.pairwise_cons.2 ⟨fun j hj => ?_, ht.once⟩,
        fun k hk => ?_⟩
      · refine List.forall_mem_cons.2 ⟨Or.inr ?_, fun k hk =>
          Or.inl (hknown hnothing k hk)⟩
        exact (owes_iff rfl).2 ⟨rfl, BEq.rfl⟩
      · -- a key that was missed before is in the store by now
        have hj := (ht.pending j hj).resolve_right (hnothing j)
        refine Bool.eq_false_iff.2 fun hkey => ?_
        rw [has, find?_congr hkey, ← has, hj] at habsent
        cases habsent
      · exact ⟨job.key status, List.mem_cons_self, ((owes_iff rfl).1 hk).2⟩
  | @recorded job hcurrent =>
      have howes : ∀ k, t.Owes status k →
          has k (st.insert _ _).entries = true :=
        fun k hk => (hiff k).2 (Or.inr ⟨hk, rfl⟩)
      refine ⟨?_, fun k hk => Or.inl ?_, ht.once, ?_⟩
      · refine List.forall_mem_append.2 ⟨hreturned,
          List.forall_mem_singleton.2 ?_⟩
        exact howes _ ((owes_iff hcurrent).2 ⟨rfl, BEq.rfl⟩)
      · exact (ht.pending k hk).elim (fun h => (hiff k).2 (Or.inl h)) (howes k)
      · exact fun k hk => absurd hk (not_owes (by simp) k)

end Turn

end Thread

theorem CacheKey.countP_beq_le_one {ks : List CacheKey}
    (h : ks.Pairwise fun j k => (j == k) = false) (k : CacheKey) :
    ks.countP (· == k) ≤ 1 := by
  induction ks with
  | nil => exact Nat.zero_le 1
  | cons j ks ih =>
      obtain ⟨hj, hks⟩ := List.pairwise_cons.1 h
      rw [List.countP_cons]
      cases hjk : j == k with
      | false => exact ih hks
      | true =>
          have hnone : ks.countP (· == k) = 0 := by
            refine List.countP_eq_zero.2 fun i hi hik => ?_
            have hji := hj i hi
            rw [BEq.congr_left hjk, BEq.comm, hik] at hji
            cases hji
          rw [hnone]
          exact Nat.le_refl 1

theorem sum_map_le_countP {α : Type} {f : α → Nat} {p : α → Bool} {xs : List α}
    (hone : ∀ x ∈ xs, f x ≤ 1) (hp : ∀ x ∈ xs, 0 < f x → p x = true) :
    (xs.map f).sum ≤ xs.countP p := by
  induction xs with
  | nil => exact Nat.le_refl 0
  | cons x xs ih =>
      obtain ⟨hx, hxs⟩ := List.forall_mem_cons.1 hone
      obtain ⟨hpx, hpxs⟩ := List.forall_mem_cons.1 hp
      have hrest := ih hxs hpxs
      rw [List.map_cons, List.sum_cons, countP_cons_toNat]
      rcases Nat.eq_zero_or_pos (f x) with hzero | hpos
      · omega
      · rw [hpx hpos, Bool.toNat_true]
        omega

namespace Threads

def misses (c : Threads) (k : CacheKey) : Nat :=
  (c.threads.map fun t => t.missed.countP (· == k)).sum

structure Kept (status : Path → FileStatus) (c : Threads)
    (st : Store) : Prop where
  thread : ∀ t ∈ c.threads, t.Kept status st
  missed : ∀ k, has k st.entries = true → ∃ t ∈ c.threads, t.HasMissed k

/-- Threads that are done, with a store that had room for all keys: the store
holds the keys that were asked for, each of which was missed by a thread and by
each thread at most once. -/
structure Settled (status : Path → FileStatus) (programs : List (List Job))
    (c : Threads) (st : Store) : Prop where
  has_iff : ∀ k, has k st.entries = true ↔
    ∃ job ∈ programs.flatten, (job.key status == k) = true
  length_entries : st.entries.length =
    CacheKey.variety (programs.flatten.map (Job.key status))
  misses_pos : ∀ job ∈ programs.flatten, 1 ≤ c.misses (job.key status)
  misses_le : ∀ job ∈ programs.flatten, c.misses (job.key status) ≤
    programs.countP fun program => program.any fun j => j.key status ==
      job.key status

variable {status : Path → FileStatus} {digest : Path → Digest} {view : FileView}
  {jobs : List Job} {programs : List (List Job)} {c c' : Threads}
  {st st' : Store}

theorem kept_start (capacity : UInt64) (thresholds : List UInt64)
    (programs : List (List Job)) :
    (start capacity thresholds programs).Kept status
      (Store.empty capacity.toNat) where
  thread := by
    intro t ht
    obtain ⟨program, -, rfl⟩ := List.mem_map.1 ht
    exact Thread.kept_start program
  missed := by
    intro k hk
    cases hk

theorem Kept.turn (hc : c.Agrees status digest jobs st)
    (hkept : c.Kept status st)
    (hroom : CacheKey.variety (jobs.map (Job.key status)) ≤ st.capacity)
    {i : Nat} {t t' : Thread} (ht : c.threads[i]? = some t)
    (hthreads : c'.threads = c.threads.set i t')
    (hturn : Thread.Turn status digest st t t' st') : c'.Kept status st' := by
  have hmem := List.mem_of_getElem? ht
  have hiff := hturn.has_iff_of_room hc.tidy hc.stored (hc.member t hmem) hroom
  have hi : i < c.threads.length := (List.getElem?_eq_some_iff.1 ht).1
  have hmem' : t' ∈ c'.threads := by
    rw [hthreads]
    exact List.mem_set hi t'
  constructor
  · intro u hu
    rw [hthreads] at hu
    rcases List.mem_or_eq_of_mem_set hu with hu | rfl
    · exact (hkept.thread u hu).mono fun k hk => (hiff k).2 (Or.inl hk)
    · exact hturn.kept hiff (hkept.thread t hmem)
  · intro k hk
    rcases (hiff k).1 hk with hk | ⟨howes, -⟩
    · obtain ⟨u, hu, hmissed⟩ := hkept.missed k hk
      obtain ⟨j, hj⟩ := List.getElem?_of_mem hu
      by_cases hij : i = j
      · subst hij
        cases ht.symm.trans hj
        exact ⟨t', hmem', hturn.hasMissed hmissed⟩
      · refine ⟨u, List.mem_of_getElem? (i := j) ?_, hmissed⟩
        rw [hthreads, List.getElem?_set_ne hij, hj]
    · exact ⟨t', hmem', hturn.hasMissed ((hkept.thread t hmem).owed k howes)⟩

theorem agrees_run {capacity : UInt64} (hcapacity : capacity ≠ 0)
    {thresholds : List UInt64} (h : view.Answers status digest programs.flatten)
    {schedule : List Nat}
    (hrun : (start capacity thresholds programs).run view schedule = some c) :
    ∃ st, c.Agrees status digest programs.flatten st ∧
    st.capacity = capacity.toNat ∧
      (CacheKey.variety (programs.flatten.map (Job.key status)) ≤
        capacity.toNat → c.Kept status st) := by
  refine run_induction (P := fun c => ∃ st,
    c.Agrees status digest programs.flatten st ∧ st.capacity = capacity.toNat ∧
    (_ → c.Kept status st)) hrun
    ⟨_, agrees_start hcapacity thresholds programs, rfl, fun _ =>
      kept_start _ _ _⟩ ?_
  rintro c i c' ⟨st, hagrees, hcap, hkept⟩ hturn
  obtain ⟨t, t', st', ht, hthreads, hone, hagrees'⟩ := hagrees.turn h hturn
  refine ⟨st', hagrees', hone.capacity_eq.trans hcap, fun hroom => ?_⟩
  exact (hkept hroom).turn hagrees (hcap ▸ hroom) ht hthreads hone

theorem Done.program_eq (hdone : c.Done) {t : Thread} (ht : t ∈ c.threads) :
    t.program = t.returned.map (·.1) := by
  simp [Thread.program, (hdone t ht).1, (hdone t ht).2]

theorem Done.asked_eq (hdone : c.Done)
    (hprograms : c.threads.map Thread.program = programs) :
    (c.threads.map Thread.asked).sum = programs.flatten.length := by
  have hasked : ∀ t ∈ c.threads, t.asked = t.program.length := by
    intro t ht
    simp [hdone.program_eq ht, Thread.asked, (hdone t ht).1]
  rw [← hprograms, List.length_flatten, List.map_map,
    List.map_congr_left hasked]
  rfl

theorem Kept.settled (hc : c.Agrees status digest programs.flatten st)
    (hkept : c.Kept status st)
    (hprograms : c.threads.map Thread.program = programs) (hdone : c.Done) :
    c.Settled status programs st := by
  have hhas : ∀ k, has k st.entries = true ↔
      ∃ job ∈ programs.flatten, (job.key status == k) = true := by
    intro k
    constructor
    · intro hk
      obtain ⟨j, hj, hjk⟩ := Recency.has_iff.1 hk
      obtain ⟨e, he, rfl⟩ := List.mem_map.1 hj
      obtain ⟨job, hjob, hkey, -⟩ := hc.stored e he
      exact ⟨job, hjob, BEq.trans hkey hjk⟩
    · rintro ⟨job, hjob, hkey⟩
      obtain ⟨program, hprogram, hjob⟩ := List.mem_flatten.1 hjob
      rw [← hprograms] at hprogram
      obtain ⟨t, ht, rfl⟩ := List.mem_map.1 hprogram
      rw [hdone.program_eq ht] at hjob
      obtain ⟨x, hx, rfl⟩ := List.mem_map.1 hjob
      rw [has, ← find?_congr hkey]
      exact (hkept.thread t ht).returned x hx
  refine ⟨hhas, ?_, fun job hjob => ?_, fun job hjob => ?_⟩
  · rw [CacheKey.length_eq_variety hc.tidy.distinct]
    refine Nat.le_antisymm (Thread.variety_keys_le hc.stored)
      (CacheKey.variety_mono fun k hk => ?_)
    obtain ⟨job, hjob, rfl⟩ := List.mem_map.1 hk
    exact Recency.has_iff.1 ((hhas _).2 ⟨job, hjob, BEq.rfl⟩)
  · obtain ⟨t, ht, j, hj, hkey⟩ :=
      hkept.missed _ ((hhas _).2 ⟨job, hjob, BEq.rfl⟩)
    have hone : 1 ≤ t.missed.countP (· == job.key status) :=
      List.one_le_countP_iff.2 ⟨j, hj, hkey⟩
    exact List.sum_pos_iff_exists_pos_nat.2 ⟨_, List.mem_map_of_mem ht, hone⟩
  · rw [← hprograms, List.countP_map]
    refine sum_map_le_countP (fun t ht => ?_) fun t ht hpos => ?_
    · exact CacheKey.countP_beq_le_one (hkept.thread t ht).once _
    · obtain ⟨k, hk, hkey⟩ := List.countP_pos_iff.1 hpos
      obtain ⟨j, hj, rfl⟩ := (hc.sound t ht).missed k hk
      exact List.any_eq_true.2 ⟨j, hj, hkey⟩

/-- Threads that compute files through one store agree. In every order of their
steps each computation returns, and what it returns is the digest of its file;
the store holds no other digest under the key of a file, and counts each
computation once. With room for all keys that are asked for it ends with these
keys, no thread misses one twice, and each is missed at least once. -/
theorem threads_agree {capacity : UInt64} (hcapacity : capacity ≠ 0)
    (thresholds : List UInt64) {status : Path → FileStatus}
    {digest : Path → Digest} {view : FileView} {programs : List (List Job)}
    (h : view.Answers status digest programs.flatten)
    {schedule : List Nat} {c : Threads}
    (hrun : (start capacity thresholds programs).run view schedule = some c) :
    c.threads.map Thread.program = programs ∧
    schedule.length ≤ 8 * programs.flatten.length ∧
    (c.Done ∨ ∃ i c', c.turn view i = some c') ∧
    (∀ t ∈ c.threads, ∀ x ∈ t.returned, x.2 = .digest (digest x.1.path)) ∧
    (c.Done → c.threads.map Thread.returned = programs.map fun program =>
      program.map fun job => (job, .digest (digest job.path))) ∧
    ∃ st, c.site.cache 0 = ⟨[st], some 0⟩ ∧
      (∀ e ∈ st.entries, ∀ job ∈ programs.flatten, (e.1 == job.key status) =
        true → e.2 = digest job.path) ∧
      st.misses = (c.threads.map (·.missed.length)).sum ∧
      (c.Done → st.hits + st.misses = programs.flatten.length ∧
        (programs.flatten.length < wordLimit →
          st.stats.hits.toNat + st.stats.misses.toNat =
            programs.flatten.length)) ∧
      (CacheKey.variety (programs.flatten.map (Job.key status)) ≤
        capacity.toNat →
        (∀ t ∈ c.threads, t.missed.Pairwise fun j k => (j == k) = false) ∧
        (c.Done → c.Settled status programs st)) := by
  have hprograms : c.threads.map Thread.program = programs :=
    (programs_run hrun).trans programs_start
  have hlength := length_schedule_le live_start hrun
  have hlive : ∀ t ∈ c.threads, t.Live :=
    run_induction (P := fun c => ∀ t ∈ c.threads, t.Live) hrun live_start
      fun _ _ _ hlive hturn => live_turn hlive hturn
  have hguarded : (c.process view).Guarded :=
    run_induction (P := fun c => (c.process view).Guarded) hrun
      (guarded_start view)
      fun _ _ _ hguarded hturn => guarded_turn hguarded hturn
  obtain ⟨st, hagrees, -, hkept⟩ := agrees_run hcapacity h hrun
  have hreturned : ∀ t ∈ c.threads, ∀ x ∈ t.returned,
      x.2 = .digest (digest x.1.path) :=
    fun t ht => (hagrees.sound t ht).returned
  refine ⟨hprograms, ?_, ?_, hreturned, fun hdone => ?_, st, hagrees.cache, ?_,
    hagrees.missed, fun hdone => ?_, fun hroom =>
      ⟨fun t ht => ((hkept hroom).thread t ht).once, fun hdone => ?_⟩⟩
  · rw [remaining_start] at hlength
    exact Nat.le_trans (Nat.le_add_right _ _) hlength
  · by_cases hdone : c.Done
    · exact Or.inl hdone
    · exact Or.inr (exists_turn hguarded hlive hdone)
  · rw [← hprograms, List.map_map]
    refine List.map_congr_left fun t ht => ?_
    rw [Function.comp_apply, hdone.program_eq ht, List.map_map]
    have hid : ∀ x ∈ t.returned,
        (x.1, Outcome.digest (digest x.1.path)) = id x :=
      fun x hx => Prod.ext rfl (hreturned t ht x hx).symm
    exact ((List.map_congr_left hid).trans (List.map_id _)).symm
  · intro e he job hjob hkey
    exact Thread.eq_of_stored h (hagrees.stored e he) hjob hkey
  · have hasked := hagrees.asked.trans (hdone.asked_eq hprograms)
    refine ⟨hasked, fun hfew => ?_⟩
    rw [Store.toNat_hits_add_toNat_misses (hasked ▸ hfew), hasked]
  · exact (hkept hroom).settled hagrees hprograms hdone

/-- Two threads ask for one file under two spellings before either has put its
digest in; the first one asks again afterwards. -/
theorem threads_agree_overlapping :
    let status : Path → FileStatus := fun _ => ⟨1, .epoch, 3⟩
    let view : FileView :=
      ⟨fun path => .ok (status path), fun _ => .ok (some [7])⟩
    let job (path : String) : Job := ⟨0, .ofText path, .unknown⟩
    let programs : List (List Job) := [[job "a/b", job "a/b"], [job "a//b"]]
    let schedule : List Nat := List.replicate 4 0 ++ List.replicate 8 1 ++
      List.replicate 8 0
    ∃ c, (start 1 [] programs).run view schedule = some c ∧ c.Done ∧
      c.threads.map Thread.returned =
        [[(job "a/b", .digest [7]), (job "a/b", .digest [7])],
          [(job "a//b", .digest [7])]] ∧
      ∃ st, c.site.cache 0 = ⟨[st], some 0⟩ ∧ st.hits + st.misses = 3 ∧
        st.entries.length = 1 ∧ 1 ≤ c.misses ((job "a/b").key status) ∧
        c.misses ((job "a/b").key status) ≤ 2 := by
  intro status view job programs schedule
  have hanswers : view.Answers status (fun _ => [7]) programs.flatten :=
    ⟨fun _ _ => rfl, fun _ _ => rfl, fun _ _ _ _ _ _ => rfl⟩
  have hvariety : CacheKey.variety (programs.flatten.map (Job.key status)) =
      1 := by
    decide +kernel
  have hends : ((start 1 [] programs).run view schedule).any (fun c =>
      decide c.Done) = true := by
    decide +kernel
  obtain ⟨c, hrun, hdone⟩ := (Option.any_eq_true _ _).1 hends
  have hdone : c.Done := of_decide_eq_true hdone
  obtain ⟨-, -, -, -, hreturned, st, hcache, -, -, hasked, hroom⟩ :=
    threads_agree (by decide) [] hanswers hrun
  have hsettled := (hroom (Nat.le_of_eq hvariety)).2 hdone
  have hjob : job "a/b" ∈ programs.flatten := List.mem_cons_self
  refine ⟨c, hrun, hdone, hreturned hdone, st, hcache, (hasked hdone).1,
    hsettled.length_entries.trans hvariety, hsettled.misses_pos _ hjob, ?_⟩
  exact Nat.le_trans (hsettled.misses_le _ hjob) (by decide +kernel)

end Threads

end FileDigest
