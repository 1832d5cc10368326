import FileDigest.Proofs.Cache.Inclusion
import FileDigest.Proofs.Cache.Recall
import FileDigest.Proofs.Process.Threads

/-!
# Threads that share one store

Several threads compute files that stay as they are, through one store. What a
turn does to a thread and to the store is one of five things (`Thread.Turn`): a
thread begins a job, comes one stage further, finds a digest in the store,
misses one, or puts one in. By cases on these, the store holds under the key of
a file nothing but the digest of the file, so every computation returns it,
wherever the lookups of one thread fall between the reads and insertions of the
others. The counters of the store say what the threads asked it and what they
missed.
-/

namespace FileDigest

open Recency

/-- The file of a job does not change, and files whose keys are equal have equal
digests. -/
structure FileView.Answers (view : FileView) (status : Path → FileStatus)
    (digest : Path → Digest) (jobs : List Job) : Prop where
  stat : ∀ job ∈ jobs, view.stat job.path = .ok (status job.path)
  read : ∀ job ∈ jobs, view.read job.path = .ok (some (digest job.path))
  agree : ∀ i ∈ jobs, ∀ j ∈ jobs, i.path.same j.path = true →
    status i.path = status j.path →
    digest i.path = digest j.path

def Job.key (status : Path → FileStatus) (job : Job) : CacheKey :=
  ⟨job.path, status job.path⟩

namespace Stage

/-- The stages of the computation of a file with a given key and digest, as long
as the store in use stays the first one. -/
inductive Due (k : CacheKey) (d : Digest) : Stage → Prop where
  | opening : Due k d opening
  | identifying : Due k d (identifying 0)
  | consulting : Due k d (consulting ⟨0, k⟩)
  | entering : Due k d (entering (some ⟨0, k⟩))
  | reading : Due k d (reading (some ⟨0, k⟩))
  | leaving : Due k d (leaving (some ⟨0, k⟩) (.ok (some d)))
  | recording : Due k d (recording ⟨0, k⟩ d)

def missed : Stage → Bool
  | entering (some _) | reading (some _) | leaving (some _) _ | recording _ _ =>
      true
  | _ => false

end Stage

theorem FileView.Answers.digest_eq {view : FileView}
    {status : Path → FileStatus} {digest : Path → Digest} {jobs : List Job}
    (h : view.Answers status digest jobs) {i j : Job} (hi : i ∈ jobs)
    (hj : j ∈ jobs) (hij : (i.key status == j.key status) = true) :
    digest i.path = digest j.path := by
  have hidentity := CacheKey.beq_iff.1 hij
  exact h.agree i hi j hj (Path.same_iff.2 (congrArg Prod.fst hidentity))
    (congrArg Prod.snd hidentity)

namespace Thread

def asked (t : Thread) : Nat :=
  t.returned.length + (t.current.map (·.2.missed.toNat)).getD 0

variable (status : Path → FileStatus) (digest : Path → Digest)

/-- What a turn does to a thread and to the store. -/
inductive Turn (st : Store) (t : Thread) : Thread → Store → Prop where
  | begun {job : Job} {queue : List Job} (hcurrent : t.current = none)
      (hqueue : t.queue = job :: queue) :
      Turn st t { t with current := some (job, .opening), queue := queue } st
  | walked {job : Job} {stage stage' : Stage} (hcurrent : t.current =
      some (job, stage))
      (hdue : stage'.Due (job.key status) (digest job.path))
      (hmissed : stage'.missed = stage.missed) :
      Turn st t { t with current := some (job, stage') } st
  | found {job : Job} {d : Digest}
      (hcurrent : t.current = some (job, .consulting ⟨0, job.key status⟩))
      (hfound : find? (job.key status) st.entries = some d) :
      Turn st t { t with returned := t.returned ++ [(job, .digest d)],
                         current := none }
        (st.get (job.key status)).2
  | missed {job : Job} (hcurrent : t.current =
      some (job, .consulting ⟨0, job.key status⟩))
      (hmissed : has (job.key status) st.entries = false) :
      Turn st t { t with
        current := some (job, .entering (some ⟨0, job.key status⟩))
        missed := job.key status :: t.missed } (st.get (job.key status)).2
  | recorded {job : Job}
      (hcurrent : t.current =
        some (job, .recording ⟨0, job.key status⟩ (digest job.path))) :
      Turn st t { t with
        returned := t.returned ++ [(job, .digest (digest job.path))]
        current := none } (st.insert (job.key status) (digest job.path))

variable {status digest} {view : FileView} {jobs : List Job} {s s' : Site}
  {t t' : Thread} {st st' : Store}

/-- A step of a thread is one of the five things that a turn can do. -/
theorem turn_of_step (h : view.Answers status digest jobs)
    (hjobs : ∀ job ∈ t.program, job ∈ jobs)
    (hdue : ∀ job stage, t.current = some (job, stage) →
      stage.Due (job.key status) (digest job.path))
    (hcache : s.cache 0 = ⟨[st], some 0⟩)
    (hstep : t.step view s = some (t', s')) :
    ∃ st', s'.cache 0 = ⟨[st'], some 0⟩ ∧ Turn status digest st t t' st' := by
  rcases step_cases hstep with ⟨job, queue, hcurrent, hqueue, rfl, rfl⟩ |
    ⟨job, stage, stage', hcurrent, hcall, rfl⟩
  · exact ⟨st, hcache, .begun hcurrent hqueue⟩
  · have hjob : job ∈ jobs := hjobs job (by simp [program, hcurrent])
    have hget : (s.cache 0).getAt 0 (job.key status) =
        ((st.get (job.key status)).1,
          ⟨[(st.get (job.key status)).2], some 0⟩) := by
      rw [hcache]
      rfl
    cases hdue job stage hcurrent with
    | opening =>
        cases hcall with
        | taken hg =>
            rw [Job.call, hcache] at hg
            cases hg
            exact ⟨st, hcache, .walked hcurrent .identifying rfl⟩
        | off hg =>
            rw [Job.call, hcache] at hg
            cases hg
    | identifying =>
        cases hcall with
        | identified hstat =>
            cases hstat.symm.trans (h.stat job hjob)
            exact ⟨st, hcache, .walked hcurrent .consulting rfl⟩
        | unidentified hstat => cases hstat.symm.trans (h.stat job hjob)
    | consulting =>
        cases hcall with
        | hit hanswer =>
            change ((s.cache 0).getAt 0 (job.key status)).1 = _ at hanswer
            rw [hget, Store.get_fst] at hanswer
            refine ⟨_, ?_, .found hcurrent hanswer⟩
            rw [Site.cache_report]
            exact (Site.cache_setCache_getAt s 0 0 _).trans (by rw [hget])
        | miss hanswer =>
            change ((s.cache 0).getAt 0 (job.key status)).1 = _ at hanswer
            rw [hget, Store.get_fst] at hanswer
            refine ⟨_, ?_, .missed hcurrent (by rw [has, hanswer]; rfl)⟩
            exact (Site.cache_setCache_getAt s 0 0 _).trans (by rw [hget])
    | entering =>
        cases hcall with
        | entered hgate => exact ⟨st, hcache, .walked hcurrent .reading rfl⟩
    | reading =>
        cases hcall with
        | read =>
            simp only [Job.call, h.read job hjob]
            exact ⟨st, hcache, .walked hcurrent .leaving rfl⟩
    | leaving =>
        cases hcall with
        | left => exact ⟨st, hcache, .walked hcurrent .recording rfl⟩
    | recording =>
        cases hcall with
        | recorded =>
            refine ⟨_, ?_, .recorded hcurrent⟩
            rw [Site.cache_report]
            refine (Site.cache_setCache_insertAt s 0 0 _ _).trans ?_
            rw [hcache]
            rfl

/-- What a thread has got from its computations and where it stands. -/
structure Sound (status : Path → FileStatus) (digest : Path → Digest)
    (t : Thread) : Prop where
  due : ∀ job stage, t.current = some (job, stage) →
    stage.Due (job.key status) (digest job.path)
  returned : ∀ x ∈ t.returned, x.2 = .digest (digest x.1.path)
  missed : ∀ k ∈ t.missed, ∃ job ∈ t.program, k = job.key status

def Stored (status : Path → FileStatus) (digest : Path → Digest)
    (jobs : List Job) (k : CacheKey) (d : Digest) : Prop :=
  ∃ job ∈ jobs, (job.key status == k) = true ∧ d = digest job.path

theorem Stored.of_beq {j k : CacheKey} {d : Digest} (hjk : (j == k) = true)
    (h : Stored status digest jobs j d) : Stored status digest jobs k d := by
  obtain ⟨job, hjob, hkey, hd⟩ := h
  exact ⟨job, hjob, BEq.trans hkey hjk, hd⟩

theorem stored_key {job : Job} (hjob : job ∈ jobs) :
    Stored status digest jobs (job.key status) (digest job.path) :=
  ⟨job, hjob, BEq.rfl, rfl⟩

theorem eq_of_stored (h : view.Answers status digest jobs)
    {k : CacheKey} {d : Digest} (hd : Stored status digest jobs k d) {job : Job}
    (hjob : job ∈ jobs) (hk : (k == job.key status) = true) :
    d = digest job.path := by
  obtain ⟨other, hother, hkey, rfl⟩ := hd
  exact h.digest_eq hother hjob (BEq.trans hkey hk)

theorem sound_start (program : List Job) :
    (start program).Sound status digest where
  due := by simp [start]
  returned := by simp [start]
  missed := by simp [start]

theorem mem_program_of_current {job : Job} {stage : Stage}
    (h : t.current = some (job, stage)) : job ∈ t.program := by
  simp [program, h]

namespace Turn

theorem sound (h : view.Answers status digest jobs) (ht : t.Sound status digest)
    (hjobs : ∀ job ∈ t.program, job ∈ jobs)
    (hst : st.All (Stored status digest jobs))
    (hprogram : t'.program = t.program)
    (hturn : Turn status digest st t t' st') : t'.Sound status digest := by
  have hreturned : ∀ job,
      ∀ x ∈ t.returned ++ [(job, Outcome.digest (digest job.path))],
      x.2 = .digest (digest x.1.path) := by
    intro job
    exact List.forall_mem_append.2 ⟨ht.returned,
      List.forall_mem_singleton.2 rfl⟩
  have hmissed := ht.missed
  rw [← hprogram] at hmissed
  cases hturn with
  | begun hcurrent hqueue =>
      refine ⟨?_, ht.returned, hmissed⟩
      rintro _ _ ⟨⟩
      exact .opening
  | walked hcurrent hdue hsame =>
      refine ⟨?_, ht.returned, hmissed⟩
      rintro _ _ ⟨⟩
      exact hdue
  | @found job d hcurrent hfound =>
      obtain rfl : d = digest job.path := by
        have hanswer : (st.get (job.key status)).1 = some d := by
          rw [Store.get_fst, hfound]
        have hstored := hst.answer (fun _ _ _ => Stored.of_beq) hanswer
        exact eq_of_stored h hstored
          (hjobs job (mem_program_of_current hcurrent)) BEq.rfl
      refine ⟨?_, hreturned job, hmissed⟩
      rintro _ _ ⟨⟩
  | @missed job hcurrent habsent =>
      refine ⟨?_, ht.returned, List.forall_mem_cons.2 ⟨⟨job, ?_, rfl⟩, hmissed⟩⟩
      · rintro _ _ ⟨⟩
        exact .entering
      · rw [hprogram]
        exact mem_program_of_current hcurrent
  | @recorded job hcurrent =>
      refine ⟨?_, hreturned job, hmissed⟩
      rintro _ _ ⟨⟩

theorem stored (hjobs : ∀ job ∈ t.program, job ∈ jobs)
    (hst : st.All (Stored status digest jobs))
    (hturn : Turn status digest st t t' st') :
    st'.All (Stored status digest jobs) := by
  cases hturn with
  | begun | walked => exact hst
  | found | missed => exact hst.get (fun _ _ _ => Stored.of_beq) _
  | recorded hcurrent =>
      exact hst.insert (stored_key (hjobs _ (mem_program_of_current hcurrent)))

theorem tidy (hst : st.Tidy) (hturn : Turn status digest st t t' st') :
    st'.Tidy := by
  cases hturn with
  | begun | walked => exact hst
  | @found job | @missed job => exact hst.access (.ask (job.key status))
  | @recorded job => exact hst.access (.put (job.key status) (digest job.path))

theorem capacity_eq (hturn : Turn status digest st t t' st') :
    st'.capacity = st.capacity := by
  cases hturn with
  | begun | walked => rfl
  | found | missed => exact Store.capacity_get st _
  | recorded => rfl

theorem asked (hturn : Turn status digest st t t' st') :
    st'.hits + st'.misses + t.asked = st.hits + st.misses + t'.asked := by
  cases hturn with
  | begun hcurrent hqueue => simp [Thread.asked, hcurrent, Stage.missed]
  | walked hcurrent hdue hsame => simp [Thread.asked, hcurrent, hsame]
  | @found job _ hcurrent _ | @missed job hcurrent _ =>
      have hcount : (st.get (job.key status)).2.hits +
          (st.get (job.key status)).2.misses =
          st.hits + st.misses + 1 :=
            Store.hits_add_misses_access st (.ask (job.key status))
      simp [hcount, Thread.asked, hcurrent, Stage.missed]
      omega
  | recorded hcurrent =>
      simp [Thread.asked, hcurrent, Stage.missed, Store.insert]

theorem misses (hturn : Turn status digest st t t' st') :
    st'.misses + t.missed.length = st.misses + t'.missed.length := by
  cases hturn with
  | begun | walked => rfl
  | found hcurrent hfound => rw [Store.misses_get, has, hfound]; rfl
  | missed hcurrent habsent =>
      rw [Store.misses_get, habsent, List.length_cons]
      simp only [Bool.not_false, Bool.toNat_true]
      omega
  | recorded => rfl

end Turn

end Thread

namespace Threads

/-- The threads and their store at any time: the threads have got the digests of
their files, the store holds nothing else, and it has counted what the threads
asked. -/
structure Agrees (status : Path → FileStatus) (digest : Path → Digest)
    (jobs : List Job) (c : Threads) (st : Store) : Prop where
  cache : c.site.cache 0 = ⟨[st], some 0⟩
  tidy : st.Tidy
  stored : st.All (Thread.Stored status digest jobs)
  member : ∀ t ∈ c.threads, ∀ job ∈ t.program, job ∈ jobs
  sound : ∀ t ∈ c.threads, t.Sound status digest
  asked : st.hits + st.misses = (c.threads.map Thread.asked).sum
  missed : st.misses = (c.threads.map (·.missed.length)).sum

variable {status : Path → FileStatus} {digest : Path → Digest} {view : FileView}
  {jobs : List Job} {c c' : Threads} {st st' : Store}

theorem Agrees.turn (h : view.Answers status digest jobs)
    (hc : c.Agrees status digest jobs st) {i : Nat}
    (hturn : c.turn view i = some c') :
    ∃ t t' st', c.threads[i]? = some t ∧ c'.threads = c.threads.set i t' ∧
      Thread.Turn status digest st t t' st' ∧
      c'.Agrees status digest jobs st' := by
  obtain ⟨t, t', s, ht, hstep, rfl⟩ := turn_cases hturn
  have hmem := List.mem_of_getElem? ht
  have hprogram := Thread.program_step hstep
  obtain ⟨st', hcache, hone⟩ := Thread.turn_of_step h (hc.member t hmem)
    (hc.sound t hmem).due
    hc.cache hstep
  refine ⟨t, t', st', ht, rfl, hone, hcache, hone.tidy hc.tidy,
    hone.stored (hc.member t hmem) hc.stored, ?_, ?_, ?_, ?_⟩
  · intro u hu
    rcases List.mem_or_eq_of_mem_set hu with hu | rfl
    · exact hc.member u hu
    · rw [hprogram]
      exact hc.member t hmem
  · intro u hu
    rcases List.mem_or_eq_of_mem_set hu with hu | rfl
    · exact hc.sound u hu
    · exact hone.sound h (hc.sound t hmem) (hc.member t hmem) hc.stored hprogram
  · have hset := Process.sum_map_set Thread.asked ht t'
    have hasked := hone.asked
    have hbefore := hc.asked
    change _ = ((c.threads.set i t').map Thread.asked).sum
    omega
  · have hset := Process.sum_map_set (fun t : Thread => t.missed.length) ht t'
    have hmissed := hone.misses
    have hbefore := hc.missed
    change _ = ((c.threads.set i t').map fun t => t.missed.length).sum
    omega

theorem agrees_start {capacity : UInt64} (hcapacity : capacity ≠ 0)
    (thresholds : List UInt64) (programs : List (List Job)) :
    (start capacity thresholds programs).Agrees status digest programs.flatten
      (Store.empty capacity.toNat) where
  cache := by
    rw [start, Site.cache, Site.caches_fresh]
    simp [Site.newCache, Cache.ofCapacity, Cache.configure, hcapacity,
      Cache.disabled]
  tidy := Store.tidy_empty _
  stored := Store.all_empty _ _
  member := by
    intro t ht job hjob
    obtain ⟨program, hprogram, rfl⟩ := List.mem_map.1 ht
    exact List.mem_flatten.2 ⟨program, hprogram, hjob⟩
  sound := by
    intro t ht
    obtain ⟨program, -, rfl⟩ := List.mem_map.1 ht
    exact Thread.sound_start program
  asked := by
    simp [start, Store.empty, Function.comp_def, Thread.asked, Thread.start]
  missed := by simp [start, Store.empty, Function.comp_def, Thread.start]

end Threads

end FileDigest
