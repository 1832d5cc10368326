import FileDigest.Proofs.Process.Exclusion

/-!
# Threads that compute file after file

A thread computes the files of a list in order and begins one when the one
before has returned. All threads share a cache and any number of gates, and a
schedule says whose turn is next; the file system stays as it is. A thread keeps
what its computations returned, and the keys that a lookup of its own did not
find.

Each turn brings the end nearer by at least one step
(`Threads.remaining_turn_lt`), so no schedule is longer than eight turns for
each file. The computations under way are operations of a process, and the gates
are guarded as they are there; so as long as a thread has anything left to do
some thread can take a turn (`Threads.exists_turn`).
-/

namespace FileDigest

/-- A file that is to be computed, with the gate of the resolver that is
asked. -/
structure Job where
  gate : Nat
  path : Path
  size : SizeHint

/-- The computation of a file at a stage. All jobs use one cache. -/
def Job.call (job : Job) (stage : Stage) : Call :=
  ⟨⟨0, job.gate⟩, job.path, job.size, stage⟩

structure Thread where
  returned : List (Job × Outcome)
  /-- The job under way, with the stage of its computation. -/
  current : Option (Job × Stage)
  queue : List Job
  /-- The keys that were looked up and not found, the latest first. -/
  missed : List CacheKey

namespace Thread

def start (program : List Job) : Thread :=
  ⟨[], none, program, []⟩

def program (t : Thread) : List Job :=
  t.returned.map (·.1) ++ (t.current.toList.map (·.1) ++ t.queue)

def Done (t : Thread) : Prop :=
  t.current = none ∧ t.queue = []

instance (t : Thread) : Decidable t.Done :=
  decidable_of_iff (t.current.isNone = true ∧ t.queue.isEmpty = true)
    (by simp [Done])

/-- The thread after its computation has come to a stage. A computation that
stands in front of its gate with a slot has looked up the key of the slot in
vain. -/
def reach (t : Thread) (job : Job) : Stage → Thread
  | .finished o =>
      { t with returned := t.returned ++ [(job, o)], current := none }
  | .entering (some slot) =>
      { t with current := some (job, .entering (some slot)),
               missed := slot.key :: t.missed }
  | stage => { t with current := some (job, stage) }

def step (view : FileView) (s : Site) (t : Thread) : Option (Thread × Site) :=
  match t.current, t.queue with
  | some (job, stage), _ =>
      ((job.call stage).step view s).map fun x => (t.reach job x.1.stage, x.2)
  | none, job :: queue =>
      some ({ t with current := some (job, .opening), queue := queue }, s)
  | none, [] => none

def remaining (t : Thread) : Nat :=
  8 * t.queue.length + (t.current.map (·.2.remaining)).getD 0

def task (t : Thread) : Task :=
  match t.current with
  | some (job, stage) => .computing (job.call stage)
  | none => .ended none

/-- A computation that is over has returned. -/
def Live (t : Thread) : Prop :=
  ∀ job stage, t.current = some (job, stage) → stage.remaining ≠ 0

variable {view : FileView} {s s' : Site} {t t' : Thread}

theorem step_cases (h : t.step view s = some (t', s')) :
    (∃ job queue, t.current = none ∧ t.queue = job :: queue ∧
      t' = { t with current := some (job, .opening), queue := queue } ∧
      s' = s) ∨
    ∃ job stage stage', t.current = some (job, stage) ∧
      Call.Step view s (job.call stage) stage stage' s' ∧
      t' = t.reach job stage' := by
  unfold step at h
  split at h
  · rename_i job stage hcurrent
    obtain ⟨⟨c, s''⟩, hcall, heq⟩ := Option.map_eq_some_iff.1 h
    obtain ⟨stage', rfl, hstep⟩ := Call.step_sound hcall
    cases heq
    exact Or.inr ⟨job, stage, stage', hcurrent, hstep, rfl⟩
  · cases h
    exact Or.inl ⟨_, _, ‹_›, ‹_›, rfl, rfl⟩
  · cases h

@[simp] theorem program_start (program : List Job) : (start program).program =
    program := rfl

theorem current_reach (t : Thread) (job : Job) (stage : Stage) :
    (t.reach job stage).current = if stage.remaining = 0 then none
      else some (job, stage) := by
  cases stage with
  | entering slot => cases slot <;> rfl
  | _ => rfl

@[simp] theorem queue_reach (t : Thread) (job : Job) (stage : Stage) :
    (t.reach job stage).queue = t.queue := by
  cases stage with
  | entering slot => cases slot <;> rfl
  | _ => rfl

theorem program_reach {job : Job} {stage : Stage}
    (hcurrent : t.current = some (job, stage)) (stage' : Stage) :
    (t.reach job stage').program = t.program := by
  cases stage' with
  | finished o => simp [program, reach, hcurrent]
  | entering slot => cases slot <;> simp [program, reach, hcurrent]
  | _ => simp [program, reach, hcurrent]

theorem program_step (h : t.step view s = some (t', s')) :
    t'.program = t.program := by
  rcases step_cases h with ⟨job, queue, hcurrent, hqueue, rfl, rfl⟩ |
    ⟨job, stage, stage', hcurrent, -, rfl⟩
  · simp [program, hcurrent, hqueue]
  · exact program_reach hcurrent stage'

theorem live_start (program : List Job) : (start program).Live := by
  intro job stage h
  cases h

theorem live_step (h : t.step view s = some (t', s')) : t'.Live := by
  rcases step_cases h with ⟨job, queue, hcurrent, hqueue, rfl, rfl⟩ |
    ⟨job, stage, stage', hcurrent, -, rfl⟩
  · rintro _ _ ⟨⟩
    exact Nat.succ_ne_zero 6
  · intro job' stage'' heq
    rw [current_reach] at heq
    split at heq
    · cases heq
    · cases heq
      exact ‹_›

theorem remaining_reach (t : Thread) (job : Job) (stage : Stage) :
    (t.reach job stage).remaining = 8 * t.queue.length + stage.remaining := by
  rw [remaining, queue_reach, current_reach]
  split
  · simp [*]
  · rfl

theorem remaining_step_lt (hlive : t.Live) (h : t.step view s = some (t', s')) :
    t'.remaining < t.remaining := by
  rcases step_cases h with ⟨job, queue, hcurrent, hqueue, rfl, rfl⟩ |
    ⟨job, stage, stage', hcurrent, hstep, rfl⟩
  · simp only [remaining, hcurrent, hqueue, List.length_cons, Option.map_some,
      Option.map_none, Option.getD_some, Option.getD_none, Stage.remaining]
    omega
  · rw [remaining_reach, remaining, hcurrent]
    exact Nat.add_lt_add_left (hstep.remaining_lt (hlive job stage hcurrent)) _

theorem holds_reach (s : Site) (t : Thread) (job : Job) (stage : Stage) :
    (t.reach job stage).task.holds s =
      (Task.computing (job.call stage)).holds s := by
  cases stage with
  | entering slot => cases slot <;> rfl
  | _ => rfl

/-- A step of a thread does to the gates what a step of an operation does. -/
theorem step_passage (h : t.step view s = some (t', s')) :
    Task.Passage s t.task t'.task s' := by
  rcases step_cases h with ⟨job, queue, hcurrent, hqueue, rfl, rfl⟩ |
    ⟨job, stage, stage', hcurrent, hstep, rfl⟩
  · refine .none rfl ?_
    rw [task, task, hcurrent]
    rfl
  · have htask : t.task = .computing (job.call stage) := by rw [task, hcurrent]
    have hpassage : Task.Passage s t.task
        (.computing (job.call stage')) s' := by
      rw [htask]
      exact Task.step_passage (Task.step_eq_some_iff.2 (.computed hstep))
    cases hpassage with
    | none hgates hholds =>
        exact .none hgates ((holds_reach s t job stage').trans hholds)
    | take i hgates hfree hbefore hafter =>
        exact .take i hgates hfree hbefore
          ((holds_reach s t job stage').trans hafter)
    | release i hgates hbefore hafter =>
        exact .release i hgates hbefore
          ((holds_reach s t job stage').trans hafter)

end Thread

structure Threads where
  site : Site
  threads : List Thread

namespace Threads

def start (capacity : UInt64) (thresholds : List UInt64)
    (programs : List (List Job)) : Threads :=
  ⟨Site.fresh [some capacity] thresholds, programs.map Thread.start⟩

def turn (c : Threads) (view : FileView) (i : Nat) : Option Threads :=
  match c.threads[i]? with
  | some t => (t.step view c.site).map fun x => ⟨x.2, c.threads.set i x.1⟩
  | none => none

def run (c : Threads) (view : FileView) : List Nat → Option Threads
  | [] => some c
  | i :: schedule => (c.turn view i).bind fun c' => c'.run view schedule

def Done (c : Threads) : Prop :=
  ∀ t ∈ c.threads, t.Done

instance (c : Threads) : Decidable c.Done :=
  inferInstanceAs (Decidable (∀ t ∈ c.threads, t.Done))

def remaining (c : Threads) : Nat :=
  (c.threads.map Thread.remaining).sum

/-- The computations under way, as operations of a process. -/
def process (c : Threads) (view : FileView) : Process :=
  ⟨view, c.site, c.threads.map Thread.task⟩

variable {view : FileView} {c c' : Threads}

theorem turn_cases {i : Nat} (h : c.turn view i = some c') :
    ∃ t t' s, c.threads[i]? = some t ∧ t.step view c.site = some (t', s) ∧
      c' = ⟨s, c.threads.set i t'⟩ := by
  unfold turn at h
  split at h
  · obtain ⟨⟨t', s⟩, hstep, rfl⟩ := Option.map_eq_some_iff.1 h
    exact ⟨_, t', s, ‹_›, hstep, rfl⟩
  · cases h

theorem run_induction {P : Threads → Prop} {schedule : List Nat}
    (h : c.run view schedule = some c') (hc : P c)
    (hturn : ∀ c i c', P c → c.turn view i = some c' → P c') : P c' := by
  induction schedule generalizing c with
  | nil =>
      cases h
      exact hc
  | cons i schedule ih =>
      obtain ⟨m, hm, hrun⟩ := Option.bind_eq_some_iff.1 h
      exact ih hrun (hturn c i m hc hm)

theorem map_set_of_getElem? {α β : Type} {f : α → β} {xs : List α}
    {i : Nat} {x y : α} (hx : xs[i]? = some x) (hf : f y = f x) :
    (xs.set i y).map f = xs.map f := by
  refine List.ext_getElem? fun j => ?_
  rw [List.getElem?_map, List.getElem?_map, List.getElem?_set]
  split
  · subst j
    have hi : i < xs.length := (List.getElem?_eq_some_iff.1 hx).1
    rw [if_pos hi, hx, Option.map_some, Option.map_some, hf]
  · rfl

theorem programs_turn {i : Nat} (h : c.turn view i = some c') :
    c'.threads.map Thread.program = c.threads.map Thread.program := by
  obtain ⟨t, t', s, ht, hstep, rfl⟩ := turn_cases h
  exact map_set_of_getElem? ht (Thread.program_step hstep)

theorem programs_run {schedule : List Nat} (h : c.run view schedule = some c') :
    c'.threads.map Thread.program = c.threads.map Thread.program :=
  run_induction (P := fun m => m.threads.map Thread.program =
    c.threads.map Thread.program) h rfl
    fun _ _ _ hm hturn => (programs_turn hturn).trans hm

theorem live_turn {i : Nat} (hlive : ∀ t ∈ c.threads, t.Live)
    (h : c.turn view i = some c') : ∀ t ∈ c'.threads, t.Live := by
  obtain ⟨t, t', s, ht, hstep, rfl⟩ := turn_cases h
  intro u hu
  rcases List.mem_or_eq_of_mem_set hu with hu | rfl
  · exact hlive u hu
  · exact Thread.live_step hstep

theorem remaining_turn_lt {i : Nat} (hlive : ∀ t ∈ c.threads, t.Live)
    (h : c.turn view i = some c') : c'.remaining < c.remaining := by
  obtain ⟨t, t', s, ht, hstep, rfl⟩ := turn_cases h
  have hlt := Thread.remaining_step_lt (hlive t (List.mem_of_getElem? ht)) hstep
  have hset := Process.sum_map_set Thread.remaining ht t'
  simp only [remaining]
  omega

theorem length_schedule_le {schedule : List Nat}
    (hlive : ∀ t ∈ c.threads, t.Live) (h : c.run view schedule = some c') :
    schedule.length + c'.remaining ≤ c.remaining := by
  induction schedule generalizing c with
  | nil =>
      cases h
      exact Nat.le_of_eq (Nat.zero_add _)
  | cons i schedule ih =>
      obtain ⟨m, hm, hrun⟩ := Option.bind_eq_some_iff.1 h
      have hrest := ih (live_turn hlive hm) hrun
      have hlt := remaining_turn_lt hlive hm
      rw [List.length_cons]
      omega

theorem guarded_turn {i : Nat} (hc : (c.process view).Guarded)
    (h : c.turn view i = some c') : (c'.process view).Guarded := by
  obtain ⟨t, t', s, ht, hstep, rfl⟩ := turn_cases h
  have htask : (c.process view).tasks[i]? = some t.task := by
    rw [process, List.getElem?_map, ht, Option.map_some]
  have hguarded := hc.passage htask (Thread.step_passage hstep)
  rwa [process, ← List.map_set] at hguarded

theorem exists_turn_of_step {i : Nat} {t : Thread} (ht : c.threads[i]? = some t)
    (h : t.step view c.site ≠ none) : ∃ i c', c.turn view i = some c' := by
  obtain ⟨⟨t', s⟩, hstep⟩ := Option.ne_none_iff_exists'.1 h
  refine ⟨i, ⟨s, c.threads.set i t'⟩, ?_⟩
  rw [turn, ht]
  simp only [hstep, Option.map_some]

/-- As long as a computation is under way, one that is under way can go on. -/
theorem exists_turn_of_task (hc : (c.process view).Guarded)
    {i : Nat} {t : Thread} (ht : c.threads[i]? = some t)
    (hleft : t.task.remaining ≠ 0) : ∃ i c', c.turn view i = some c' := by
  have htask : (c.process view).tasks[i]? = some t.task := by
    rw [process, List.getElem?_map, ht, Option.map_some]
  obtain ⟨k, q, hadvance, hlt⟩ := hc.exists_step htask hleft
  obtain ⟨u, u', s, hu, hstep, rfl⟩ := Process.advance_eq_some hadvance
  obtain ⟨w, hw, rfl⟩ : ∃ w, c.threads[k]? = some w ∧ w.task = u := by
    rwa [process, List.getElem?_map, Option.map_eq_some_iff] at hu
  refine exists_turn_of_step hw fun hnone => ?_
  cases hcurrent : w.current with
  | none =>
      -- an operation that has ended has nothing to bring nearer to its end
      have hended : w.task = .ended none := by rw [Thread.task, hcurrent]
      rw [hended] at hu hstep
      cases hstep
      have hset := Process.sum_map_set Task.remaining hu (.ended none)
      simp only [Process.remaining] at hlt
      omega
  | some x =>
      obtain ⟨job, stage⟩ := x
      have hcomputing : w.task = .computing (job.call stage) := by
        rw [Thread.task, hcurrent]
      rw [hcomputing] at hstep
      obtain ⟨y, hcall, -⟩ := Option.map_eq_some_iff.1 hstep
      simp only [Thread.step, hcurrent, Option.map_eq_none_iff] at hnone
      rw [process, hnone] at hcall
      cases hcall

/-- As long as a thread is not done, some thread can take a turn. -/
theorem exists_turn (hc : (c.process view).Guarded)
    (hlive : ∀ t ∈ c.threads, t.Live) (h : ¬ c.Done) :
    ∃ i c', c.turn view i = some c' := by
  obtain ⟨t, ht⟩ := Classical.not_forall.1 h
  obtain ⟨hmem, hnot⟩ := Classical.not_imp.1 ht
  obtain ⟨i, hi⟩ := List.getElem?_of_mem hmem
  cases hcurrent : t.current with
  | none =>
      cases hqueue : t.queue with
      | nil => exact absurd ⟨hcurrent, hqueue⟩ hnot
      | cons job queue =>
          exact exists_turn_of_step hi (by simp [Thread.step, hcurrent, hqueue])
  | some x =>
      refine exists_turn_of_task hc hi ?_
      rw [Thread.task, hcurrent]
      exact hlive t hmem x.1 x.2 hcurrent

section Start

variable {capacity : UInt64} {thresholds : List UInt64}
  {programs : List (List Job)}

theorem programs_start :
    (start capacity thresholds programs).threads.map Thread.program =
      programs := by
  simp [start, Function.comp_def]

theorem live_start : ∀ t ∈ (start capacity thresholds programs).threads,
    t.Live := by
  intro t ht
  obtain ⟨program, -, rfl⟩ := List.mem_map.1 ht
  exact Thread.live_start program

theorem guarded_start (view : FileView) :
    ((start capacity thresholds programs).process view).Guarded := by
  refine (Process.guarded_start [some capacity] thresholds view).congr
    rfl fun k => ?_
  have hended : ((start capacity thresholds programs).process view).tasks =
      programs.map fun _ => .ended none := by
    simp [process, start, Thread.start, Thread.task, Function.comp_def]
  rw [Process.holds, hended, List.getElem?_map]
  cases programs[k]? <;> rfl

theorem remaining_start :
    (start capacity thresholds programs).remaining =
      8 * programs.flatten.length := by
  rw [remaining, start, List.map_map, List.length_flatten]
  induction programs with
  | nil => rfl
  | cons program programs ih =>
      rw [List.map_cons, List.sum_cons, List.map_cons, List.sum_cons,
        ih, Nat.mul_add]
      rfl

end Start

end Threads

end FileDigest
