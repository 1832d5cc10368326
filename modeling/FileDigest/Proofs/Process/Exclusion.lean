import FileDigest.Proofs.Process.Gates

/-!
# One large read at a time, and no other waits

A thread is whoever begins one operation after another, and the operations of
all threads stand side by side in a process. What is added here is that an
operation may panic at any point of its way. Then it drops the guard of its
gate, if it has it, and nothing comes of it; the others go on, so a panic is one
more way to give a gate back, and `Process.Guarded` is kept.

Only an operation in front of a gate ever waits, and only if its size is beyond
the threshold and somebody else holds that gate. Whoever holds a gate is behind
it and can go on. So while there is anything left to do, somebody can do it, and
every step of an operation that is not over brings the end nearer
(`Process.remaining`).
-/

namespace FileDigest

theorem Site.lt_length_of_held {s : Site} {i : Nat}
    (h : (s.gate i).held = true) : i < s.gates.length := by
  refine Nat.lt_of_not_ge fun hi => ?_
  rw [gate, List.getElem?_eq_none hi] at h
  cases h

theorem Stage.remaining_ne_zero_of_inGate {stage : Stage}
    (h : stage.inGate = true) : stage.remaining ≠ 0 := by
  cases stage with
  | reading slot => exact Nat.succ_ne_zero 2
  | leaving slot answer => exact Nat.succ_ne_zero 1
  | _ => cases h

theorem Call.Step.remaining_lt {view : FileView} {s s' : Site} {c : Call}
    {stage stage' : Stage} (h : Step view s c stage stage' s')
    (hleft : stage.remaining ≠ 0) : stage'.remaining < stage.remaining := by
  cases h with
  | @left slot answer =>
      cases answer with
      | error e => exact Nat.zero_lt_succ 1
      | ok found =>
          cases found <;> cases slot <;> simp [Call.afterRead, Stage.remaining]
  | stayed => exact absurd rfl hleft
  | _ => simp [Stage.remaining]

namespace Task

def remaining : Task → Nat
  | computing c => c.stage.remaining
  | looking _ _ _ => 1
  | inserting _ _ _ _ => 1
  | ended _ => 0

/-- The site after an operation panicked: a guard that it had is dropped. -/
def unwind (s : Site) : Task → Site
  | computing c =>
      if c.stage.inGate then
        s.setGate c.resolver.gate ((s.gate c.resolver.gate).leave c.size)
      else s
  | _ => s

variable {view : FileView} {s s' : Site} {t t' : Task}

theorem unwind_passage (s : Site) (t : Task) :
    Passage s t (ended none) (t.unwind s) := by
  cases t with
  | computing c =>
      cases hin : c.stage.inGate with
      | false => exact .none (by simp [unwind, hin]) (by simp [holds, hin])
      | true =>
          cases hserial : (s.gate c.resolver.gate).requiresSerial c.size with
          | false =>
              refine .none ?_ (by simp [holds, hserial])
              simp [unwind, hin, Gate.leave, hserial, Site.setGate_gate_self]
          | true =>
              refine .release c.resolver.gate ?_
                (by simp [holds, hin, hserial]) rfl
              simp [unwind, hin, Gate.leave, hserial, Site.setHeld]
  | _ => exact .none rfl rfl

theorem remaining_step_lt (h : t.step view s = some (t', s'))
    (hleft : t.remaining ≠ 0) : t'.remaining < t.remaining := by
  cases step_eq_some_iff.1 h with
  | computed h => exact h.remaining_lt hleft
  | stayed => exact absurd rfl hleft
  | _ => exact Nat.zero_lt_one

theorem step_eq_none_iff :
    t.step view s = none ↔ ∃ c slot, t = computing c ∧
    c.stage = .entering slot ∧
      (s.gate c.resolver.gate).requiresSerial c.size = true ∧
      (s.gate c.resolver.gate).held = true := by
  constructor
  · intro h
    cases t with
    | computing c =>
        obtain ⟨r, path, size, stage⟩ := c
        rw [step, Option.map_eq_none_iff] at h
        cases stage with
        | entering slot =>
            simp only [Call.step] at h
            split at h
            · cases h
            · exact ⟨_, slot, rfl, rfl, Gate.enter_eq_none_iff.1 ‹_›⟩
        | opening | identifying _ | consulting _ =>
            simp only [Call.step] at h
            split at h <;> cases h
        | _ => cases h
    | looking i g k => cases g <;> cases h
    | inserting i g k d => cases g <;> cases h
    | ended found => cases h
  · rintro ⟨c, slot, rfl, hstage, hblocked⟩
    rw [step, Option.map_eq_none_iff, Call.step, hstage]
    simp only [Gate.enter_eq_none_iff.2 hblocked]

theorem step_ne_none_of_inGate {c : Call} (hin : c.stage.inGate = true) :
    (computing c).step view s ≠ none := by
  intro hwaits
  obtain ⟨c', slot, hc, hstage, -, -⟩ := step_eq_none_iff.1 hwaits
  cases hc
  rw [hstage] at hin
  cases hin

theorem step_entering {c : Call} {slot : Option Slot}
    (hstage : c.stage = .entering slot)
    (h : (computing c).step view s = some (t', s')) :
    t' = computing { c with stage := .reading slot } := by
  obtain ⟨⟨c', s''⟩, hcall, heq⟩ := Option.map_eq_some_iff.1 h
  cases heq
  obtain ⟨stage, rfl, hstep⟩ := Call.step_sound hcall
  rw [hstage] at hstep
  cases hstep
  rfl

end Task

/-- What happens next when operations may also panic. -/
inductive Move where
  | act (a : Action)
  | panic (task : Nat)

namespace Process

/-- A large read under a gate: the known size of what an operation is reading is
beyond the threshold. -/
def LargeReading (p : Process) (i j : Nat) : Prop :=
  ∃ c n, p.tasks[j]? = some (.computing c) ∧ c.stage.inGate = true ∧
    c.resolver.gate = i ∧
    c.size = .known n ∧ (p.site.gate i).threshold < n

def remaining (p : Process) : Nat := (p.tasks.map Task.remaining).sum

def panic (p : Process) (j : Nat) : Option Process :=
  match p.tasks[j]? with
  | some t =>
      if t.remaining = 0 then none
      else some { p with
        site := t.unwind p.site
        tasks := p.tasks.set j (.ended none) }
  | none => none

def move (p : Process) : Move → Option Process
  | .act a => p.step a
  | .panic j => p.panic j

def moves (p : Process) : List Move → Option Process
  | [] => some p
  | m :: ms => (p.move m).bind fun q => q.moves ms

variable {p q : Process}

theorem holds_eq_some_iff {i j : Nat} : p.holds j = some i ↔
    p.LargeReading i j := by
  rw [holds, Option.bind_eq_some_iff]
  constructor
  · rintro ⟨t, ht, hholds⟩
    cases t with
    | computing c =>
        simp only [Task.holds] at hholds
        split at hholds
        · rename_i h
          cases hholds
          rw [Bool.and_eq_true] at h
          cases hsize : c.size with
          | unknown => simp [hsize] at h
          | known n =>
              rw [hsize, Gate.requiresSerial_known] at h
              exact ⟨c, n, ht, h.1, rfl, hsize, h.2⟩
        · cases hholds
    | _ => cases hholds
  · rintro ⟨c, n, ht, hin, rfl, hsize, hlarge⟩
    refine ⟨_, ht, ?_⟩
    rw [Task.holds, hsize, (Gate.requiresSerial_known _ n).2 hlarge, hin]
    rfl

theorem panic_eq_some {j : Nat} (h : p.panic j = some q) :
    ∃ t, p.tasks[j]? = some t ∧
      q = { p with
        site := t.unwind p.site
        tasks := p.tasks.set j (.ended none) } := by
  unfold panic at h
  split at h
  · split at h
    · cases h
    · cases h
      exact ⟨_, ‹_›, rfl⟩
  · cases h

theorem moves_induction {P : Process → Prop} {ms : List Move}
    (h : p.moves ms = some q) (hp : P p)
    (hmove : ∀ p m q, P p → p.move m = some q → P q) : P q := by
  induction ms generalizing p with
  | nil =>
      cases h
      exact hp
  | cons m ms ih =>
      obtain ⟨n, hn, hrest⟩ := Option.bind_eq_some_iff.1 h
      exact ih hrest (hmove p m n hp hn)

theorem Guarded.move (hp : p.Guarded) {m : Move} (h : p.move m = some q) :
    q.Guarded := by
  cases m with
  | act a => exact hp.step h
  | panic j =>
      obtain ⟨t, ht, rfl⟩ := panic_eq_some h
      exact hp.passage ht (t.unwind_passage p.site)

theorem sameThresholds_move {m : Move} (h : p.move m = some q) :
    p.site.SameThresholds q.site := by
  cases m with
  | act a => exact sameThresholds_step h
  | panic j =>
      obtain ⟨t, ht, rfl⟩ := panic_eq_some h
      exact (t.unwind_passage p.site).sameThresholds

theorem length_gates_move {m : Move} (h : p.move m = some q) :
    q.site.gates.length = p.site.gates.length := by
  cases m with
  | act a =>
      rcases step_cases h with ⟨view, rfl, rfl⟩ | ⟨j, n, rfl, rfl⟩ |
        ⟨o, rfl, rfl⟩ |
        ⟨j, t, t', s, rfl, ht, hstep, rfl⟩
      · rfl
      · rw [Site.gates_configure]
      · rfl
      · exact Task.length_gates_step hstep
  | panic j =>
      obtain ⟨t, ht, rfl⟩ := panic_eq_some h
      exact (t.unwind_passage p.site).length_gates

theorem remaining_advance_lt {j : Nat} {t : Task} (ht : p.tasks[j]? = some t)
    (hleft : t.remaining ≠ 0) (h : p.step (.advance j) = some q) :
    q.remaining < p.remaining := by
  obtain ⟨u, t', s, hu, hstep, rfl⟩ := advance_eq_some h
  cases ht.symm.trans hu
  have hlt := Task.remaining_step_lt hstep hleft
  have hset := sum_map_set Task.remaining ht t'
  simp only [remaining]
  omega

theorem exists_advance {j : Nat} {t : Task} (ht : p.tasks[j]? = some t)
    (hready : t.step p.view p.site ≠ none) :
    ∃ t' s, t.step p.view p.site = some (t', s) ∧
      p.step (.advance j) =
        some { p with site := s, tasks := p.tasks.set j t' } := by
  obtain ⟨⟨t', s⟩, hstep⟩ := Option.ne_none_iff_exists'.1 hready
  refine ⟨t', s, hstep, ?_⟩
  simp only [step, advance, ht, hstep, Option.map_some]

/-- An operation in front of its gate gets in, unless its read is large and
another large read is under way there. -/
theorem Guarded.exists_enter (hp : p.Guarded) {j : Nat} {c : Call}
    {slot : Option Slot} (ht : p.tasks[j]? = some (.computing c))
    (hstage : c.stage = .entering slot)
    (hfree : (p.site.gate c.resolver.gate).requiresSerial c.size = false ∨
      ∀ k, ¬ p.LargeReading c.resolver.gate k) :
    ∃ q, p.step (.advance j) = some q ∧
      q.tasks[j]? = some (.computing { c with stage := .reading slot }) := by
  have hready : (Task.computing c).step p.view p.site ≠ none := by
    intro hwaits
    obtain ⟨c', slot', hc, -, hserial, hheld⟩ := Task.step_eq_none_iff.1 hwaits
    cases hc
    rcases hfree with hsmall | hnobody
    · rw [hsmall] at hserial
      cases hserial
    · obtain ⟨k, hk⟩ := (hp.held_iff _ (Site.lt_length_of_held hheld)).1 hheld
      exact hnobody k (holds_eq_some_iff.1 hk)
  obtain ⟨t', s, hstep, hadvance⟩ := exists_advance ht hready
  have hj : j < p.tasks.length := (List.getElem?_eq_some_iff.1 ht).1
  refine ⟨_, hadvance, ?_⟩
  rw [← Task.step_entering hstage hstep]
  exact List.getElem?_set_self hj

/-- While an operation is not over, one that is not over can go on. Where the
first has to wait, it is the one that it waits for. -/
theorem Guarded.exists_step (hp : p.Guarded) {j : Nat} {t : Task}
    (ht : p.tasks[j]? = some t) (hleft : t.remaining ≠ 0) :
    ∃ k q, p.step (.advance k) = some q ∧ q.remaining < p.remaining := by
  by_cases hready : t.step p.view p.site = none
  · obtain ⟨c, slot, rfl, -, -, hheld⟩ := Task.step_eq_none_iff.1 hready
    obtain ⟨k, hk⟩ := (hp.held_iff _ (Site.lt_length_of_held hheld)).1 hheld
    obtain ⟨holder, n, hholder, hin, -, -, -⟩ := holds_eq_some_iff.1 hk
    obtain ⟨t', s, -, hadvance⟩ :=
      exists_advance hholder (Task.step_ne_none_of_inGate hin)
    have hlt := remaining_advance_lt hholder
      (Stage.remaining_ne_zero_of_inGate hin) hadvance
    exact ⟨k, _, hadvance, hlt⟩
  · obtain ⟨t', s, -, hadvance⟩ := exists_advance ht hready
    exact ⟨j, _, hadvance, remaining_advance_lt ht hleft hadvance⟩

theorem exists_unfinished (h : p.remaining ≠ 0) :
    ∃ (j : Nat) (t : Task), p.tasks[j]? = some t ∧ t.remaining ≠ 0 := by
  obtain ⟨n, hn, hpos⟩ :=
    List.sum_pos_iff_exists_pos_nat.1 (Nat.pos_of_ne_zero h)
  obtain ⟨t, ht, rfl⟩ := List.mem_map.1 hn
  obtain ⟨j, hj⟩ := List.getElem?_of_mem ht
  exact ⟨j, t, hj, Nat.ne_of_gt hpos⟩

/-- However far the operations have come, all of them can be brought to their
ends by steps of their own. -/
theorem Guarded.exists_end (hp : p.Guarded) :
    ∃ (js : List Nat) (q : Process), p.run (js.map .advance) = some q ∧
    q.remaining = 0 := by
  induction hn : p.remaining using Nat.strongRecOn generalizing p with
  | ind n ih =>
      by_cases hzero : p.remaining = 0
      · exact ⟨[], p, rfl, hzero⟩
      · obtain ⟨j, t, ht, hleft⟩ := exists_unfinished hzero
        obtain ⟨k, m, hstep, hlt⟩ := hp.exists_step ht hleft
        obtain ⟨js, q, hrun, hend⟩ :=
          ih m.remaining (hn ▸ hlt) (hp.step hstep) rfl
        exact ⟨k :: js, q, run_cons_eq_some.2 ⟨m, hstep, hrun⟩, hend⟩

section Reachable

variable {caches : List (Option UInt64)} {thresholds : List UInt64}
  {view : FileView} {ms : List Move}

theorem guarded_of_moves
    (h : (start caches thresholds view).moves ms = some p) : p.Guarded :=
  moves_induction h (guarded_start caches thresholds view) fun _ _ _ hp hmove =>
    hp.move hmove

theorem length_gates_of_moves
    (h : (start caches thresholds view).moves ms = some p) :
    p.site.gates.length = thresholds.length + 1 := by
  refine moves_induction (P := fun q => q.site.gates.length =
    thresholds.length + 1) h ?_
    fun _ _ _ hp hmove => (length_gates_move hmove).trans hp
  simp [start, Site.gates_fresh]

theorem threshold_of_moves
    (h : (start caches thresholds view).moves ms = some p) (i : Nat) :
    (p.site.gate i).threshold =
      ((Gate.defaultThreshold :: thresholds)[i]?).getD
        Gate.defaultThreshold := by
  have hsame : (start caches thresholds view).site.SameThresholds p.site :=
    moves_induction (P := fun q =>
      (start caches thresholds view).site.SameThresholds q.site) h
      (fun _ => rfl) fun _ _ _ hp hmove k =>
        (sameThresholds_move hmove k).trans (hp k)
  rw [hsame i, start, Site.gate_fresh]
  rfl

/-- The gates of a process do what they are for, and no more. The shared gate
has the default threshold and the others have the given ones, and all keep them.
Of the large reads for resolvers with the shared gate, whatever their caches,
one at most is under way, and so it is under each other gate. A read of unknown
size, one that is not beyond the threshold, and one under whose gate no large
read is under way, can begin at once. And while an operation is not over, one
that is not over can go on. -/
theorem large_reads_exclusive (caches : List (Option UInt64))
    (thresholds : List UInt64) (view : FileView) {ms : List Move} {p : Process}
    (h : (start caches thresholds view).moves ms = some p) :
    (∀ cache, (p.site.gate (Resolver.new cache).gate).threshold =
      Gate.defaultThreshold) ∧
    (∀ i, (p.site.gate i).threshold =
      ((Gate.defaultThreshold :: thresholds)[i]?).getD Gate.defaultThreshold) ∧
    (∀ cache cache' j k, p.LargeReading (Resolver.new cache).gate j →
      p.LargeReading (Resolver.new cache').gate k → j = k) ∧
    (∀ i ≤ thresholds.length, ∀ j k, p.LargeReading i j →
      p.LargeReading i k → j = k) ∧
    (∀ j c slot, p.tasks[j]? = some (.computing c) → c.stage = .entering slot →
      (c.size = .unknown ∨
        (∃ n, c.size = .known n ∧ n ≤ (p.site.gate c.resolver.gate).threshold) ∨
        ∀ k, ¬ p.LargeReading c.resolver.gate k) →
      ∃ q, p.step (.advance j) = some q ∧
        q.tasks[j]? = some (.computing { c with stage := .reading slot })) ∧
    ((∃ (j : Nat) (t : Task), p.tasks[j]? = some t ∧ t.remaining ≠ 0) →
      ∃ j q, p.step (.advance j) = some q ∧ q.remaining < p.remaining) := by
  have hguarded : p.Guarded := guarded_of_moves h
  have hunique : ∀ i ≤ thresholds.length, ∀ j k, p.LargeReading i j →
      p.LargeReading i k →
      j = k := by
    intro i hi j k hj hk
    have hmade : i < p.site.gates.length := by
      rw [length_gates_of_moves h]
      exact Nat.lt_succ_of_le hi
    exact hguarded.unique i hmade j k (holds_eq_some_iff.2 hj)
      (holds_eq_some_iff.2 hk)
  refine ⟨fun cache => threshold_of_moves h Site.sharedGate,
    threshold_of_moves h, fun cache cache' =>
      hunique Site.sharedGate (Nat.zero_le _), hunique, ?_, ?_⟩
  · intro j c slot ht hstage hfree
    refine hguarded.exists_enter ht hstage ?_
    rcases hfree with hunknown | ⟨n, hknown, hsmall⟩ | hnobody
    · exact Or.inl (by rw [hunknown, Gate.requiresSerial_unknown])
    · refine Or.inl (Bool.eq_false_iff.2 fun hserial => ?_)
      rw [hknown, Gate.requiresSerial_known] at hserial
      exact absurd hserial (UInt64.not_lt.2 hsmall)
    · exact Or.inr hnobody
  · rintro ⟨j, t, ht, hleft⟩
    exact hguarded.exists_step ht hleft

end Reachable

/-- Three reads under the shared gate. The first is large and panics, upon which
the second, which is large too and waited for it, gets in; the third is of
unknown size and may enter beside the second. -/
theorem large_reads_exclusive_panicked :
    let view : FileView := ⟨fun _ => .error .notFound, fun _ => .ok none⟩
    let r := Resolver.new 0
    let read (size : SizeHint) : Move :=
      .act (.begin (.compute r (.ofText "a") size))
    let ms : List Move :=
      [read (.known 5000), read (.known 6000), read .unknown,
      .act (.advance 0), .panic 0, .act (.advance 1)]
    ∃ p, (start [] [] view).moves ms = some p ∧
      (p.site.gate r.gate).threshold = 4096 ∧
      (∀ j, p.LargeReading r.gate j ↔ j = 1) ∧
      (∃ q, p.step (.advance 2) = some q ∧ q.tasks[2]? =
        some (.computing ⟨r, .ofText "a", .unknown, .reading none⟩)) ∧
      ∃ j q, p.step (.advance j) = some q ∧ q.remaining < p.remaining := by
  intro view r read ms
  have hrun : ((start [] [] view).moves ms).isSome = true := by decide
  obtain ⟨p, hp⟩ := Option.isSome_iff_exists.1 hrun
  have hholds : ((start [] [] view).moves ms).map (fun p => p.holds 1) =
      some (some Site.sharedGate) := by decide
  have htasks : ((start [] [] view).moves ms).map (fun p => p.tasks[2]?) =
      some (some (.computing ⟨r, .ofText "a", .unknown, .entering none⟩)) := rfl
  rw [hp, Option.map_some] at hholds htasks
  have hreads : p.LargeReading Site.sharedGate 1 :=
    holds_eq_some_iff.1 (Option.some.inj hholds)
  have hwaits := Option.some.inj htasks
  obtain ⟨hthreshold, -, hunique, -, hfree, hprogress⟩ :=
    large_reads_exclusive [] [] view hp
  refine ⟨p, hp, hthreshold 0, fun j => ⟨fun hj => ?_, ?_⟩, ?_, ?_⟩
  · exact hunique 0 0 j 1 hj hreads
  · rintro rfl
    exact hreads
  · exact hfree 2 _ none hwaits rfl (Or.inl rfl)
  · exact hprogress ⟨2, _, hwaits, Nat.succ_ne_zero 3⟩

end Process

end FileDigest
