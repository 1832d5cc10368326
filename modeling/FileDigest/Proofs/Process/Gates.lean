import FileDigest.Proofs.Process.Stores

/-!
# Who holds the gates

A computation holds a gate while it reads, if the size that it was given is
beyond the gate's threshold. The gate itself only says that it is held, and not
by whom. The invariant `Process.Guarded` says that the two agree: a gate is held
exactly when some operation holds it, and then there is one such operation. A
step either moves no gate, or takes one that nobody held, or lets go of the one
that the operation held; `Task.Passage` lists these three.
-/

namespace FileDigest

def Stage.inGate : Stage → Bool
  | reading _ => true
  | leaving _ _ => true
  | _ => false

namespace Site

def SameThresholds (s s' : Site) : Prop :=
  ∀ i, (s'.gate i).threshold = (s.gate i).threshold

theorem SameThresholds.requiresSerial {s s' : Site}
    (h : s.SameThresholds s') (i : Nat) (size : SizeHint) :
    (s'.gate i).requiresSerial size = (s.gate i).requiresSerial size := by
  cases size with
  | unknown => rfl
  | known n =>
      change decide ((s'.gate i).threshold < n) =
        decide ((s.gate i).threshold < n)
      rw [h i]

theorem gate_congr {s s' : Site} (h : s'.gates = s.gates) (i : Nat) :
    s'.gate i = s.gate i := by
  rw [gate, gate, h]

def setHeld (s : Site) (i : Nat) (held : Bool) : Site :=
  s.setGate i { s.gate i with held := held }

theorem sameThresholds_setHeld (s : Site) (i : Nat) (held : Bool) :
    s.SameThresholds (s.setHeld i held) := by
  intro j
  rw [setHeld, gate_setGate]
  split
  · rename_i h
    rw [h.1]
  · rfl

theorem held_setHeld (s : Site) (i : Nat) (held : Bool) (j : Nat) :
    ((s.setHeld i held).gate j).held =
      if i = j ∧ i < s.gates.length then held else (s.gate j).held := by
  rw [setHeld, gate_setGate]
  split <;> rfl

end Site

namespace Task

def holds (s : Site) : Task → Option Nat
  | computing c =>
      if c.stage.inGate && (s.gate c.resolver.gate).requiresSerial c.size then
        some c.resolver.gate
      else none
  | _ => none

theorem holds_congr {s s' : Site} (h : s.SameThresholds s') (t : Task) :
    t.holds s' = t.holds s := by
  cases t with
  | computing c => simp only [holds, h.requiresSerial]
  | _ => rfl

/-- What a step of an operation does to the gates. -/
inductive Passage (s : Site) (t t' : Task) (s' : Site) : Prop where
  | none (hgates : s'.gates = s.gates) (hholds : t'.holds s = t.holds s)
  | take (i : Nat) (hgates : s'.gates = (s.setHeld i true).gates)
      (hfree : (s.gate i).held = false) (hbefore : t.holds s = .none)
      (hafter : t'.holds s = some i)
  | release (i : Nat) (hgates : s'.gates = (s.setHeld i false).gates)
      (hbefore : t.holds s = some i) (hafter : t'.holds s = .none)

theorem step_passage {view : FileView} {s s' : Site} {t t' : Task}
    (h : t.step view s = some (t', s')) :
    Passage s t t' s' := by
  cases step_eq_some_iff.1 h with
  | @computed r path size stage stage' s' hcall =>
      cases hcall with
      | @entered slot g hgate =>
          cases hserial : (s.gate r.gate).requiresSerial size with
          | false =>
              rw [Gate.enter_of_not_requiresSerial hserial] at hgate
              cases hgate
              refine .none ?_ (by simp [holds, hserial])
              rw [Site.setGate_gate_self]
          | true =>
              simp only [Gate.enter, hserial, if_true] at hgate
              split at hgate
              · cases hgate
              · cases hgate
                exact .take r.gate rfl (Bool.eq_false_iff.2 ‹_›) rfl
                  (by simp [holds, hserial, Stage.inGate])
      | @left slot answer =>
          have hafter : (Call.afterRead ⟨r, path, size, .leaving slot answer⟩
              slot answer).inGate
              = false := by
            cases answer with
            | error e => rfl
            | ok found => cases found <;> cases slot <;> rfl
          cases hserial : (s.gate r.gate).requiresSerial size with
          | false =>
              refine .none ?_ (by simp [holds, hserial])
              simp [Gate.leave, hserial, Site.setGate_gate_self]
          | true =>
              refine .release r.gate ?_ (by simp [holds, hserial, Stage.inGate])
                (by simp [holds, hafter])
              simp [Gate.leave, hserial, Site.setHeld]
      | _ => exact .none rfl rfl
  | _ => exact .none rfl rfl

theorem Passage.sameThresholds {s s' : Site} {t t' : Task}
    (h : Passage s t t' s') : s.SameThresholds s' := by
  intro i
  cases h with
  | none hgates hholds => rw [Site.gate_congr hgates]
  | take j hgates hfree hbefore hafter =>
      rw [Site.gate_congr hgates, Site.sameThresholds_setHeld s j true i]
  | release j hgates hbefore hafter =>
      rw [Site.gate_congr hgates, Site.sameThresholds_setHeld s j false i]

theorem Passage.length_gates {s s' : Site} {t t' : Task}
    (h : Passage s t t' s') : s'.gates.length = s.gates.length := by
  cases h with
  | none hgates hholds => rw [hgates]
  | take i hgates hfree hbefore hafter =>
      rw [hgates, Site.setHeld, Site.length_gates_setGate]
  | release i hgates hbefore hafter =>
      rw [hgates, Site.setHeld, Site.length_gates_setGate]

theorem holds_begun (o : Operation) (s s' : Site) :
    (o.begun s).holds s' = .none := by
  cases o with
  | compute r path size =>
      simp only [Operation.begun, Call.opened, holds]
      cases (s.cache r.cache).current <;> rfl
  | _ => rfl

end Task

namespace Process

def holds (p : Process) (j : Nat) : Option Nat :=
  (p.tasks[j]?).bind fun t => t.holds p.site

/-- A gate is held exactly when an operation holds it, and then one operation
does. -/
structure Guarded (p : Process) : Prop where
  held_iff : ∀ i < p.site.gates.length, (p.site.gate i).held = true ↔ ∃ j,
    p.holds j = some i
  unique : ∀ i < p.site.gates.length, ∀ j k, p.holds j = some i →
    p.holds k = some i → j = k

variable {p q : Process} {a : Action}

theorem holds_advance {j : Nat} {t t' : Task} {s : Site}
    (ht : p.tasks[j]? = some t) (hs : p.site.SameThresholds s) (k : Nat) :
    ({ p with site := s, tasks := p.tasks.set j t' } : Process).holds k =
      if j = k then t'.holds p.site else p.holds k := by
  have hj : j < p.tasks.length := (List.getElem?_eq_some_iff.1 ht).1
  simp only [holds, List.getElem?_set, Task.holds_congr hs]
  by_cases hjk : j = k
  · subst hjk
    simp [hj]
  · simp [hjk]

theorem holds_begin (o : Operation) (k : Nat) :
    ({ p with tasks := p.tasks ++ [o.begun p.site] } : Process).holds k =
      p.holds k := by
  simp only [holds]
  rcases Nat.lt_or_ge k p.tasks.length with hk | hk
  · rw [List.getElem?_append_left hk]
  · rw [List.getElem?_append_right hk, List.getElem?_eq_none hk]
    cases h : [o.begun p.site][k - p.tasks.length]? with
    | none => rfl
    | some t =>
        rw [List.mem_singleton.1 (List.mem_of_getElem? h)]
        exact Task.holds_begun o p.site p.site

theorem sameThresholds_step (h : p.step a = some q) :
    p.site.SameThresholds q.site := by
  rcases step_cases h with ⟨view, rfl, rfl⟩ | ⟨j, n, rfl, rfl⟩ | ⟨o, rfl, rfl⟩ |
    ⟨j, t, t', s, rfl, ht, hstep, rfl⟩
  · exact fun i => rfl
  · exact fun i => rfl
  · exact fun i => rfl
  · exact (Task.step_passage hstep).sameThresholds

theorem guarded_start (caches : List (Option UInt64)) (thresholds : List UInt64)
    (view : FileView) :
    (start caches thresholds view).Guarded where
  held_iff i _ := by
    have hfree := Site.held_gate_fresh caches thresholds i
    simp [start, holds, hfree]
  unique i _ j k hj := by simp [start, holds] at hj

theorem Guarded.congr (hp : p.Guarded) (hgates : q.site.gates = p.site.gates)
    (hholds : ∀ k, q.holds k = p.holds k) :
    q.Guarded where
  held_iff i hi := by
    rw [hgates] at hi
    rw [Site.gate_congr hgates, hp.held_iff i hi]
    simp only [hholds]
  unique i hi j k := by
    rw [hgates] at hi
    rw [hholds, hholds]
    exact hp.unique i hi j k

theorem Guarded.take (hp : p.Guarded) {i j : Nat}
    (hgates : q.site.gates = (p.site.setHeld i true).gates)
    (hholds : ∀ k, q.holds k = if j = k then some i else p.holds k)
    (hfree : (p.site.gate i).held = false) (hbefore : p.holds j = none) :
    q.Guarded := by
  have hlength : q.site.gates.length = p.site.gates.length := by
    rw [hgates, Site.setHeld, Site.length_gates_setGate]
  have hnobody : i < p.site.gates.length → ∀ k, p.holds k ≠ some i := by
    intro hi k hk
    have hheld := (hp.held_iff i hi).2 ⟨k, hk⟩
    rw [hfree] at hheld
    cases hheld
  constructor
  · intro i' hi
    rw [hlength] at hi
    rw [Site.gate_congr hgates, Site.held_setHeld]
    by_cases hii : i = i'
    · subst hii
      rw [if_pos ⟨rfl, hi⟩]
      exact ⟨fun _ => ⟨j, by rw [hholds, if_pos rfl]⟩, fun _ => rfl⟩
    · rw [if_neg fun h => hii h.1, hp.held_iff i' hi]
      constructor
      · rintro ⟨k, hk⟩
        have hjk : j ≠ k := by
          rintro rfl
          rw [hbefore] at hk
          cases hk
        exact ⟨k, by rw [hholds, if_neg hjk, hk]⟩
      · rintro ⟨k, hk⟩
        rw [hholds] at hk
        split at hk
        · exact absurd (Option.some.inj hk) hii
        · exact ⟨k, hk⟩
  · intro i' hi k l hk hl
    rw [hlength] at hi
    rw [hholds] at hk hl
    split at hk
    · cases hk
      split at hl
      · rw [← ‹j = k›, ← ‹j = l›]
      · exact absurd hl (hnobody hi l)
    · split at hl
      · cases hl
        exact absurd hk (hnobody hi k)
      · exact hp.unique i' hi k l hk hl

theorem Guarded.release (hp : p.Guarded) {i j : Nat}
    (hgates : q.site.gates = (p.site.setHeld i false).gates)
    (hholds : ∀ k, q.holds k = if j = k then none else p.holds k)
    (hbefore : p.holds j = some i) :
    q.Guarded := by
  have hlength : q.site.gates.length = p.site.gates.length := by
    rw [hgates, Site.setHeld, Site.length_gates_setGate]
  have hback : ∀ k i', q.holds k = some i' → j ≠ k ∧ p.holds k = some i' := by
    intro k i' hk
    rw [hholds] at hk
    split at hk
    · cases hk
    · exact ⟨‹_›, hk⟩
  constructor
  · intro i' hi
    rw [hlength] at hi
    rw [Site.gate_congr hgates, Site.held_setHeld]
    by_cases hii : i = i'
    · subst hii
      rw [if_pos ⟨rfl, hi⟩]
      constructor
      · intro h
        cases h
      · rintro ⟨k, hk⟩
        obtain ⟨hjk, hk⟩ := hback k i hk
        exact absurd (hp.unique i hi j k hbefore hk) hjk
    · rw [if_neg fun h => hii h.1, hp.held_iff i' hi]
      constructor
      · rintro ⟨k, hk⟩
        have hjk : j ≠ k := by
          rintro rfl
          rw [hbefore] at hk
          exact hii (Option.some.inj hk)
        exact ⟨k, by rw [hholds, if_neg hjk, hk]⟩
      · rintro ⟨k, hk⟩
        exact ⟨k, (hback k i' hk).2⟩
  · intro i' hi k l hk hl
    rw [hlength] at hi
    exact hp.unique i' hi k l (hback k i' hk).2 (hback l i' hl).2

theorem Guarded.passage (hp : p.Guarded) {j : Nat} {t t' : Task} {s : Site}
    (ht : p.tasks[j]? = some t) (h : Task.Passage p.site t t' s) :
    ({ p with site := s, tasks := p.tasks.set j t' } : Process).Guarded := by
  have hholds : ∀ k, _ = if j = k then t'.holds p.site else p.holds k :=
    fun k => holds_advance ht h.sameThresholds k
  have hj : p.holds j = t.holds p.site := by simp [holds, ht]
  cases h with
  | none hgates hsame =>
      refine hp.congr hgates fun k => ?_
      rw [hholds k]
      split
      · subst k
        rw [hj, hsame]
      · rfl
  | take i hgates hfree hbefore hafter =>
      rw [hafter] at hholds
      exact hp.take hgates hholds hfree (hj.trans hbefore)
  | release i hgates hbefore hafter =>
      rw [hafter] at hholds
      exact hp.release hgates hholds (hj.trans hbefore)

theorem Guarded.step (hp : p.Guarded) (h : p.step a = some q) : q.Guarded := by
  rcases step_cases h with ⟨view, rfl, rfl⟩ | ⟨j, n, rfl, rfl⟩ | ⟨o, rfl, rfl⟩ |
    ⟨j, t, t', s, rfl, ht, hstep, rfl⟩
  · exact hp.congr rfl fun k => rfl
  · exact hp.congr rfl fun k => rfl
  · exact hp.congr rfl fun k => holds_begin o k
  · exact hp.passage ht (Task.step_passage hstep)

theorem Guarded.run (hp : p.Guarded) {as : List Action}
    (h : p.run as = some q) : q.Guarded :=
  run_induction h hp fun _ _ _ _ hp hstep => hp.step hstep

end Process

end FileDigest
