import FileDigest.Proofs.Resolver.Steps
import FileDigest.Proofs.Site
import Mathlib.Algebra.GroupWithZero.Nat

/-!
# Operations side by side

Any number of operations may be under way at a site: manual computations, direct
lookups and insertions, and readings of counters. Each takes the store in use of
its cache when it begins, in one action with its beginning, and goes on step by
step; between two steps the other operations go on, the file system changes, and
caches are configured anew. A run is a list of such actions, in any order.

Operations are numbered in the order of their beginnings and stay in the list
when they have ended. An action is not possible when it advances an operation
that was never begun or one that has to wait for its gate. A computation with
digests at hand and the digest of a tree are manual computations begun one after
another, so runs of these are runs of this kind
(`Host.exists_run_digestVisits`).
-/

namespace FileDigest

inductive Operation where
  | compute (r : Resolver) (path : Path) (size : SizeHint)
  | lookup (cache : Nat) (key : CacheKey)
  | insert (cache : Nat) (key : CacheKey) (d : Digest)
  /-- Reads the counters of a cache or the number of its entries. -/
  | inspect (cache : Nat)

def Operation.cache : Operation → Nat
  | compute r _ _ => r.cache
  | lookup i _ => i
  | insert i _ _ => i
  | inspect i => i

/-- An operation under way. A direct one holds the number of the store that was
in use when it began. -/
inductive Task where
  | computing (c : Call)
  | looking (cache : Nat) (store : Option Nat) (key : CacheKey)
  | inserting (cache : Nat) (store : Option Nat) (key : CacheKey) (d : Digest)
  /-- A direct operation that has ended, with the answer of a lookup. -/
  | ended (found : Option Digest)

def Operation.begun (s : Site) : Operation → Task
  | compute r path size => .computing (Call.opened s r path size)
  | lookup i k => .looking i (s.cache i).current k
  | insert i k d => .inserting i (s.cache i).current k d
  | inspect _ => .ended none

namespace Task

def step (view : FileView) (s : Site) : Task → Option (Task × Site)
  | computing c => (c.step view s).map fun x => (computing x.1, x.2)
  | looking i (some g) k =>
      some (ended ((s.cache i).getAt g k).1,
        s.setCache i ((s.cache i).getAt g k).2)
  | looking _ none _ => some (ended none, s)
  | inserting i (some g) k d =>
      some (ended none,
        (s.setCache i ((s.cache i).insertAt g k d)).report
          (.digestCached k.path d))
  | inserting _ none _ _ => some (ended none, s)
  | ended found => some (ended found, s)

/-- What one step of an operation does. Whatever every step keeps is proved by
cases on it. -/
inductive Step (view : FileView) (s : Site) : Task → Task → Site → Prop where
  | computed {r : Resolver} {path : Path} {size : SizeHint}
      {stage stage' : Stage} {s' : Site}
      (h : Call.Step view s ⟨r, path, size, stage⟩ stage stage' s') :
      Step view s (computing ⟨r, path, size, stage⟩)
        (computing ⟨r, path, size, stage'⟩) s'
  | looked {i g : Nat} {k : CacheKey} :
      Step view s (looking i (some g) k) (ended ((s.cache i).getAt g k).1)
        (s.setCache i ((s.cache i).getAt g k).2)
  | lookedOff {i : Nat} {k : CacheKey} : Step view s (looking i none k)
      (ended none) s
  | inserted {i g : Nat} {k : CacheKey} {d : Digest} :
      Step view s (inserting i (some g) k d) (ended none)
        ((s.setCache i ((s.cache i).insertAt g k d)).report
          (.digestCached k.path d))
  | insertedOff {i : Nat} {k : CacheKey} {d : Digest} :
      Step view s (inserting i none k d) (ended none) s
  | stayed {found : Option Digest} : Step view s (ended found) (ended found) s

theorem step_eq_some_iff {view : FileView} {s s' : Site} {t t' : Task} :
    t.step view s = some (t', s') ↔ Step view s t t' s' := by
  constructor
  · intro h
    cases t with
    | computing c =>
        obtain ⟨⟨c', s''⟩, hcall, heq⟩ := Option.map_eq_some_iff.1 h
        cases heq
        obtain ⟨stage, rfl, hstep⟩ := Call.step_sound hcall
        exact .computed hstep
    | looking i g k =>
        cases g <;> cases h
        · exact .lookedOff
        · exact .looked
    | inserting i g k d =>
        cases g <;> cases h
        · exact .insertedOff
        · exact .inserted
    | ended found =>
        cases h
        exact .stayed
  · intro h
    cases h with
    | computed h => rw [step, Call.step_complete h rfl, Option.map_some]
    | _ => rfl

end Task

/-- The file system, the site and the operations at one moment. -/
structure Process where
  view : FileView
  site : Site
  tasks : List Task

inductive Action where
  | change (view : FileView)
  | configure (cache : Nat) (capacity : UInt64)
  | begin (o : Operation)
  | advance (task : Nat)

namespace Process

def start (caches : List (Option UInt64)) (thresholds : List UInt64)
    (view : FileView) : Process :=
  ⟨view, Site.fresh caches thresholds, []⟩

def advance (p : Process) (j : Nat) : Option Process :=
  match p.tasks[j]? with
  | some t =>
      (t.step p.view p.site).map fun x =>
        { p with site := x.2, tasks := p.tasks.set j x.1 }
  | none => none

def step (p : Process) : Action → Option Process
  | .change view => some { p with view := view }
  | .configure i capacity => some { p with site := p.site.configure i capacity }
  | .begin o => some { p with tasks := p.tasks ++ [o.begun p.site] }
  | .advance j => p.advance j

def run (p : Process) : List Action → Option Process
  | [] => some p
  | a :: as => (p.step a).bind fun q => q.run as

variable {p q : Process}

@[simp] theorem run_nil (p : Process) : p.run [] = some p := rfl

theorem run_cons (p : Process) (a : Action) (as : List Action) :
    p.run (a :: as) = (p.step a).bind fun q => q.run as := rfl

theorem run_cons_eq_some {a : Action} {as : List Action} :
    p.run (a :: as) = some q ↔ ∃ m, p.step a = some m ∧ m.run as = some q := by
  rw [run_cons, Option.bind_eq_some_iff]

theorem run_append (p : Process) (as bs : List Action) :
    p.run (as ++ bs) = (p.run as).bind fun q => q.run bs := by
  induction as generalizing p with
  | nil => rfl
  | cons a as ih =>
      rw [List.cons_append, run_cons, run_cons, Option.bind_assoc]
      congr 1
      funext m
      exact ih m

theorem run_append_eq_some {as bs : List Action} :
    p.run (as ++ bs) = some q ↔ ∃ m, p.run as = some m ∧ m.run bs = some q := by
  rw [run_append, Option.bind_eq_some_iff]

theorem run_concat_eq_some {as : List Action} {a : Action} :
    p.run (as ++ [a]) = some q ↔ ∃ m, p.run as = some m ∧
    m.step a = some q := by
  rw [run_append_eq_some]
  simp [run_cons]

theorem advance_eq_some {j : Nat} (h : p.advance j = some q) :
    ∃ t t' s, p.tasks[j]? = some t ∧ t.step p.view p.site = some (t', s) ∧
      q = { p with site := s, tasks := p.tasks.set j t' } := by
  unfold advance at h
  split at h
  · obtain ⟨⟨t', s⟩, hstep, rfl⟩ := Option.map_eq_some_iff.1 h
    exact ⟨_, t', s, ‹_›, hstep, rfl⟩
  · cases h

theorem task_of_begin {ts : List Task} {t u : Task} {j : Nat}
    (h : (ts ++ [t])[j]? = some u) :
    ts[j]? = some u ∨ j = ts.length ∧ u = t := by
  rw [List.getElem?_append] at h
  split at h
  · exact Or.inl h
  · have hlen := (List.getElem?_eq_some_iff.1 h).1
    simp only [List.length_singleton] at hlen
    exact Or.inr ⟨by omega, List.mem_singleton.1 (List.mem_of_getElem? h)⟩

theorem task_of_advance {ts : List Task} {t u : Task} {j k : Nat}
    (h : (ts.set j t)[k]? = some u) :
    j = k ∧ u = t ∨ j ≠ k ∧ ts[k]? = some u := by
  rw [List.getElem?_set] at h
  split at h
  · split at h
    · exact Or.inl ⟨‹_›, (Option.some.inj h).symm⟩
    · cases h
  · exact Or.inr ⟨‹_›, h⟩

theorem sum_map_set {α : Type} (f : α → Nat) {xs : List α} {i : Nat} {x : α}
    (hx : xs[i]? = some x) (y : α) :
    ((xs.set i y).map f).sum + f x = (xs.map f).sum + f y := by
  induction xs generalizing i with
  | nil => cases hx
  | cons z zs ih =>
      cases i with
      | zero =>
          cases hx
          simp only [List.set_cons_zero, List.map_cons, List.sum_cons]
          omega
      | succ i =>
          have hrest := ih hx
          simp only [List.set_cons_succ, List.map_cons, List.sum_cons]
          omega

theorem step_cases {a : Action} (h : p.step a = some q) :
    (∃ view, a = .change view ∧ q = { p with view := view }) ∨
    (∃ i n, a = .configure i n ∧ q = { p with site := p.site.configure i n }) ∨
    (∃ o, a = .begin o ∧ q = { p with tasks := p.tasks ++ [o.begun p.site] }) ∨
    ∃ j t t' s, a = .advance j ∧ p.tasks[j]? = some t ∧ t.step p.view p.site =
      some (t', s) ∧
      q = { p with site := s, tasks := p.tasks.set j t' } := by
  cases a with
  | change view => exact Or.inl ⟨view, rfl, (Option.some.inj h).symm⟩
  | configure i n => exact Or.inr (Or.inl ⟨i, n, rfl, (Option.some.inj h).symm⟩)
  | begin o => exact Or.inr (Or.inr (Or.inl ⟨o, rfl, (Option.some.inj h).symm⟩))
  | advance j =>
      obtain ⟨t, t', s, ht, hstep, rfl⟩ := advance_eq_some h
      exact Or.inr (Or.inr (Or.inr ⟨j, t, t', s, rfl, ht, hstep, rfl⟩))

theorem run_induction {P : Process → Prop} {as : List Action}
    (h : p.run as = some q) (hp : P p)
    (hstep : ∀ p a q, a ∈ as → P p → p.step a = some q → P q) : P q := by
  induction as generalizing p with
  | nil =>
      cases h
      exact hp
  | cons a as ih =>
      obtain ⟨m, hm, hrun⟩ := run_cons_eq_some.1 h
      have hPm : P m := hstep p a m List.mem_cons_self hp hm
      exact ih hrun hPm fun p b q hb => hstep p b q (List.mem_cons_of_mem a hb)

end Process

end FileDigest
