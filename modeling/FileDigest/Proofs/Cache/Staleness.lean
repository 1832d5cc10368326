import FileDigest.Proofs.Cache.Transparency
import FileDigest.Proofs.Process.Stores

/-!
# Digests that were never there

A computation asks for the status of a file before it reads the content, and
puts what it read under the key made from that status. When the file changes in
between, the digest of one content comes to stand under the key of another one.
A later computation that finds the file under the old key again is served this
digest, although the file has not had the content since that computation began.

This is the only way in which it happens. `Process.Recorded` says where an entry
of a cache comes from, namely from a computation that asked at one moment of the
run and read at a later one, and `Process.Knows` says for every stage of a
computation what it has seen of the file up to now. Both are about the past of a
run and are kept as the run goes on; the theorem follows from them for the
moment in which a computation returns.
-/

namespace FileDigest

def FileView.Holds (F : List Component × FileStatus → Digest)
    (view : FileView) (path : Path) (d : Digest) : Prop :=
  ∃ status, view.stat path = .ok status ∧
    d = F (CacheKey.mk path status).identity

/-- In this file system a file that can be read has a status, and its digest is
the given function of path and status. -/
def FileView.Described (F : List Component × FileStatus → Digest)
    (view : FileView) : Prop :=
  ∀ path d, view.read path = .ok (some d) → view.Holds F path d

theorem FileView.described_ofNode (node : UInt64) :
    (ofNode node).Described fun k => [k.2.node.toUInt8] := by
  intro path d hread
  cases hread
  exact ⟨_, rfl, rfl⟩

namespace Process

def Goes (s : Process) (as : List Action) (n j : Nat) (m : Process)
    (c : Call) : Prop :=
  as[n]? = some (.advance j) ∧ s.run (as.take n) = some m ∧
    m.tasks[j]? = some (.computing c)

/-- In the `n`-th action of a run a computation with a cache asks for the status
of a file and finds the key that it uses from then on. -/
def Asked (s : Process) (as : List Action) (n j i : Nat) (path : Path)
    (slot : Slot) : Prop :=
  ∃ m c, s.Goes as n j m c ∧ c.resolver.cache = i ∧ c.path = path ∧
    c.stage = .identifying slot.store ∧ slot.key.path = path ∧
    m.view.stat path = .ok slot.key.status

def Read (s : Process) (as : List Action) (n j : Nat) (path : Path)
    (answer : Except IoError (Option Digest)) : Prop :=
  ∃ m c slot, s.Goes as n j m c ∧ c.path = path ∧ c.stage = .reading slot ∧
    m.view.read path = answer

/-- A computation that took a generation of a cache has asked for an equal key
and has later read the digest. -/
def Recorded (s : Process) (as : List Action) (i g : Nat) (k : CacheKey)
    (d : Digest) : Prop :=
  ∃ j l n path slot, l < n ∧ s.Asked as l j i path slot ∧ slot.store = g ∧
    (slot.key == k) = true ∧ s.Read as n j path (.ok (some d))

/-- The operation with a number is under way or has just ended after `n` actions
of a run. -/
def During (s : Process) (as : List Action) (j n : Nat) (m : Process) : Prop :=
  n ≤ as.length ∧ s.run (as.take n) = some m ∧ j < m.tasks.length

/-- The computation was served a digest that a computation has read after the
content under its key had changed. -/
def ServedStale (F : List Component × FileStatus → Digest) (s : Process)
    (as : List Action) (j : Nat) (path : Path) (d : Digest) : Prop :=
  ∃ n i slot, s.Asked as n j i path slot ∧ d ≠ F slot.key.identity ∧
    s.Recorded as i slot.store slot.key d

/-- What a computation has seen of its file. -/
def Knows (F : List Component × FileStatus → Digest) (s : Process)
    (as : List Action) (j : Nat) (c : Call) : Prop :=
  match c.stage with
  | .consulting slot => ∃ l, s.Asked as l j c.resolver.cache c.path slot
  | .entering slot =>
      ∀ sl, slot = some sl → ∃ l, s.Asked as l j c.resolver.cache c.path sl
  | .reading slot =>
      ∀ sl, slot = some sl → ∃ l, s.Asked as l j c.resolver.cache c.path sl
  | .leaving slot answer =>
      ∃ n, s.Read as n j c.path answer ∧
        ∀ sl, slot = some sl → ∃ l < n,
        s.Asked as l j c.resolver.cache c.path sl
  | .recording sl d =>
      ∃ n, s.Read as n j c.path (.ok (some d)) ∧ ∃ l < n,
        s.Asked as l j c.resolver.cache c.path sl
  | .finished (.digest d) =>
      (∃ n m, s.During as j n m ∧ m.view.Holds F c.path d) ∨
        s.ServedStale F as j c.path d
  | _ => True

variable {F : List Component × FileStatus → Digest} {s p q m : Process}
  {as bs : List Action} {n j i g : Nat} {c : Call} {path : Path} {slot : Slot}
  {k : CacheKey} {d : Digest}

theorem Goes.lt_length (h : s.Goes as n j m c) : n < as.length :=
  (List.getElem?_eq_some_iff.1 h.1).1

/-- What has happened stays so as the run goes on. -/
theorem Goes.append (h : s.Goes as n j m c) (bs : List Action) :
    s.Goes (as ++ bs) n j m c := by
  have hn := h.lt_length
  refine ⟨?_, ?_, h.2.2⟩
  · rw [List.getElem?_append_left hn]
    exact h.1
  · rw [List.take_append_of_le_length (Nat.le_of_lt hn)]
    exact h.2.1

theorem Asked.append (h : s.Asked as n j i path slot) (bs : List Action) :
    s.Asked (as ++ bs) n j i path slot := by
  obtain ⟨m, c, hgoes, h⟩ := h
  exact ⟨m, c, hgoes.append bs, h⟩

theorem Read.append {answer : Except IoError (Option Digest)}
    (h : s.Read as n j path answer) (bs : List Action) :
    s.Read (as ++ bs) n j path answer := by
  obtain ⟨m, c, slot, hgoes, h⟩ := h
  exact ⟨m, c, slot, hgoes.append bs, h⟩

theorem Recorded.append (h : s.Recorded as i g k d) (bs : List Action) :
    s.Recorded (as ++ bs) i g k d := by
  obtain ⟨j, l, n, path, slot, hln, hasked, hg, hk, hread⟩ := h
  exact ⟨j, l, n, path, slot, hln, hasked.append bs, hg, hk, hread.append bs⟩

theorem During.append (h : s.During as j n m) (bs : List Action) :
    s.During (as ++ bs) j n m := by
  obtain ⟨hn, hrun, hj⟩ := h
  refine ⟨by simp only [List.length_append]; omega, ?_, hj⟩
  rw [List.take_append_of_le_length hn]
  exact hrun

theorem ServedStale.append (h : s.ServedStale F as j path d)
    (bs : List Action) : s.ServedStale F (as ++ bs) j path d := by
  obtain ⟨n, i, slot, hasked, hd, hrecorded⟩ := h
  exact ⟨n, i, slot, hasked.append bs, hd, hrecorded.append bs⟩

theorem Recorded.of_beq {k' : CacheKey} (hk : (k == k') = true)
    (h : s.Recorded as i g k d) : s.Recorded as i g k' d := by
  obtain ⟨j, l, n, path, slot, hln, hasked, hg, hslot, hread⟩ := h
  exact ⟨j, l, n, path, slot, hln, hasked, hg, BEq.trans hslot hk, hread⟩

theorem Knows.append (h : s.Knows F as j c) (bs : List Action) :
    s.Knows F (as ++ bs) j c := by
  obtain ⟨r, path, size, stage⟩ := c
  cases stage with
  | consulting slot =>
      obtain ⟨l, hasked⟩ := h
      exact ⟨l, hasked.append bs⟩
  | entering slot =>
      intro sl hsl
      obtain ⟨l, hasked⟩ := h sl hsl
      exact ⟨l, hasked.append bs⟩
  | reading slot =>
      intro sl hsl
      obtain ⟨l, hasked⟩ := h sl hsl
      exact ⟨l, hasked.append bs⟩
  | leaving slot answer =>
      obtain ⟨n, hread, hasked⟩ := h
      refine ⟨n, hread.append bs, fun sl hsl => ?_⟩
      obtain ⟨l, hln, hl⟩ := hasked sl hsl
      exact ⟨l, hln, hl.append bs⟩
  | recording sl d =>
      obtain ⟨n, hread, l, hln, hasked⟩ := h
      exact ⟨n, hread.append bs, l, hln, hasked.append bs⟩
  | finished o =>
      cases o with
      | digest d =>
          rcases h with ⟨n, m, hduring, hholds⟩ | hstale
          · exact Or.inl ⟨n, m, hduring.append bs, hholds⟩
          · exact Or.inr (hstale.append bs)
      | _ => trivial
  | _ => trivial

theorem Goes.during (h : s.Goes as n j m c) : s.During as j n m :=
  ⟨Nat.le_of_lt h.lt_length, h.2.1, (List.getElem?_eq_some_iff.1 h.2.2).1⟩

theorem goes_last (hrun : s.run as = some p)
    (hc : p.tasks[j]? = some (.computing c)) :
    s.Goes (as ++ [.advance j]) as.length j p c := by
  refine ⟨by simp, ?_, hc⟩
  rw [List.take_left']
  · exact hrun
  · rfl

/-- All files were described by the function up to now, every entry was recorded
by a computation, every computation has seen what its stage says, and no digest
is being put in directly. -/
structure Explained (F : List Component × FileStatus → Digest) (s : Process)
    (as : List Action) (p : Process) : Prop where
  views : ∀ n m, n ≤ as.length → s.run (as.take n) = some m → m.view.Described F
  entries : ∀ i, (p.site.cache i).All (s.Recorded as i)
  calls : ∀ j c, p.tasks[j]? = some (.computing c) → s.Knows F as j c
  no_insert : ∀ i g k d, Task.inserting i g k d ∉ p.tasks

theorem Explained.holds_of_read (hp : Explained F s as p) {a : Action}
    (h : s.Read (as ++ [a]) n j path (.ok (some d))) :
    ∃ n m, s.During (as ++ [a]) j n m ∧ m.view.Holds F path d := by
  obtain ⟨m, c, slot, hgoes, -, -, hread⟩ := h
  have hn : n ≤ as.length := by
    have := hgoes.lt_length
    simp only [List.length_append, List.length_singleton] at this
    omega
  have hrun := hgoes.2.1
  rw [List.take_append_of_le_length hn] at hrun
  exact ⟨n, m, hgoes.during, hp.views n m hn hrun path d hread⟩

/-- A computation that has just asked or read knows what it has seen; one that
was answered by the store knows where the answer comes from. -/
theorem Explained.knows_step {site : Site} {stage : Stage}
    (hp : Explained F s as p) (hrun : s.run as = some p)
    (hc : p.tasks[j]? = some (.computing c))
    (hstep : Call.Step p.view p.site c c.stage stage site) :
    s.Knows F (as ++ [.advance j]) j { c with stage := stage } := by
  have hknows : s.Knows F (as ++ [.advance j]) j c := (hp.calls j c hc).append _
  have hgoes : s.Goes (as ++ [.advance j]) as.length j p c := goes_last hrun hc
  -- whatever was asked before was asked at an earlier moment than this one
  have hasked_lt : ∀ {l i path slot}, s.Asked as l j i path slot →
      l < as.length := by
    intro l i path slot h
    obtain ⟨m, c', h, -⟩ := h
    exact h.lt_length
  have hcall := hp.calls j c hc
  obtain ⟨r, path, size, old⟩ := c
  cases hstep with
  | taken hcurrent => trivial
  | off hcurrent =>
      intro sl hsl
      cases hsl
  | identified hstat =>
      exact ⟨as.length, p, _, hgoes, rfl, rfl, rfl, rfl, hstat⟩
  | unidentified hstat => trivial
  | @hit slot d hfound =>
      obtain ⟨l, hasked⟩ := hknows
      have hrecorded : s.Recorded as r.cache slot.store slot.key d :=
        (hp.entries r.cache).answer (fun _ _ _ _ => Recorded.of_beq) hfound
      by_cases hd : d = F slot.key.identity
      · obtain ⟨m, c', hgoes', -, hpath, -, hkey, hstat⟩ := hasked
        have hslot : slot.key = ⟨path, slot.key.status⟩ :=
          congrArg (CacheKey.mk · _) hkey
        refine Or.inl ⟨l, m, hgoes'.during, slot.key.status, hstat, ?_⟩
        rw [hd]
        exact congrArg (fun k => F k.identity) hslot
      · exact Or.inr ⟨l, r.cache, slot, hasked, hd, hrecorded.append _⟩
  | miss hfound =>
      intro sl hsl
      cases hsl
      exact hknows
  | entered hgate => exact hknows
  | @read slot =>
      refine ⟨as.length, ⟨p, _, slot, hgoes, rfl, rfl, rfl⟩, fun sl hsl => ?_⟩
      obtain ⟨l, hasked⟩ := hcall sl hsl
      exact ⟨l, hasked_lt hasked, hasked.append _⟩
  | @left slot answer =>
      obtain ⟨n, hread, hasked⟩ := hknows
      cases answer with
      | error e => trivial
      | ok found =>
          cases found with
          | none => trivial
          | some d =>
              cases slot with
              | none => exact Or.inl (hp.holds_of_read hread)
              | some sl => exact ⟨n, hread, hasked sl rfl⟩
  | recorded =>
      obtain ⟨n, hread, -⟩ := hknows
      exact Or.inl (hp.holds_of_read hread)
  | stayed => exact hknows

theorem explained_start (caches : List (Option UInt64))
    (thresholds : List UInt64) {view : FileView} (hview : view.Described F) :
    Explained F (start caches thresholds view) []
      (start caches thresholds view) where
  views n m _ h := by
    rw [List.take_nil] at h
    cases h
    exact hview
  entries i :=
    Site.cache_fresh (p := fun c => c.All _) (Cache.all_disabled _)
      (fun n => (Cache.all_disabled _).configure n) caches thresholds i
  calls j c hc := by cases hc
  no_insert i g k d h := by cases h

theorem knows_begun {o : Operation} {site : Site}
    (h : .computing c = o.begun site) : s.Knows F as j c := by
  cases o with
  | compute r path size =>
      cases h
      unfold Call.opened Knows
      dsimp only
      cases (site.cache r.cache).current with
      | none =>
          intro sl hsl
          cases hsl
      | some g => trivial
  | _ => cases h

theorem Explained.entries_step (hp : Explained F s as p)
    {t t' : Task} {site : Site} (ht : p.tasks[j]? = some t)
    (hstep : t.step p.view p.site = some (t', site)) (i : Nat) :
    (site.cache i).All (s.Recorded (as ++ [.advance j]) i) := by
  have hbefore : (p.site.cache i).All (s.Recorded (as ++ [.advance j]) i) :=
    (hp.entries i).mono fun g k d h => h.append _
  rw [Task.step_cache hstep j i]
  cases hw : t.work? j with
  | none => exact hbefore
  | some w =>
      change (w.on i (p.site.cache i)).All _
      unfold Work.on
      split
      · refine Access.all_toGeneration hbefore (fun _ _ _ _ => Recorded.of_beq)
          fun k d hput => ?_
        rcases Task.put_of_work? hw hput with ⟨c, rfl, hstage, hcache⟩ | rfl
        · have hknows := hp.calls j c ht
          rw [Knows, hstage] at hknows
          obtain ⟨n, hread, l, hln, hasked⟩ := hknows
          have hi : c.resolver.cache = i := hcache.trans ‹_›
          rw [hi] at hasked
          exact ⟨j, l, n, c.path, ⟨w.store, k⟩, hln, hasked.append _, rfl,
            BEq.rfl, hread.append _⟩
        · exact absurd (List.mem_of_getElem? ht) (hp.no_insert _ _ _ _)
      · exact hbefore

theorem Explained.step (hp : Explained F s as p)
    (hrun : s.run as = some p) {a : Action} (h : p.step a = some q)
    (hview : q.view.Described F) (ha : ∀ i k d, a ≠ .begin (.insert i k d)) :
    Explained F s (as ++ [a]) q := by
  have hlast : s.run (as ++ [a]) = some q := run_concat_eq_some.2 ⟨p, hrun, h⟩
  have hviews : ∀ n m, n ≤ (as ++ [a]).length →
      s.run ((as ++ [a]).take n) = some m →
      m.view.Described F := by
    intro n m hn hm
    rcases Nat.lt_or_ge as.length n with hlt | hle
    · rw [List.take_of_length_le
        (by simp only [List.length_append, List.length_singleton]; omega),
        hlast] at hm
      cases hm
      exact hview
    · rw [List.take_append_of_le_length hle] at hm
      exact hp.views n m hle hm
  rcases step_cases h with ⟨view, rfl, rfl⟩ | ⟨l, n, rfl, rfl⟩ | ⟨o, rfl, rfl⟩ |
    ⟨j, t, t', site, rfl, ht, hstep, rfl⟩
  · exact ⟨hviews, fun i => (hp.entries i).mono fun g k d h => h.append _,
      fun j c hc => (hp.calls j c hc).append _, hp.no_insert⟩
  · refine ⟨hviews, fun i => ?_, fun j c hc => (hp.calls j c hc).append _,
      hp.no_insert⟩
    have hbefore := (hp.entries i).mono fun g k d h => h.append [.configure l n]
    rcases Site.cache_configure_cases p.site l i n with heq | heq
    · change ((p.site.configure l n).cache i).All _
      rw [heq]
      exact hbefore.configure n
    · change ((p.site.configure l n).cache i).All _
      rw [heq]
      exact hbefore
  · refine ⟨hviews, fun i => (hp.entries i).mono fun g k d h =>
      h.append _, ?_, ?_⟩
    · intro j c hc
      rcases task_of_begin hc with hc | ⟨-, hc⟩
      · exact (hp.calls j c hc).append _
      · exact knows_begun hc
    · intro i g k d hmem
      rcases List.mem_append.1 hmem with hmem | hmem
      · exact hp.no_insert i g k d hmem
      · cases o with
        | insert i k d => exact ha i k d rfl
        | _ => cases List.mem_singleton.1 hmem
  · refine ⟨hviews, hp.entries_step ht hstep, ?_, ?_⟩
    · intro k c hc
      rcases task_of_advance hc with ⟨rfl, rfl⟩ | ⟨-, hc⟩
      · cases Task.step_eq_some_iff.1 hstep with
        | computed hcall => exact hp.knows_step hrun ht hcall
      · exact (hp.calls k c hc).append _
    · intro i g k d hmem
      rcases List.mem_or_eq_of_mem_set hmem with hmem | rfl
      · exact hp.no_insert i g k d hmem
      · cases Task.step_eq_some_iff.1 hstep

theorem view_step {a : Action} (h : p.step a = some q) : q.view = p.view ∨
    a = .change q.view := by
  rcases step_cases h with ⟨view, rfl, rfl⟩ | ⟨l, n, rfl, rfl⟩ | ⟨o, rfl, rfl⟩ |
    ⟨j, t, t', site, rfl, ht, hstep, rfl⟩
  · exact Or.inr rfl
  · exact Or.inl rfl
  · exact Or.inl rfl
  · exact Or.inl rfl

theorem Explained.run (hp : Explained F s bs p) (hrun : s.run bs = some p)
    (h : p.run as = some q)
    (hviews : ∀ view, .change view ∈ as → view.Described F)
    (hinserts : ∀ i k d, .begin (.insert i k d) ∉ as) :
    Explained F s (bs ++ as) q := by
  induction as generalizing bs p with
  | nil =>
      cases h
      simpa using hp
  | cons a as ih =>
      obtain ⟨m, hm, hrest⟩ := run_cons_eq_some.1 h
      have hview : m.view.Described F := by
        rcases view_step hm with heq | rfl
        · rw [heq]
          exact hp.views bs.length p (Nat.le_refl _) (by rwa [List.take_length])
        · exact hviews _ List.mem_cons_self
      have hstep : Explained F s (bs ++ [a]) m :=
        hp.step hrun hm hview fun i k d ha =>
          hinserts i k d (ha ▸ List.mem_cons_self)
      have hrun' : s.run (bs ++ [a]) = some m :=
        run_concat_eq_some.2 ⟨p, hrun, hm⟩
      have hall :=
        ih hstep hrun' hrest (fun v hv => hviews v (List.mem_cons_of_mem a hv))
          fun i k d hi => hinserts i k d (List.mem_cons_of_mem a hi)
      rwa [List.append_assoc, List.singleton_append] at hall

def Returns (s : Process) (as : List Action) (j : Nat) (path : Path)
    (d : Digest) : Prop :=
  ∃ bs p q r size stage, as = bs ++ [.advance j] ∧ s.run bs = some p ∧
    p.step (.advance j) = some q ∧
    p.tasks[j]? = some (.computing ⟨r, path, size, stage⟩) ∧
    (∀ o, stage ≠ .finished o) ∧
    q.tasks[j]? = some (.computing ⟨r, path, size, .finished (.digest d)⟩)

/-- In any run in which no digest is put in directly, a computation that returns
a digest either was under way at a moment at which the content of the file had
this digest, or was served one that had been read under a key it did not belong
to. If the status of the file does not change while the computation is under
way, only one of the two is the case. -/
theorem holds_iff_not_servedStale {F : List Component × FileStatus → Digest}
    (caches : List (Option UInt64)) (thresholds : List UInt64) {view : FileView}
    (hview : view.Described F) {as : List Action}
    (hviews : ∀ view, .change view ∈ as → view.Described F)
    (hinserts : ∀ i k d, .begin (.insert i k d) ∉ as) {j : Nat}
    {path : Path} {d : Digest}
    (h : (start caches thresholds view).Returns as j path d) :
    let s := start caches thresholds view
    ((∃ n m, s.During as j n m ∧ m.view.Holds F path d) ∨
      s.ServedStale F as j path d) ∧
    ∀ status, (∀ n m, s.During as j n m → m.view.stat path = .ok status) →
      ((∃ n m, s.During as j n m ∧ m.view.Holds F path d) ↔
        ¬ s.ServedStale F as j path d) := by
  intro s
  obtain ⟨bs, p, q, r, size, stage, rfl, hrun, hstep, -, -, hq⟩ := h
  have hlast : s.run (bs ++ [.advance j]) = some q :=
    run_concat_eq_some.2 ⟨p, hrun, hstep⟩
  have hexplained : Explained F s (bs ++ [.advance j]) q := by
    have hall := (explained_start caches thresholds hview).run rfl hlast
      hviews hinserts
    rwa [List.nil_append] at hall
  have hknows := hexplained.calls j _ hq
  refine ⟨hknows, fun status hsteady =>
    ⟨?_, fun hnot => hknows.resolve_right hnot⟩⟩
  rintro ⟨n, m, hduring, status', hstat', hd⟩ ⟨n', i, slot, hasked, hne, -⟩
  obtain ⟨m', c, hgoes, -, -, -, hkey, hstat⟩ := hasked
  -- both moments see the one status, so both digests are those of one key
  rw [hsteady n m hduring, Except.ok.injEq] at hstat'
  rw [hsteady n' m' hgoes.during, Except.ok.injEq] at hstat
  apply hne
  rw [hd, ← hstat', hstat, ← hkey]

/-- A file is asked for and replaced before it is read; then it is put back and
asked for again. -/
def replacedAndBack : List Action :=
  [.begin (.compute ⟨0, 0⟩ (.ofText "a") .unknown), .advance 0, .advance 0,
    .advance 0, .change (.ofNode 2), .advance 0, .advance 0, .advance 0,
    .change (.ofNode 1), .begin (.compute ⟨0, 0⟩ (.ofText "a") .unknown),
    .advance 1, .advance 1]

theorem stat_replacedAndBack {n : Nat} {m : Process}
    (h : (start [some 10] [] (.ofNode 1)).During replacedAndBack 1 n m) :
    m.view.stat (.ofText "a") = .ok ⟨1, .epoch, 0⟩ := by
  obtain ⟨hn, hrun, hj⟩ := h
  have hall : ∀ n < 13,
      ((start [some 10] [] (.ofNode 1)).run (replacedAndBack.take n)).all
        (fun m =>
        decide (m.tasks.length ≤ 1) ||
          decide ((m.view.stat (.ofText "a")).toOption = some ⟨1, .epoch, 0⟩)) =
            true := by
    decide
  have hm := hall n (Nat.lt_succ_of_le hn)
  rw [hrun, Option.all_some, Bool.or_eq_true, decide_eq_true_eq,
    decide_eq_true_eq] at hm
  rcases hm with hle | hstat
  · omega
  · cases hok : m.view.stat (.ofText "a") with
    | error e =>
        rw [hok] at hstat
        cases hstat
    | ok status =>
        rw [hok] at hstat
        rw [Option.some.inj hstat]

theorem returns_replacedAndBack :
    (start [some 10] [] (.ofNode 1)).Returns replacedAndBack 1
      (.ofText "a") [2] :=
  ⟨replacedAndBack.dropLast, _, _, ⟨0, 0⟩, .unknown, _, rfl, rfl, rfl, rfl,
    fun _ => Stage.noConfusion, rfl⟩

theorem described_replacedAndBack {view : FileView}
    (h : .change view ∈ replacedAndBack) :
    view.Described fun k => [k.2.node.toUInt8] := by
  simp only [replacedAndBack, List.mem_cons, Action.change.injEq, reduceCtorEq,
    false_or, or_false, List.not_mem_nil] at h
  rcases h with rfl | rfl <;> exact FileView.described_ofNode _

theorem not_holds_replacedAndBack {n : Nat} {m : Process}
    (h : (start [some 10] [] (.ofNode 1)).During replacedAndBack 1 n m) :
    ¬ m.view.Holds (fun k => [k.2.node.toUInt8]) (.ofText "a") [2] := by
  rintro ⟨status, hstat, hd⟩
  rw [stat_replacedAndBack h, Except.ok.injEq] at hstat
  subst hstat
  exact absurd hd (by decide)

/-- The second computation returns a digest that the content of the file
has at no moment since that computation began, although every content has
its own key. -/
theorem returned_digest_never_held :
    let F : List Component × FileStatus → Digest := fun k => [k.2.node.toUInt8]
    let s := start [some 10] [] (.ofNode 1)
    (FileView.ofNode 1).Described F ∧
      (∀ view, .change view ∈ replacedAndBack → view.Described F) ∧
      s.Returns replacedAndBack 1 (.ofText "a") [2] ∧
      ∀ n m, s.During replacedAndBack 1 n m →
      ¬ m.view.Holds F (.ofText "a") [2] :=
  ⟨FileView.described_ofNode 1, fun _ => described_replacedAndBack,
    returns_replacedAndBack, fun _ _ => not_holds_replacedAndBack⟩

/-- The digest was served from what the first computation had recorded under the
key of the file that was replaced. -/
theorem servedStale_replacedAndBack :
    (start [some 10] [] (.ofNode 1)).ServedStale (fun k => [k.2.node.toUInt8])
      replacedAndBack 1
      (.ofText "a") [2] := by
  have hiff :=
    (holds_iff_not_servedStale [some 10] [] (FileView.described_ofNode 1)
      (fun _ => described_replacedAndBack) (fun i k d h => by
        simp [replacedAndBack] at h)
      returns_replacedAndBack).2 ⟨1, .epoch, 0⟩ fun n m => stat_replacedAndBack
  refine Classical.byContradiction fun hnot => ?_
  obtain ⟨n, m, hduring, hholds⟩ := hiff.2 hnot
  exact not_holds_replacedAndBack hduring hholds

end Process

end FileDigest
