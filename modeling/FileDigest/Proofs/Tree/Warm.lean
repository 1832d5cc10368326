import FileDigest.Proofs.Cache.Inclusion
import FileDigest.Proofs.Cache.Recall
import FileDigest.Proofs.Tree.Failures

/-!
# Trees that are digested again

A tree was digested with a store that has room for all its files. What the store
held before does not matter: each file that is digested comes to the front of
the store, whether it was there already or was read, and only files of the same
tree come before it afterwards. So in the end the digests of all files are among
the most recent entries, as many as there are files (`Store.Leads`), and none of
them was pushed out.

When the tree is digested again, every lookup is answered. An answer moves an
entry and changes nothing else that a lookup could see (`Store.Answered`), so
the order in which the files come up this time does not count.
-/

namespace FileDigest

open Recency

namespace Recency

variable {κ ν : Type} [BEq κ]

theorem mem_take_put {entries : List (κ × ν)} {e : κ × ν} {n : Nat}
    (he : e ∈ entries.take n) {k : κ} (hk : (e.1 == k) = false) (v : ν) :
    e ∈ (put k v entries).take (n + 1) := by
  have hsplit : erase k entries = erase k (entries.take n) ++
      erase k (entries.drop n) := by
    rw [erase, erase, erase, ← List.filter_append, List.take_append_drop]
  have hlength : (erase k (entries.take n)).length ≤ n :=
    (length_erase_le k _).trans (List.length_take_le n entries)
  rw [put, List.take_succ_cons, hsplit, List.take_append,
    List.take_of_length_le hlength]
  refine List.mem_cons_of_mem
    _ (List.mem_append_left _ (List.mem_filter.2 ⟨he, ?_⟩))
  rw [hk]
  rfl

theorem find?_of_mem [EquivBEq κ] {entries : List (κ × ν)}
    (h : Distinct entries) {e : κ × ν} (he : e ∈ entries) :
    find? e.1 entries = some e.2 := by
  induction entries with
  | nil => cases he
  | cons f entries ih =>
      obtain ⟨hf, htail⟩ := List.pairwise_cons.1 h
      rw [find?_cons]
      rcases List.mem_cons.1 he with rfl | he
      · rw [if_pos BEq.rfl]
      · rw [hf e he, if_neg Bool.false_ne_true, ih htail he]

end Recency

theorem Path.same_below {p q : Path} (root : Path)
    (h : p.components = q.components) :
    (p.below root).same (q.below root) = true := by
  rw [below, below, relativeTo?, relativeTo?, h]
  cases root.components.isPrefixOf? q.components with
  | none => exact same_iff.2 h
  | some rest => exact same_refl _

namespace Store

/-- The store has a digest under the key that a path has now. -/
def Knows (st : Store) (view : FileView) (path : Path) (d : Digest) : Prop :=
  ∃ status, view.stat path = .ok status ∧
    find? (⟨path, status⟩ : CacheKey) st.entries = some d

/-- The digests of some files are among the most recent entries, as many as
there are files, under the keys that the files have now. -/
def Leads (st : Store) (view : FileView) (done : List (Path × Digest)) : Prop :=
  ∀ c ∈ done, ∃ status, view.stat c.1 = .ok status ∧
    ((⟨c.1, status⟩ : CacheKey), c.2) ∈ st.entries.take done.length

/-- Some lookups were answered, and nothing else was done to the store. -/
structure Answered (st st' : Store) (n : Nat) : Prop where
  hits : st'.hits = st.hits + n
  misses : st'.misses = st.misses
  evictions : st'.evictions = st.evictions
  find?_eq : ∀ k, find? k st'.entries = find? k st.entries
  length_eq : st'.entries.length = st.entries.length

variable {view : FileView} {st st' st'' : Store} {path : Path} {d d' : Digest}

theorem Knows.unique (h : st.Knows view path d) (h' : st.Knows view path d') :
    d = d' := by
  obtain ⟨status, hstat, hd⟩ := h
  obtain ⟨status', hstat', hd'⟩ := h'
  cases hstat.symm.trans hstat'
  exact Option.some.inj (hd.symm.trans hd')

theorem Answered.refl (st : Store) : st.Answered st 0 :=
  ⟨rfl, rfl, rfl, fun _ => rfl, rfl⟩

theorem Answered.trans {n m : Nat} (h : st.Answered st' n)
    (h' : st'.Answered st'' m) : st.Answered st'' (n + m) where
  hits := by rw [h'.hits, h.hits, Nat.add_assoc]
  misses := h'.misses.trans h.misses
  evictions := h'.evictions.trans h.evictions
  find?_eq k := (h'.find?_eq k).trans (h.find?_eq k)
  length_eq := h'.length_eq.trans h.length_eq

theorem Answered.knows {n : Nat} (h : st.Answered st' n)
    (hd : st.Knows view path d) : st'.Knows view path d := by
  obtain ⟨status, hstat, hd⟩ := hd
  exact ⟨status, hstat, (h.find?_eq _).trans hd⟩

theorem Tidy.answered_get (hs : st.Tidy) {k : CacheKey}
    (hk : find? k st.entries = some d) : st.Answered (st.get k).2 1 where
  hits := by rw [hits_get, has, hk]; rfl
  misses := by rw [misses_get, has, hk]; rfl
  evictions := evictions_get st k
  find?_eq j := by
    rw [get_of_find? hk, find?_put]
    split
    · rw [← find?_congr ‹(k == j) = true›, hk]
    · rfl
  length_eq := length_entries_get hs.distinct k

/-- An answer brings the entry to the front, as putting the digest in would. -/
theorem Tidy.entries_get (hs : st.Tidy) {k : CacheKey}
    (hk : find? k st.entries = some d) :
    (st.get k).2.entries = (Recency.put k d st.entries).take st.capacity := by
  have hlength : (Recency.put k d st.entries).length ≤ st.capacity := by
    rw [length_put hs.distinct, has, hk]
    exact hs.length_le
  rw [get_of_find? hk, List.take_of_length_le hlength]

theorem leads_nil (st : Store) (view : FileView) : st.Leads view [] := by
  intro c hc
  cases hc

theorem Leads.knows {done : List (Path × Digest)} (h : st.Leads view done)
    (hs : st.Tidy) : ∀ c ∈ done, st.Knows view c.1 c.2 := by
  intro c hc
  obtain ⟨status, hstat, hmem⟩ := h c hc
  exact ⟨status, hstat, find?_of_mem hs.distinct (List.mem_of_mem_take hmem)⟩

/-- A file that was not among them comes to the front of the files that lead. -/
theorem Leads.put {done : List (Path × Digest)} (h : st.Leads view done)
    {status : FileStatus} (hstat : view.stat path = .ok status)
    (hentries : st'.entries =
      (Recency.put ⟨path, status⟩ d st.entries).take st.capacity)
    (hroom : done.length + 1 ≤ st.capacity)
    (hnew : ∀ c ∈ done, c.1.components ≠ path.components) :
    st'.Leads view ((path, d) :: done) := by
  unfold Leads
  rw [hentries, List.length_cons, List.take_take, Nat.min_eq_left hroom]
  refine List.forall_mem_cons.2 ⟨⟨status, hstat, List.mem_cons_self⟩,
    fun c hc => ?_⟩
  obtain ⟨status', hstat', hmem⟩ := h c hc
  refine ⟨status', hstat', mem_take_put hmem (Bool.eq_false_iff.2 fun hkey =>
    hnew c hc ?_) d⟩
  exact congrArg Prod.fst (CacheKey.beq_iff.1 hkey)

end Store

/-- The surroundings in which the file system stays the same, counts how often
it is asked and has no digest at hand. -/
abbrev FileView.unaided (view : FileView) : Host (Site × Scenario.Calls) :=
  view.tallied fun _ => .ok none

/-- A store is in use, which is within its capacity and has no key twice, and no
large read is under way. -/
structure Site.Stocked (s : Site) (r : Resolver) (st : Store) : Prop where
  inUse : (s.cache r.cache).inUse = some st
  tidy : st.Tidy
  gate : (s.gate r.gate).held = false

namespace Site.Stocked

variable {view : FileView} {s : Site} {r : Resolver} {st : Store} {path : Path}
  {size : SizeHint} {status : FileStatus} {d : Digest}

theorem exists_current (hs : s.Stocked r st) :
    ∃ g, (s.cache r.cache).current = some g ∧ ∀ k,
      ((s.cache r.cache).getAt g k).1 = find? k st.entries ∧
      ((s.setCache r.cache ((s.cache r.cache).getAt g k).2).cache
        r.cache).current = some g ∧
      (s.setCache r.cache ((s.cache r.cache).getAt g k).2).Stocked r
        (st.get k).2 := by
  obtain ⟨g, hg, hstore⟩ := Option.bind_eq_some_iff.1 hs.inUse
  refine ⟨g, hg, fun k => ⟨?_, ?_, ?_, hs.tidy.access (.ask k), hs.gate⟩⟩
  · simp only [Cache.getAt, hstore]
    exact Store.get_fst st k
  · rw [cache_setCache_getAt, Cache.current_getAt, hg]
  · rw [cache_setCache_getAt]
    refine (Access.inUse_toGeneration (.ask k) g _).trans ?_
    rw [if_pos hg, hs.inUse]
    rfl

theorem report (hs : s.Stocked r st) (e : Event) : (s.report e).Stocked r st :=
  ⟨hs.inUse, hs.tidy, hs.gate⟩

theorem record {g : Nat} (hs : s.Stocked r st)
    (hg : (s.cache r.cache).current = some g) (k : CacheKey)
    (answer : Except IoError (Option Digest)) :
    (s.record r.cache g k answer).Stocked r (st.recorded k answer) where
  inUse := by rw [inUse_record hg, hs.inUse, Option.map_some]
  tidy := by
    unfold Store.recorded
    split
    · exact hs.tidy.access (.put k _)
    · exact hs.tidy
  gate := by
    have hgate := hs.gate
    rwa [Site.gate, ← gates_record s r.cache g k answer] at hgate

variable {fast : Path → Except IoError (Option Digest)}

theorem computeManually_hit (hs : s.Stocked r st) (size : SizeHint)
    (hstat : view.stat path = .ok status)
    (hd : find? (⟨path, status⟩ : CacheKey) st.entries = some d)
    (calls : Scenario.Calls) :
    ∃ s', s'.Stocked r (st.get ⟨path, status⟩).2 ∧
      (view.tallied fast).computeManually r path size (s, calls) =
        (some (.digest d), (s', { calls with stat := calls.stat + 1 })) := by
  obtain ⟨g, hg, hasked⟩ := hs.exists_current
  obtain ⟨hfound, -, hnext⟩ := hasked ⟨path, status⟩
  refine ⟨_, hnext.report (.cacheHit path), ?_⟩
  rw [computeManually_tallied view fast r path size calls hs.gate]
  simp only [Host.compute, Host.consult, FileView.tallied, hg,
    hstat, hfound, hd]

/-- A file whose digest was found is the most recent one of the store; its
content was read, or the store had the digest. -/
theorem computeManually_digest (hs : s.Stocked r st) {calls : Scenario.Calls}
    (h : ((view.tallied fast).computeManually r path size (s, calls)).1 =
      some (.digest d)) :
    ∃ status st', view.stat path = .ok status ∧
      ((view.tallied fast).computeManually r path size (s, calls)).2.1.Stocked
        r st' ∧
      st'.capacity = st.capacity ∧
      st'.entries = (put ⟨path, status⟩ d st.entries).take st.capacity ∧
      (((view.tallied fast).computeManually r path size (s, calls)).2.2.read =
        calls.read ∨ view.read path = .ok (some d)) := by
  obtain ⟨g, hg, hasked⟩ := hs.exists_current
  rw [computeManually_tallied view fast r path size calls hs.gate] at h ⊢
  simp only [Host.compute, Host.consult, FileView.tallied, hg] at h ⊢
  cases hstat : view.stat path with
  | error e =>
      rw [hstat] at h
      cases h
  | ok status =>
      obtain ⟨hfound, hcurrent, hnext⟩ := hasked ⟨path, status⟩
      simp only [hstat, hfound] at h ⊢
      refine ⟨status, ?_⟩
      cases hd : find? (⟨path, status⟩ : CacheKey) st.entries with
      | some d' =>
          rw [hd] at h
          cases h
          exact ⟨_, rfl, hnext.report _, Store.capacity_get st _,
            hs.tidy.entries_get hd, Or.inl rfl⟩
      | none =>
          rw [hd] at h
          cases hread : view.read path with
          | error e =>
              rw [hread] at h
              cases h
          | ok found =>
              rw [hread] at h
              cases found with
              | none => cases h
              | some d' =>
                  cases h
                  refine ⟨_, rfl, hnext.record hcurrent _ (.ok (some d)), ?_,
                    ?_, Or.inr rfl⟩
                  · rw [Store.recorded, Store.capacity_insert,
                      Store.capacity_get]
                  · rw [Store.get_of_find?_eq_none hd]
                    rfl

theorem digestWithFallback_hit (hs : s.Stocked r st) (size : SizeHint)
    (hstat : view.stat path = .ok status)
    (hd : find? (⟨path, status⟩ : CacheKey) st.entries = some d)
    (calls : Scenario.Calls) :
    ∃ s', s'.Stocked r (st.get ⟨path, status⟩).2 ∧
      view.unaided.digestWithFallback r path size (s, calls) =
        (some (.digest d),
          (s',
            { calls with
              stat := calls.stat + 1, fast := calls.fast + 1 })) := by
  rw [digestWithFallback_of_fast_none view _ r path size calls rfl]
  exact hs.computeManually_hit size hstat hd _

theorem digestWithFallback_digest (hs : s.Stocked r st) {calls : Scenario.Calls}
    (h : (view.unaided.digestWithFallback r path size (s, calls)).1 =
      some (.digest d)) :
    ∃ status st', view.stat path = .ok status ∧
      (view.unaided.digestWithFallback r path size (s, calls)).2.1.Stocked
        r st' ∧
      st'.capacity = st.capacity ∧
      st'.entries = (put ⟨path, status⟩ d st.entries).take st.capacity := by
  rw [digestWithFallback_of_fast_none view _ r path size calls rfl] at h ⊢
  obtain ⟨status, st', hstat, hnext, hcapacity, hentries, -⟩ :=
    hs.computeManually_digest h
  exact ⟨status, st', hstat, hnext, hcapacity, hentries⟩

variable {root : Path} {visits : List Visit} {a : UnorderedDigest}

/-- The digests of a tree that comes to an end are all in the store. The
induction carries those that were found already. -/
theorem yields_known (hs : s.Stocked r st) (ha : a.Admits root visits)
    {done : List (Path × Digest)} (hdone : ∀ c ∈ done, c.1.below root ∈ a.seen)
    (hleads : st.Leads view done)
    (hroom : done.length + visits.length ≤ st.capacity)
    {calls : Scenario.Calls} {x : Digest}
    (h : (view.unaided.digestVisits r root visits a (s, calls)).1 =
      some (.digest x)) :
    ∃ st',
      (view.unaided.digestVisits r root visits a (s, calls)).2.1.Stocked r st' ∧
      (∀ c ∈ done, st'.Knows view c.1 c.2) ∧
      List.Forall₂ (Visit.Yields root (st'.Knows view)) visits
        (view.unaided.treePairs r root visits (s, calls)) := by
  induction visits generalizing a s st done calls with
  | nil => exact ⟨st, hs.report _, hleads.knows hs.tidy, .nil⟩
  | cons v rest ih =>
      cases v with
      | failed path cause => cases h
      | file path size =>
          rcases view.unaided.digestVisits_cases ha with
            ⟨d, b, hd, hb, hseen, heq⟩ | ⟨hnone, heq⟩
          · obtain ⟨status, st₁, hstat, hs₁, hcapacity, hentries⟩ :=
              hs.digestWithFallback_digest hd
            -- the aggregate has met all that was found, so the file is not
            -- among it
            have hnew : ∀ c ∈ done, c.1.components ≠ path.components := by
              intro c hc hsame
              have hcontains := ha.new (path.below root) List.mem_cons_self
              rw [UnorderedDigest.contains, List.any_eq_false] at hcontains
              exact hcontains _ (hdone c hc) (Path.same_below root hsame)
            have hdone₁ : ∀ c ∈ (path, d) :: done, c.1.below root ∈ b.seen := by
              rw [hseen]
              exact List.forall_mem_cons.2
                ⟨List.mem_cons_self, fun c hc =>
                  List.mem_cons_of_mem _ (hdone c hc)⟩
            rw [List.length_cons] at hroom
            have hleads₁ := hleads.put hstat hentries (by omega) hnew
            have hroom₁ : ((path, d) :: done).length + rest.length ≤
                st₁.capacity := by
              rw [hcapacity, List.length_cons]
              omega
            rw [heq] at h ⊢
            rw [Host.treePairs_file _ hd]
            obtain ⟨st', hs', hknows, hpairs⟩ :=
              ih hs₁ hb hdone₁ hleads₁ hroom₁ h
            obtain ⟨hfirst, hdone'⟩ := List.forall_mem_cons.1 hknows
            exact ⟨st', hs', hdone', .cons (.file hfirst) hpairs⟩
          · rw [heq] at h
            exact absurd ⟨x, h⟩ hnone

/-- Where a store knew all files at first, each of them is one more answer. -/
theorem digestVisits_known {first : Store} (hs : s.Stocked r st) {n : Nat}
    (hanswered : first.Answered st n) (ha : a.Admits root visits)
    (hknown : ∀ v ∈ visits, v.Passable fun path => ∃ d, first.Knows view path d)
    (calls : Scenario.Calls) :
    ∃ x s' st', s'.Stocked r st' ∧ first.Answered st' (n + visits.length) ∧
      view.unaided.digestVisits r root visits a (s, calls) =
        (some (.digest x), (s', { calls with
        stat := calls.stat + visits.length, fast :=
          calls.fast + visits.length })) ∧
      List.Forall₂ (Visit.Yields root (first.Knows view)) visits
        (view.unaided.treePairs r root visits (s, calls)) := by
  induction visits generalizing a s st n calls with
  | nil => exact ⟨_, _, st, hs.report _, hanswered, rfl, .nil⟩
  | cons v rest ih =>
      obtain ⟨hfirst, hrest⟩ := List.forall_mem_cons.1 hknown
      cases v with
      | failed path cause => exact hfirst.elim
      | file path size =>
          obtain ⟨d, hd⟩ := hfirst
          obtain ⟨status, hstat, hfound⟩ := hanswered.knows hd
          obtain ⟨s₁, hs₁, hone⟩ :=
            hs.digestWithFallback_hit size hstat hfound calls
          have hdigest := congrArg Prod.fst hone
          have hanswered₁ := hanswered.trans (hs.tidy.answered_get hfound)
          obtain ⟨b, hb, -, heq⟩ :=
            view.unaided.digestVisits_of_digest (s := (s, calls)) ha hdigest
          obtain ⟨x, s', st', hs', hanswered', hrun, hpairs⟩ :=
            ih hs₁ hanswered₁ hb hrest
            { calls with stat := calls.stat + 1, fast := calls.fast + 1 }
          refine ⟨x, s', st', hs', ?_, ?_, ?_⟩
          · rw [List.length_cons, Nat.add_comm rest.length, ← Nat.add_assoc]
            exact hanswered'
          · rw [heq, hone, hrun]
            simp only [List.length_cons, Nat.add_assoc, Nat.add_comm 1]
          · rw [Host.treePairs_file (s := (s, calls)) _ hdigest, hone]
            exact .cons (.file hd) hpairs

end Site.Stocked

namespace Disk

variable {disk disk' : Disk} {root : Path} {tree : Node} {view : FileView}
  {r : Resolver} {s : Site} {st : Store} {x : Digest}

/-- A tree is digested with a store in use that has room for all its files, and
has a digest. When it is digested again, with the directories in any order, then
each file is asked for its status and none is read; the store answers every
lookup, and it knows the same afterwards. The digest is the same. -/
theorem digestTree_again (hdisk : disk.root.WellFormed)
    (hdisk' : disk'.root.WellFormed) (hreordered : disk.Reordered disk')
    (htree : disk.treeAt root = .ok tree) (hs : s.Stocked r st)
    (hroom : tree.files.length ≤ st.capacity) (calls : Scenario.Calls) :
    let first := view.unaided.digestTree r root (disk.walk root) (s, calls)
    let second := view.unaided.digestTree r root (disk'.walk root) first.2
    first.1 = some (.digest x) →
      second.1 = some (.digest x) ∧
      second.2.2 = ⟨first.2.2.stat + tree.files.length, first.2.2.read,
        first.2.2.fast + tree.files.length⟩ ∧
      ∃ st₁ st₂, first.2.1.Stocked r st₁ ∧ second.2.1.Stocked r st₂ ∧
        st₁.Answered st₂ tree.files.length := by
  intro first second h
  obtain ⟨tree₁, htree₁, hwalk⟩ := walk_eq_of_digestTree h
  cases htree.symm.trans htree₁
  have hfit : ([] : List (Path × Digest)).length + (disk.walk root).length ≤
      st.capacity := by
    rw [hwalk, List.length_map, List.length_nil, Nat.zero_add]
    exact hroom
  obtain ⟨st₁, hs₁, -, hpairs⟩ :=
    hs.yields_known (admits_walk hdisk root) (by simp)
      (Store.leads_nil st view) hfit h
  have hknown := hreordered.forall_passable_walk hdisk hdisk'
    (Visit.passable_of_yields hpairs)
  obtain ⟨x', s₂, st₂, hs₂, hanswered, hsecond, hpairs'⟩ :=
    hs₁.digestVisits_known (.refl st₁) (admits_walk hdisk' root)
      hknown first.2.2
  have hx' : second.1 = some (.digest x') := congrArg Prod.fst hsecond
  have hsame : x = x' := (whole_of_yields hdisk h hpairs).unique
    (whole_of_yields hdisk' hx' hpairs') (fun _ _ _ hd hd' => hd.unique hd')
      hdisk hdisk' hreordered
  have hlength : (disk'.walk root).length = tree.files.length := by
    obtain ⟨tree', htree', hwalk'⟩ := walk_eq_of_digestTree hx'
    obtain ⟨tree'', htree'', halike⟩ := hreordered.exists_treeAt htree
    cases htree'.symm.trans htree''
    rw [hwalk', List.length_map]
    exact (halike.files_perm (wellFormed_treeAt hdisk htree)
      (wellFormed_treeAt hdisk' htree')).length_eq.symm
  rw [hlength] at hsecond
  rw [hlength, Nat.zero_add] at hanswered
  refine ⟨hsame ▸ hx', congrArg (·.2.2) hsecond, st₁, st₂, hs₁, ?_, hanswered⟩
  have hsite : second.2.1 = s₂ := congrArg (·.2.1) hsecond
  rw [hsite]
  exact hs₂

/-- A store with room for two digests has that of one of two files when the tree
is digested, and the other file comes first and pushes it out. When the
directory is enumerated in the other order later, no file is read. -/
theorem digestTree_again_twoFiles :
    let disk (entries : List (Bytes × Node)) :
    Disk := ⟨.directory 1 true entries, []⟩
    let st : Store := { Store.empty 2 with entries :=
      [(⟨.ofText "c", ⟨7, .epoch, 0⟩⟩, [5]),
        (⟨.ofText "./b", ⟨6, .epoch, 1⟩⟩, Blake3.hash [2])] }
    let s : Site := ⟨[⟨[st], some 0⟩], [], []⟩
    ∃ x first second,
      (disk entriesAB).view.unaided.digestTree ⟨0, 0⟩ (.ofText ".")
        ((disk entriesAB).walk (.ofText ".")) (s, ⟨0, 0, 0⟩) =
          (some (.digest x), first) ∧
      (disk entriesAB.reverse).view.unaided.digestTree ⟨0, 0⟩ (.ofText ".")
        ((disk entriesAB.reverse).walk (.ofText ".")) first =
          (some (.digest x), second) ∧
      second.2 = ⟨first.2.stat + 2, first.2.read, first.2.fast + 2⟩ := by
  intro disk st s
  have hperm := (List.reverse_perm entriesAB).symm
  have hreordered : (disk entriesAB).Reordered (disk entriesAB.reverse) :=
    ⟨rfl, Node.alike_of_perm 1 true hperm (by decide)⟩
  have htree : (disk entriesAB).treeAt (.ofText ".") =
      .ok (.directory 1 true entriesAB) := rfl
  have hfiles : (Node.directory 1 true entriesAB).files.length = 2 := rfl
  have hs : s.Stocked ⟨0, 0⟩ st :=
    ⟨rfl, ⟨List.pairwise_pair.2 (by decide), by decide⟩, rfl⟩
  obtain ⟨x, first, hfirst⟩ : ∃ x first,
    (disk entriesAB).view.unaided.digestTree ⟨0, 0⟩
      (.ofText ".") ((disk entriesAB).walk (.ofText ".")) (s, ⟨0, 0, 0⟩) =
        (some (.digest x), first) :=
    ⟨_, _, rfl⟩
  obtain ⟨hdigest, hcalls, -⟩ :=
    digestTree_again (wellFormed_entriesAB (.refl _))
      (wellFormed_entriesAB hperm) hreordered htree hs (by decide) ⟨0, 0, 0⟩
      (congrArg Prod.fst hfirst)
  rw [hfirst] at hdigest hcalls
  rw [hfiles] at hcalls
  rw [← hreordered.view_eq]
  exact ⟨x, first, _, hfirst, Prod.ext hdigest rfl, hcalls⟩

end Disk

end FileDigest
