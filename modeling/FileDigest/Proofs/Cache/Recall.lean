import FileDigest.Proofs.Cache.Accesses
import Mathlib.Data.Finset.Card
import Mathlib.Data.List.Induction

/-!
# What a cache still knows

A key is touched when a digest is put in under it and when a lookup of it is
answered. A cache knows a key as long as fewer other keys were touched since
than it has room for, and the answer is the digest that was put in last; a
lookup that is not answered, and a look at the counters, leave no trace in later
answers.

The entries of a store with room for `n` digests are the first `n` of those of a
store that never runs out of room (`Store.Recalls`). There the place of a key is
the number of different keys touched since (`Recency.exists_split_ofTouches`).
Whether a lookup is a touch hangs on the store, so the touches are read off the
run and not off the list of requests.
-/

namespace FileDigest

namespace Recency

variable {κ ν : Type} [BEq κ]

/-- The entries that some touches leave where there is room for all. -/
def ofTouches (touches : List (κ × ν)) : List (κ × ν) :=
  touches.foldl (fun entries e => put e.1 e.2 entries) []

@[simp] theorem ofTouches_nil : ofTouches ([] : List (κ × ν)) = [] := rfl

@[simp] theorem ofTouches_concat (touches : List (κ × ν)) (e : κ × ν) :
    ofTouches (touches ++ [e]) = put e.1 e.2 (ofTouches touches) := by
  simp [ofTouches]

theorem exists_last_touch {touches : List (κ × ν)} {k : κ}
    (h : has k touches = true) :
    ∃ before e after, touches = before ++ e :: after ∧ (e.1 == k) = true ∧
      has k after = false := by
  induction touches using List.reverseRecOn with
  | nil => cases h
  | append_singleton touches f ih =>
      cases hf : f.1 == k with
      | true => exact ⟨touches, f, [], rfl, hf, rfl⟩
      | false =>
          have hfk : has k [f] = false := by rw [has_cons, hf]; rfl
          rw [has_append, hfk, Bool.or_false] at h
          obtain ⟨before, e, after, rfl, he, hafter⟩ := ih h
          refine ⟨before, e, after ++ [f], by simp, he, ?_⟩
          rw [has_append, hafter, hfk]
          rfl

theorem find?_take_append {front back : List (κ × ν)} {j k : κ} {w : ν}
    (hj : (j == k) = true) (hfront : has k front = false) (n : Nat) :
    find? k ((front ++ (j, w) :: back).take n) = if front.length < n then some w
      else none := by
  induction front generalizing n with
  | nil =>
      cases n with
      | zero => rfl
      | succ n => simp [find?_cons, hj]
  | cons e front ih =>
      rw [has_cons, Bool.or_eq_false_iff] at hfront
      cases n with
      | zero => rfl
      | succ n =>
          rw [List.cons_append, List.take_succ_cons, find?_cons,
            hfront.1, ih hfront.2]
          simp

variable [EquivBEq κ]

theorem find?_put (j k : κ) (v : ν) (entries : List (κ × ν)) :
    find? j (put k v entries) = if k == j then some v else find? j entries := by
  cases h : k == j with
  | true => rw [put, find?_cons, if_pos h, if_pos rfl]
  | false =>
      rw [BEq.comm] at h
      rw [find?_put_of_ne h, if_neg Bool.false_ne_true]

theorem has_put (j k : κ) (v : ν) (entries : List (κ × ν)) :
    has j (put k v entries) = (k == j || has j entries) := by
  rw [has, find?_put, has]
  cases k == j <;> rfl

theorem has_of_has_ofTouches {touches : List (κ × ν)} {k : κ}
    (h : has k (ofTouches touches) = true) :
    has k touches = true := by
  induction touches using List.reverseRecOn with
  | nil => exact h
  | append_singleton touches e ih =>
      rw [has_append, has_cons, Bool.or_comm]
      cases he : e.1 == k with
      | true => simp
      | false =>
          rw [ofTouches_concat, has, find?_put, he,
            if_neg Bool.false_ne_true, ← has] at h
          simp [ih h]

theorem distinct_ofTouches (touches : List (κ × ν)) :
    Distinct (ofTouches touches) := by
  induction touches using List.reverseRecOn with
  | nil => exact List.Pairwise.nil
  | append_singleton touches e ih =>
      rw [ofTouches_concat]
      exact distinct_put ih e.1 e.2

theorem find?_congr {j k : κ} (h : (j == k) = true) (entries : List (κ × ν)) :
    find? j entries = find? k entries := by
  induction entries with
  | nil => rfl
  | cons e entries ih => rw [find?_cons, find?_cons, BEq.congr_right h, ih]

/-- Before the entry of a key that was not touched again stand the keys touched
since. -/
theorem exists_split_ofTouches (before : List (κ × ν)) {after : List (κ × ν)}
    {j : κ} (w : ν) (h : has j after = false) :
    ∃ front back, ofTouches (before ++ (j, w) :: after) =
      front ++ (j, w) :: back ∧
      ∀ i, has i front = has i after := by
  induction after using List.reverseRecOn with
  | nil => exact ⟨[], erase j (ofTouches before), by simp [put], fun i => rfl⟩
  | append_singleton after e ih =>
      rw [has_append, has_cons, Bool.or_eq_false_iff, Bool.or_eq_false_iff] at h
      obtain ⟨hafter, he, -⟩ := h
      rw [BEq.comm] at he
      obtain ⟨front, back, hsplit, hfront⟩ := ih hafter
      refine ⟨e :: erase e.1 front, erase e.1 back, ?_, fun i => ?_⟩
      · rw [← List.cons_append, ← List.append_assoc,
          ofTouches_concat, hsplit, put]
        simp [erase, he]
      · rw [has_cons, has_append, has_cons, Bool.or_comm]
        cases hi : e.1 == i with
        | true => simp
        | false =>
            have hie : (i == e.1) = false := by
              rw [BEq.comm]
              exact hi
            have herase : has i (erase e.1 front) = has i front := by
              rw [has, has, find?_erase_of_ne hie]
            rw [herase, hfront i]
            rfl

end Recency

open Recency

def CacheKey.variety (ks : List CacheKey) : Nat :=
  (ks.map CacheKey.identity).toFinset.card

theorem CacheKey.variety_mono {js ks : List CacheKey}
    (h : ∀ j ∈ js, ∃ k ∈ ks, (k == j) = true) : variety js ≤ variety ks := by
  refine Finset.card_le_card fun x hx => ?_
  obtain ⟨j, hj, rfl⟩ := List.mem_map.1 (List.mem_toFinset.1 hx)
  obtain ⟨k, hk, hkj⟩ := h j hj
  exact List.mem_toFinset.2 (List.mem_map.2 ⟨k, hk, CacheKey.beq_iff.1 hkj⟩)

theorem CacheKey.length_eq_variety {entries : List (CacheKey × Digest)}
    (h : Distinct entries) : entries.length = variety (keys entries) := by
  have hnodup : ((keys entries).map CacheKey.identity).Nodup := by
    rw [keys, List.map_map, List.Nodup, List.pairwise_map]
    refine List.Pairwise.imp (fun {e f} hef heq => ?_) h
    rw [CacheKey.beq_iff.2 heq] at hef
    cases hef
  calc entries.length
      = ((keys entries).map CacheKey.identity).length := by simp
    _ = variety (keys entries) := (List.toFinset_card_of_nodup hnodup).symm

theorem CacheKey.variety_congr {front after : List (CacheKey × Digest)}
    (h : ∀ i, has i front = has i after) :
    variety (keys front) = variety (keys after) := by
  have hle : ∀ {xs ys : List (CacheKey × Digest)}, (∀ i, has i xs = has i ys) →
      variety (keys xs) ≤ variety (keys ys) := by
    intro xs ys hxy
    refine variety_mono fun i hi => has_iff.1 ?_
    rw [← hxy i]
    exact has_iff.2 ⟨i, hi, BEq.rfl⟩
  exact Nat.le_antisymm (hle h) (hle fun i => (h i).symm)

namespace Access

/-- The key that an access touches, with the digest that is under it then. -/
def touch? (s : Store) : Access → Option (CacheKey × Digest)
  | ask k => (s.get k).1.map fun d => (k, d)
  | put k d => some (k, d)

end Access

namespace Store

def touches (s : Store) : List Access → List (CacheKey × Digest)
  | [] => []
  | a :: as => (a.touch? s).toList ++ (a.toStore s).touches as

def lastPut (k : CacheKey) (as : List Access) : Option Digest :=
  as.reverse.findSome? fun a =>
    match a with
    | .put j d => if j == k then some d else none
    | .ask _ => none

theorem touches_concat (s : Store) (as : List Access) (a : Access) :
    s.touches (as ++ [a]) = s.touches as ++ (a.touch? (s.after as)).toList := by
  induction as generalizing s with
  | nil => simp [touches, after]
  | cons b as ih => simp [touches, ih, after]

theorem touches_concat_put (s : Store) (as : List Access) (k : CacheKey)
    (d : Digest) : s.touches (as ++ [.put k d]) = s.touches as ++ [(k, d)] :=
  touches_concat s as _

theorem touches_concat_hit {s : Store} {as : List Access}
    {k : CacheKey} {d : Digest} (h : find? k (s.after as).entries = some d) :
    s.touches (as ++ [.ask k]) = s.touches as ++ [(k, d)] := by
  rw [touches_concat, Access.touch?, get_fst, h]
  rfl

theorem touches_concat_miss {s : Store} {as : List Access} {k : CacheKey}
    (h : find? k (s.after as).entries = none) :
    s.touches (as ++ [.ask k]) = s.touches as := by
  rw [touches_concat, Access.touch?, get_fst, h]
  exact List.append_nil _

theorem after_concat (s : Store) (as : List Access) (a : Access) :
    s.after (as ++ [a]) = a.toStore (s.after as) := by
  simp [after]

theorem lastPut_concat_ask (k j : CacheKey) (as : List Access) :
    lastPut k (as ++ [.ask j]) = lastPut k as := by
  simp [lastPut]

theorem lastPut_concat_put (k j : CacheKey) (d : Digest) (as : List Access) :
    lastPut k (as ++ [.put j d]) = if j == k then some d else lastPut k as := by
  cases h : j == k <;> simp [lastPut, h]

/-- The store holds the front part of what its touches leave where there is room
for all, and there every key has the digest that was put in last. -/
structure Recalls (capacity : Nat) (as : List Access) : Prop where
  entries : ((empty capacity).after as).entries =
    (ofTouches ((empty capacity).touches as)).take capacity
  value : ∀ k, find? k (ofTouches ((empty capacity).touches as)) = lastPut k as

theorem recalls (capacity : Nat) (as : List Access) : Recalls capacity as := by
  induction as using List.reverseRecOn with
  | nil => exact ⟨by simp [after, touches, empty], fun k => rfl⟩
  | append_singleton as a ih =>
      obtain ⟨hentries, hvalue⟩ := ih
      have hcapacity : ((empty capacity).after as).capacity = capacity :=
        capacity_after _ _
      have hdistinct := distinct_ofTouches ((empty capacity).touches as)
      cases a with
      | put k d =>
          refine ⟨?_, fun j => ?_⟩
          · rw [after_concat, touches_concat_put, ofTouches_concat,
              Access.toStore, insert, hcapacity, hentries]
            exact take_put_take hdistinct k d capacity
          · rw [touches_concat_put, ofTouches_concat, lastPut_concat_put,
              find?_put, hvalue]
      | ask k =>
          cases hk : find? k ((empty capacity).after as).entries with
          | none =>
              refine ⟨?_, fun j => ?_⟩
              · rw [after_concat, Access.toStore, get_of_find?_eq_none hk,
                  touches_concat_miss hk]
                exact hentries
              · rw [touches_concat_miss hk, lastPut_concat_ask, hvalue]
          | some d =>
              refine ⟨?_, fun j => ?_⟩
              · -- an answered lookup adds no entry, so nothing is pushed out
                have hlength :
                    (put k d ((empty capacity).after as).entries).length ≤
                      capacity := by
                  have htidy := (tidy_empty capacity).after as
                  rw [length_put htidy.distinct, has, hk]
                  exact Nat.le_trans htidy.length_le (Nat.le_of_eq hcapacity)
                rw [after_concat, Access.toStore, get_of_find? hk,
                  touches_concat_hit hk, ofTouches_concat,
                  ← List.take_of_length_le hlength, hentries]
                exact take_put_take hdistinct k d capacity
              · rw [touches_concat_hit hk, ofTouches_concat, lastPut_concat_ask,
                  find?_put, hvalue]
                split
                · rw [hentries] at hk
                  rw [← hvalue, ← find?_congr ‹(k == j) = true›,
                    find?_of_find?_take hk]
                · rfl

theorem find?_after_of_touches {capacity : Nat} {as : List Access}
    {before after : List (CacheKey × Digest)} {j k : CacheKey} {w : Digest}
    (h : (empty capacity).touches as = before ++ (j, w) :: after)
    (hj : (j == k) = true) (hafter : has k after = false) :
    find? k ((empty capacity).after as).entries =
      if CacheKey.variety (keys after) < capacity then some w else none := by
  have hafterj : has j after = false := by
    rw [has, find?_congr hj, ← has, hafter]
  obtain ⟨front, back, hsplit, hfront⟩ :=
    exists_split_ofTouches before w hafterj
  have hdistinct : Distinct front := by
    have hall := distinct_ofTouches (before ++ (j, w) :: after)
    rw [hsplit] at hall
    exact (List.pairwise_append.1 hall).1
  rw [(recalls capacity as).entries, h, hsplit,
    find?_take_append hj ((hfront k).trans hafter),
    CacheKey.length_eq_variety hdistinct, CacheKey.variety_congr hfront]

theorem lastPut_of_find?_after {capacity : Nat} {as : List Access}
    {k : CacheKey} {d : Digest}
    (h : find? k ((empty capacity).after as).entries = some d) :
    lastPut k as = some d := by
  obtain ⟨hentries, hvalue⟩ := recalls capacity as
  rw [hentries] at h
  rw [← hvalue, find?_of_find?_take h]

/-- A store knows a key as long as fewer other keys were touched since than
there is room for. -/
theorem has_after_iff (capacity : Nat) (as : List Access) (k : CacheKey) :
    has k ((empty capacity).after as).entries = true ↔
      ∃ before e after, (empty capacity).touches as = before ++ e :: after ∧
      (e.1 == k) = true ∧
        has k after = false ∧ CacheKey.variety (keys after) < capacity := by
  constructor
  · intro h
    have htouched : has k ((empty capacity).touches as) = true := by
      obtain ⟨d, hd⟩ := Option.isSome_iff_exists.1 h
      rw [(recalls capacity as).entries] at hd
      refine has_of_has_ofTouches ?_
      rw [has, find?_of_find?_take hd]
      rfl
    obtain ⟨before, e, after, htouches, he, hafter⟩ :=
      exists_last_touch htouched
    refine ⟨before, e, after, htouches, he, hafter, ?_⟩
    rw [has, find?_after_of_touches htouches he hafter] at h
    by_contra hroom
    rw [if_neg hroom] at h
    cases h
  · rintro ⟨before, e, after, htouches, he, hafter, hroom⟩
    rw [has, find?_after_of_touches htouches he hafter, if_pos hroom]
    rfl

theorem entries_access_congr {s t : Store} (hcapacity : s.capacity = t.capacity)
    (hentries : s.entries = t.entries) (a : Access) :
    (a.toStore s).entries = (a.toStore t).entries := by
  cases a with
  | ask k =>
      simp only [Access.toStore, get, hentries]
      split <;> rfl
  | put k d => simp only [Access.toStore, insert, hcapacity, hentries]

theorem entries_after_congr {s t : Store} (hcapacity : s.capacity = t.capacity)
    (hentries : s.entries = t.entries) (as : List Access) :
    (s.after as).entries = (t.after as).entries := by
  induction as generalizing s t with
  | nil => exact hentries
  | cons a as ih =>
      exact ih (by rw [capacity_access, capacity_access, hcapacity])
        (entries_access_congr hcapacity hentries a)

end Store

inductive Use where
  | access (a : Access)
  /-- Reads the counters or the number of the entries. -/
  | inspect

namespace Use

def access? : Use → Option Access
  | access a => some a
  | inspect => none

def toCache : Use → Cache → Cache
  | access a, c => a.toCache c
  | inspect, c => c

def touch? (c : Cache) : Use → Option CacheKey
  | access (.ask k) => if (c.get k).1.isSome then some k else none
  | access (.put k _) => some k
  | inspect => none

end Use

namespace Cache

def afterUses (c : Cache) (us : List Use) : Cache :=
  us.foldl (fun c u => u.toCache c) c

def touched (c : Cache) : List Use → List CacheKey
  | [] => []
  | u :: us => (u.touch? c).toList ++ (u.toCache c).touched us

def lastPut (k : CacheKey) (us : List Use) : Option Digest :=
  Store.lastPut k (us.filterMap Use.access?)

variable {c : Cache} {s : Store}

theorem get_fst_of_inUse (h : c.inUse = some s) (k : CacheKey) :
    (c.get k).1 = find? k s.entries := by
  obtain ⟨g, hg, hs⟩ := Option.bind_eq_some_iff.1 h
  rw [get, hg]
  simp only [getAt, hs]
  exact Store.get_fst s k

theorem inUse_afterUses (h : c.inUse = some s) (us : List Use) :
    (c.afterUses us).inUse = some (s.after (us.filterMap Use.access?)) := by
  induction us generalizing c s with
  | nil => exact h
  | cons u us ih =>
      cases u with
      | inspect => exact ih h
      | access a =>
          have hnext : (a.toCache c).inUse = some (a.toStore s) := by
            rw [Access.inUse_toCache, h, Option.map_some]
          exact ih hnext

theorem touched_eq (h : c.inUse = some s) (us : List Use) :
    c.touched us = keys (s.touches (us.filterMap Use.access?)) := by
  induction us generalizing c s with
  | nil => rfl
  | cons u us ih =>
      cases u with
      | inspect => exact ih h
      | access a =>
          have hnext : (a.toCache c).inUse = some (a.toStore s) := by
            rw [Access.inUse_toCache, h, Option.map_some]
          have hone : ((Use.access a).touch? c).toList =
              keys (a.touch? s).toList := by
            cases a with
            | put k d => rfl
            | ask k =>
                rw [Use.touch?, get_fst_of_inUse h, Access.touch?,
                  Store.get_fst]
                cases find? k s.entries <;> rfl
          change _ ++ (a.toCache c).touched us = keys (_ ++ _)
          rw [ih hnext, hone, keys, keys, keys, List.map_append]

/-- What touches no key changes no later answer. -/
theorem get_afterUses_of_touch? (h : c.inUse = some s) {u : Use}
    (hu : u.touch? c = none) (us : List Use) (k : CacheKey) :
    (((u.toCache c).afterUses us).get k).1 = ((c.afterUses us).get k).1 := by
  cases u with
  | inspect => rfl
  | access a =>
      cases a with
      | put j d => cases hu
      | ask j =>
          have hmiss : find? j s.entries = none := by
            rw [Use.touch?, get_fst_of_inUse h] at hu
            cases hfind : find? j s.entries with
            | none => rfl
            | some d => simp [hfind] at hu
          have hasked : ((Access.ask j).toCache c).inUse =
              some { s with misses := s.misses + 1 } := by
            rw [Access.inUse_toCache, h, Option.map_some, Access.toStore,
              Store.get_of_find?_eq_none hmiss]
          have hafter := inUse_afterUses hasked us
          change (((Access.ask j).toCache c).afterUses us).inUse = _ at hafter
          change ((((Access.ask j).toCache c).afterUses us).get k).1 = _
          rw [get_fst_of_inUse hafter, get_fst_of_inUse (inUse_afterUses h us)]
          congr 1
          exact Store.entries_after_congr
            (s := { s with misses := s.misses + 1 }) (t := s) rfl rfl _

/-- A cache that was configured with room for `n` digests answers exactly if
fewer than `n` other keys were touched since the key was, and then with the
digest put in last. What touches no key changes no later answer. -/
theorem get_isSome_iff_touched (c : Cache) {n : UInt64} (hn : n ≠ 0)
    (us : List Use) :
    let fresh := c.configure n
    let used := fresh.afterUses us
    (∀ k, (used.get k).1.isSome = true ↔
      ∃ before j after, fresh.touched us = before ++ j :: after ∧
      (j == k) = true ∧
        (∀ i ∈ after, (i == k) = false) ∧ CacheKey.variety after < n.toNat) ∧
    (∀ k d, (used.get k).1 = some d → lastPut k us = some d) ∧
    ∀ u : Use, u.touch? used = none → ∀ later k,
      (((u.toCache used).afterUses later).get k).1 =
        ((used.afterUses later).get k).1 := by
  intro fresh used
  have hfresh : fresh.inUse = some (Store.empty n.toNat) := by
    rw [inUse_configure, if_neg hn]
  have hused := inUse_afterUses hfresh us
  refine ⟨fun k => ?_, fun k d hd => ?_, fun u hu later k => ?_⟩
  · rw [get_fst_of_inUse hused, ← has, Store.has_after_iff, touched_eq hfresh]
    constructor
    · rintro ⟨before, e, after, htouches, he, hafter, hroom⟩
      refine ⟨keys before, e.1, keys after, ?_, he, not_has_iff.1 hafter, hroom⟩
      rw [htouches, keys, List.map_append, List.map_cons]
      rfl
    · rintro ⟨before, j, after, htouched, hj, hafter, hroom⟩
      obtain ⟨front, rest, htouches, rfl, hrest⟩ :=
        List.map_eq_append_iff.1 htouched
      obtain ⟨e, back, rfl, rfl, rfl⟩ := List.map_eq_cons_iff.1 hrest
      exact ⟨front, e, back, htouches, hj, not_has_iff.2 hafter, hroom⟩
  · rw [get_fst_of_inUse hused] at hd
    exact Store.lastPut_of_find?_after hd
  · exact get_afterUses_of_touch? hused hu later k

/-- With room for two digests, a key that was looked up outlives one that was
put in later; a lookup of the latter is not answered and changes nothing. -/
theorem get_isSome_iff_touched_lookedUp :
    let key (name : String) : CacheKey := ⟨.ofText name, ⟨1, .epoch, 0⟩⟩
    let us : List Use :=
      [.access (.put (key "a") [1]), .access (.put (key "b") [2]), .inspect,
      .access (.ask (key "a")), .access (.put (key "c") [3])]
    let used := (Cache.disabled.configure 2).afterUses us
    (used.get (key "a")).1 = some [1] ∧
      ((((Use.access (.ask (key "b"))).toCache used).afterUses []).get
        (key "a")).1 = some [1] := by
  intro key us used
  obtain ⟨hknown, hvalue, hmissed⟩ := get_isSome_iff_touched disabled (n := 2)
    (by decide) us
  have hsome : (used.get (key "a")).1.isSome = true := by
    refine (hknown (key "a")).2 ⟨[key "a", key "b"], key "a", [key "c"],
      ?_, ?_, ?_, ?_⟩
    · rfl
    · decide
    · decide
    · decide
  obtain ⟨d, hd⟩ := Option.isSome_iff_exists.1 hsome
  obtain rfl : [1] = d := Option.some.inj (hvalue (key "a") d hd)
  exact ⟨hd, (hmissed (.access (.ask (key "b"))) rfl [] (key "a")).trans hd⟩

end Cache

end FileDigest
