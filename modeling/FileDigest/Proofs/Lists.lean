import Mathlib.Data.List.Nodup

/-!
# Lists and results

What is needed of the types of the library beside what the library has.

Where no key stands twice in a list of entries, looking a key up finds the entry
that is there (`lookup_of_mem`), so the order of the entries counts for nothing
(`lookup_perm`). A list in which each of these entries stands once, and none
beside it under the same key, is made of the entries and of others under other
keys, in any order (`exists_perm_append_iff`).
-/

namespace FileDigest

theorem Except.map_eq_map {ε α β : Type} {f : α → β} {x y : Except ε α}
    (h : x.map f = y.map f) :
    (∃ e, x = .error e ∧ y = .error e) ∨ ∃ a b, x = .ok a ∧ y = .ok b ∧
    f a = f b := by
  cases x <;> cases y <;> simp_all [Except.map]

theorem exists_perm_filterMap {α β : Type} {f : α → Option β}
    {xs : List α} {ys : List β} (h : ys.Perm (xs.filterMap f)) :
    ∃ xs', xs.Perm xs' ∧ ys = xs'.filterMap f := by
  induction ys generalizing xs with
  | nil => exact ⟨xs, List.Perm.refl xs, (h.symm.eq_nil).symm⟩
  | cons y ys ih =>
      obtain ⟨x, hx, hy⟩ :=
        List.mem_filterMap.1 (h.mem_iff.1 List.mem_cons_self)
      obtain ⟨xs₁, xs₂, rfl⟩ := List.append_of_mem hx
      have hmiddle : (xs₁ ++ x :: xs₂).Perm (x :: (xs₁ ++ xs₂)) :=
        List.perm_middle
      have hrest : ys.Perm ((xs₁ ++ xs₂).filterMap f) := by
        have hperm := h.trans (hmiddle.filterMap f)
        rw [List.filterMap_cons_some hy] at hperm
        exact hperm.cons_inv
      obtain ⟨xs', hperm', rfl⟩ := ih hrest
      exact ⟨x :: xs', hmiddle.trans (hperm'.cons x), by
        rw [List.filterMap_cons_some hy]⟩

section Keys

variable {α β γ : Type} [DecidableEq α]

theorem lookup_cons (key a : α) (b : β) (entries : List (α × β)) :
    ((a, b) :: entries).lookup key = if key = a then some b
      else entries.lookup key := by
  by_cases h : key = a
  · simp [h]
  · have hne : (key == a) = false := beq_eq_false_iff_ne.2 h
    rw [List.lookup_cons, hne, if_neg h]

theorem lookup_map_snd (f : α → β → γ) (key : α) (entries : List (α × β)) :
    (entries.map fun e => (e.1, f e.1 e.2)).lookup key =
      (entries.lookup key).map (f key) := by
  induction entries with
  | nil => rfl
  | cons e rest ih =>
      obtain ⟨a, b⟩ := e
      rw [List.map_cons, lookup_cons, lookup_cons, ih]
      split
      · rename_i hkey
        rw [hkey, Option.map_some]
      · rfl

end Keys

variable {α β : Type} [BEq α] [LawfulBEq α] {entries entries' : List (α × β)}
  {key : α} {value : β}

theorem mem_of_lookup (h : entries.lookup key = some value) :
    (key, value) ∈ entries := by
  obtain ⟨l₁, l₂, rfl, -⟩ := List.lookup_eq_some_iff.1 h
  simp

theorem lookup_of_mem (h : (entries.map (·.1)).Nodup)
    (hmem : (key, value) ∈ entries) : entries.lookup key = some value := by
  induction entries with
  | nil => cases hmem
  | cons e entries ih =>
      rw [List.map_cons, List.nodup_cons] at h
      rcases List.mem_cons.1 hmem with rfl | hmem
      · exact List.lookup_cons_self
      · have hne : key ≠ e.1 := by
          rintro rfl
          exact h.1 (List.mem_map.2 ⟨_, hmem, rfl⟩)
        have hbeq : (key == e.1) = false := beq_eq_false_iff_ne.2 hne
        rw [List.lookup_cons, hbeq]
        exact ih h.2 hmem

theorem lookup_perm (h : entries.Perm entries')
    (hnodup : (entries.map (·.1)).Nodup) (key : α) :
    entries.lookup key = entries'.lookup key := by
  have hnodup' : (entries'.map (·.1)).Nodup := (h.map _).nodup_iff.1 hnodup
  refine Option.ext fun value => ⟨fun hvalue => ?_, fun hvalue => ?_⟩
  · exact lookup_of_mem hnodup' (h.mem_iff.1 (mem_of_lookup hvalue))
  · exact lookup_of_mem hnodup (h.mem_iff.2 (mem_of_lookup hvalue))

theorem filter_key_of_mem (hnodup : (entries.map (·.1)).Nodup) {e : α × β}
    (he : e ∈ entries) : entries.filter (·.1 == e.1) = [e] := by
  induction entries with
  | nil => cases he
  | cons e' entries ih =>
      rw [List.map_cons, List.nodup_cons] at hnodup
      rcases List.mem_cons.1 he with rfl | he
      · have hrest : entries.filter (·.1 == e.1) = [] := by
          rw [List.filter_eq_nil_iff]
          intro m hm hbeq
          exact hnodup.1 (List.mem_map.2 ⟨m, hm, eq_of_beq hbeq⟩)
        rw [List.filter_cons, if_pos (beq_self_eq_true e.1), hrest]
      · have hne : ¬(e'.1 == e.1) = true := by
          intro hbeq
          exact hnodup.1 (List.mem_map.2 ⟨e, he, (eq_of_beq hbeq).symm⟩)
        rw [List.filter_cons, if_neg hne, ih hnodup.2 he]

theorem exists_perm_append_iff (hnodup : (entries.map (·.1)).Nodup)
    {members : List (α × β)} :
    (∃ others, (∀ m ∈ others, m.1 ∉ entries.map (·.1)) ∧
      members.Perm (entries ++ others)) ↔
      ∀ e ∈ entries, members.filter (·.1 == e.1) = [e] := by
  constructor
  · rintro ⟨others, hothers, hperm⟩ e he
    have hrest : others.filter (·.1 == e.1) = [] := by
      rw [List.filter_eq_nil_iff]
      intro m hm hbeq
      exact hothers m hm (List.mem_map.2 ⟨e, he, (eq_of_beq hbeq).symm⟩)
    have hfilter := hperm.filter (·.1 == e.1)
    rw [List.filter_append, filter_key_of_mem hnodup he, hrest, List.append_nil]
      at hfilter
    exact List.perm_singleton.1 hfilter
  · intro h
    induction entries generalizing members with
    | nil => exact ⟨members, by simp, List.Perm.refl _⟩
    | cons e entries ih =>
        rw [List.map_cons, List.nodup_cons] at hnodup
        -- The entries under the first key are taken out, which leaves those
        -- under the other keys.
        have hrest : ∀ e' ∈ entries,
            (members.filter (!·.1 == e.1)).filter (·.1 == e'.1) = [e'] := by
          intro e' he'
          rw [List.filter_filter, ← h e' (List.mem_cons_of_mem e he')]
          apply List.filter_congr
          intro m _
          by_cases hm : m.1 = e'.1
          · have hne : m.1 ≠ e.1 := fun heq =>
              hnodup.1 (List.mem_map.2 ⟨e', he', hm ▸ heq⟩)
            simp [hne]
          · simp [hm]
        obtain ⟨others, hothers, hperm⟩ := ih hnodup.2 hrest
        refine ⟨others, fun m hm => ?_, ?_⟩
        · have hmem := hperm.mem_iff.2 (List.mem_append_right _ hm)
          have hne : m.1 ≠ e.1 := by simpa using (List.mem_filter.1 hmem).2
          rw [List.map_cons, List.mem_cons, not_or]
          exact ⟨hne, hothers m hm⟩
        · have hsplit := List.filter_append_perm (·.1 == e.1) members
          rw [h e List.mem_cons_self] at hsplit
          exact hsplit.symm.trans (hperm.cons e)

end FileDigest
