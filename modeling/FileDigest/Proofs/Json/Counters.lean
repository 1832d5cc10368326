import FileDigest.Proofs.Json.Acceptance
import FileDigest.Proofs.Json.Words
import FileDigest.Proofs.Json.Writing
import FileDigest.Proofs.Lists
import FileDigest.StatsText
import Mathlib.Algebra.Order.Ring.Rat
import Mathlib.Data.List.Permutation

/-!
# Counters in JSON

The counters of a store are read from every object that holds the three of them
once each, among any others in any order, and from no other object. Which text
of the object is read makes no difference. In particular the counters that were
written are read again.
-/

namespace FileDigest

namespace Json

/-! ## The fields of a record -/

/-- The members under a name are the field, or there is none where the field is
left out. -/
def FieldOf (members : List (Text × Value)) (name : String)
    (field : Option Value) : Prop :=
  members.filter (fun m => m.1 == some name) = field.toList.map fun v =>
    (some name, v)

theorem fieldOf_iff {members : List (Text × Value)} {name : String}
    {field : Option Value} :
    FieldOf members name field ↔
      (match members.filter fun m => m.1 == some name with
      | [] => some none
      | [m] => some (some m.2)
      | _ => none) = some field := by
  unfold FieldOf
  have hname : ∀ m ∈ members.filter fun m => m.1 == some name,
      m.1 = some name :=
    fun m hm => eq_of_beq (List.mem_filter.1 hm).2
  split
  · rename_i hfilter
    rw [hfilter]
    cases field <;> simp
  · rename_i m hfilter
    rw [hfilter] at hname ⊢
    obtain ⟨name', v⟩ := m
    obtain rfl : name' = some name := hname _ List.mem_cons_self
    cases field <;> simp
  · rename_i hnil hone
    constructor
    · intro heq
      cases field with
      | none => exact absurd heq hnil
      | some v => exact absurd heq (hone _)
    · rintro ⟨⟩

theorem membersByName_eq_some_iff {members : List (Text × Value)}
    {names : List String} {fields : List (Option Value)} :
    membersByName members names = some fields ↔
      (∀ m ∈ members, m.1 ≠ none) ∧
      List.Forall₂ (FieldOf members) names fields := by
  have hany : (members.any fun m => m.1.isNone) = true ↔ ¬∀ m ∈ members,
      m.1 ≠ none := by
    simp [List.any_eq_true]
  unfold membersByName
  by_cases hnames : ∀ m ∈ members, m.1 ≠ none
  · rw [if_neg (hany.not.2 (not_not.2 hnames)), and_iff_right hnames]
    induction names generalizing fields with
    | nil =>
        rw [List.mapM_nil, List.forall₂_nil_left_iff]
        exact ⟨fun h => (Option.some.inj h).symm, fun h => congrArg some h.symm⟩
    | cons name names ih =>
        rw [List.mapM_cons]
        simp only [Option.bind_eq_bind, Option.bind_eq_some_iff,
          Option.pure_def, Option.some.injEq, ih, List.forall₂_cons_left_iff]
        constructor
        · rintro ⟨field, hfield, fields, hfields, rfl⟩
          exact ⟨field, fields, fieldOf_iff.2 hfield, hfields, rfl⟩
        · rintro ⟨field, fields, hfield, hfields, rfl⟩
          exact ⟨field, fieldOf_iff.1 hfield, fields, hfields, rfl⟩
  · rw [if_pos (hany.2 hnames)]
    exact ⟨fun h => (nomatch h), fun h => absurd h.1 hnames⟩

end Json

namespace CacheStats

open Json (Text Value Numeral)

def fields (s : CacheStats) : List (String × UInt64) :=
  [("hit_count", s.hits), ("miss_count", s.misses),
    ("eviction_count", s.evictions)]

/-- The counters as members of an object, in digits and nothing else. -/
def members (s : CacheStats) : List (Text × Value) :=
  s.fields.map fun f => (some f.1, .number (.ofNat f.2.toNat))

/-- Each of the counters is among the members once. The others have other names
and stand anywhere among them. -/
def HeldBy (s : CacheStats) (members : List (Text × Value)) : Prop :=
  ∃ others : List (Text × Value),
    (∀ m ∈ others, ∀ name ∈ fieldNames, m.1 ≠ some name) ∧
    members.Perm (s.members ++ others)

/-- What keeps the members from holding a counter of a name. A number counts as
negative if it has a minus, and as fractional if it has a point, even if it is
worth a whole number. -/
inductive Spoiled (name : String) (members : List (Text × Value)) : Prop
  | missing (h : ∀ m ∈ members, m.1 ≠ some name)
  | repeated {v w : Value}
      (h : [(some name, v), (some name, w)].Sublist members)
  | negative {n : Numeral} (hmem : (some name, .number n) ∈ members)
      (h : n.toRat < 0 ∨ n.negative = true)
  | fractional {n : Numeral} (hmem : (some name, .number n) ∈ members)
      (h : n.toRat.den ≠ 1 ∨ n.fraction ≠ [])
  | tooLarge {n : Numeral} (hmem : (some name, .number n) ∈ members)
      (h : 2 ^ 64 - 1 < n.toRat)

theorem ofValue?_object {members : List (Text × Value)} {s : CacheStats} :
    ofValue? (.object members) = some s ↔
      (∀ m ∈ members, m.1 ≠ none) ∧
        ∀ f ∈ s.fields, ∃ v, Json.FieldOf members f.1 (some v) ∧
        v.unsigned? = some f.2 := by
  have hfields {hits misses evictions : Option Value} :
      Json.fields? fieldNames (.object members) =
        some [hits, misses, evictions] ↔
        (∀ m ∈ members, m.1 ≠ none) ∧ Json.FieldOf members "hit_count" hits ∧
          Json.FieldOf members "miss_count" misses ∧
            Json.FieldOf members "eviction_count" evictions := by
    rw [Json.fields?, Json.membersByName_eq_some_iff, fieldNames]
    simp only [List.forall₂_cons, List.Forall₂.nil, and_true]
  unfold ofValue?
  constructor
  · intro h
    split at h
    · rename_i hits misses evictions hvalues
      obtain ⟨hnames, hhits, hmisses, hevictions⟩ := hfields.1 hvalues
      split at h
      · rename_i hits' misses' evictions' hhits' hmisses' hevictions'
        cases h
        obtain ⟨v₁, rfl, hv₁⟩ := Option.bind_eq_some_iff.1 hhits'
        obtain ⟨v₂, rfl, hv₂⟩ := Option.bind_eq_some_iff.1 hmisses'
        obtain ⟨v₃, rfl, hv₃⟩ := Option.bind_eq_some_iff.1 hevictions'
        simp only [fields, List.forall_mem_cons]
        exact ⟨hnames, ⟨v₁, hhits, hv₁⟩, ⟨v₂, hmisses, hv₂⟩,
          ⟨v₃, hevictions, hv₃⟩, by simp⟩
      · cases h
    · cases h
  · simp only [fields, List.forall_mem_cons]
    rintro ⟨hnames, ⟨v₁, hhits, hv₁⟩, ⟨v₂, hmisses, hv₂⟩,
      ⟨v₃, hevictions, hv₃⟩, -⟩
    rw [hfields.2 ⟨hnames, hhits, hmisses, hevictions⟩]
    simp only [Json.required, Option.bind_some, hv₁, hv₂, hv₃]

/-- The three are held by the members exactly if under each of the names there
is just the one. -/
theorem heldBy_iff {s : CacheStats} {members : List (Text × Value)} :
    s.HeldBy members ↔
      ∀ f ∈ s.fields,
        Json.FieldOf members f.1 (some (.number (.ofNat f.2.toNat))) := by
  have hkeys : s.members.map (·.1) = fieldNames.map some := rfl
  have hnodup : (s.members.map (·.1)).Nodup := by
    rw [hkeys]
    decide
  have hother (t : Text) : t ∉ s.members.map (·.1) ↔ ∀ name ∈ fieldNames,
      t ≠ some name := by
    rw [hkeys, List.mem_map]
    exact ⟨fun h name hname heq => h ⟨name, hname, heq.symm⟩,
      fun h ⟨name, hname, heq⟩ => h name hname heq.symm⟩
  have hfilter : s.HeldBy members ↔ ∀ e ∈ s.members,
      members.filter (·.1 == e.1) = [e] := by
    rw [← exists_perm_append_iff hnodup]
    simp only [hother]
    rfl
  exact hfilter.trans List.forall_mem_map

theorem fieldOf_unique {members : List (Text × Value)}
    {name : String} {v w : Value} (h : Json.FieldOf members name (some v))
    (hmem : (some name, w) ∈ members) : w = v := by
  have hfilter : (some name, w) ∈ members.filter fun m => m.1 == some name :=
    List.mem_filter.2 ⟨hmem, beq_self_eq_true _⟩
  rw [h] at hfilter
  exact (Prod.mk.inj (List.mem_singleton.1 hfilter)).2

/-- In a text of an object, the counters are the digits of words under their
names. -/
theorem ofValue?_object_iff_heldBy {members : List (Text × Value)}
    {cs : List Char} (hwrites : Json.Writes (.object members) cs)
    {s : CacheStats} :
    ofValue? (.object members) = some s ↔ (∀ m ∈ members, m.1 ≠ none) ∧
    s.HeldBy members := by
  have hword {name : String} {w : UInt64} :
      (∃ v, Json.FieldOf members name (some v) ∧ v.unsigned? = some w) ↔
        Json.FieldOf members name (some (.number (.ofNat w.toNat))) := by
    constructor
    · rintro ⟨v, hfield, hv⟩
      have hmem : (some name, v) ∈ members := by
        have hfilter : (some name, v) ∈ members.filter fun m =>
            m.1 == some name := by
          rw [hfield]
          exact List.mem_singleton_self _
        exact (List.mem_filter.1 hfilter).1
      obtain ⟨chars, hchars⟩ := hwrites.of_mem_object hmem
      cases v with
      | number n =>
          obtain ⟨digits, hdigits⟩ := hchars.writesNumber
          rwa [← (Numeral.unsigned?_eq_some_iff hdigits).1 hv]
      | _ => cases hv
    · intro hfield
      exact ⟨_, hfield,
        (Numeral.unsigned?_eq_some_iff (Numeral.writesNumber_ofNat _)).2 rfl⟩
  rw [ofValue?_object, heldBy_iff]
  simp only [hword]

theorem not_heldBy_of_spoiled {s : CacheStats} {members : List (Text × Value)}
    {name : String} (hname : name ∈ fieldNames) (h : Spoiled name members) :
    ¬s.HeldBy members := by
  intro hheld
  have hkeys : s.fields.map (·.1) = fieldNames := rfl
  rw [← hkeys] at hname
  obtain ⟨⟨name, w⟩, hf, rfl⟩ := List.mem_map.1 hname
  have hfield := heldBy_iff.1 hheld _ hf
  have hnumber {n : Numeral} (hmem : (some name, .number n) ∈ members) : n =
      .ofNat w.toNat :=
    Value.number.inj (fieldOf_unique hfield hmem)
  cases h with
  | missing h =>
      have hmem : (some name, .number (.ofNat w.toNat)) ∈ s.members :=
        List.mem_map.2 ⟨_, hf, rfl⟩
      obtain ⟨others, -, hperm⟩ := hheld
      exact h _ (hperm.mem_iff.2 (List.mem_append_left _ hmem)) rfl
  | repeated h =>
      have hlength := (h.filter fun m => m.1 == some name).length_le
      rw [hfield] at hlength
      simp at hlength
  | negative hmem h =>
      obtain rfl := hnumber hmem
      rw [Numeral.toRat_ofNat] at h
      rcases h with h | h
      · exact absurd h (not_lt.2 (Nat.cast_nonneg _))
      · cases h
  | fractional hmem h =>
      obtain rfl := hnumber hmem
      rw [Numeral.toRat_ofNat] at h
      rcases h with h | h
      · exact h (Rat.den_natCast _)
      · exact h rfl
  | tooLarge hmem h =>
      obtain rfl := hnumber hmem
      rw [Numeral.toRat_ofNat] at h
      have hle : (w.toNat : ℚ) + 1 ≤ 2 ^ 64 := by
        exact_mod_cast Nat.succ_le_of_lt w.toNat_lt
      exact absurd h (not_lt.2 (le_sub_iff_add_le.2 hle))

/-- What is written of the counters is a text of an object with just the
three. -/
theorem writes_toJson (s : CacheStats) :
    Json.Writes (.object s.members) s.toJson.toList := by
  have hfields : ∀ f ∈ s.fields.map fun f =>
      (f.1, (Value.number (.ofNat f.2.toNat), Json.writeNat f.2.toNat)),
      Json.Writes f.2.1 f.2.2 := by
    intro f hf
    obtain ⟨g, -, rfl⟩ := List.mem_map.1 hf
    exact .number (Numeral.writesNumber_ofNat g.2.toNat)
  have hobject := Json.writes_writeObject hfields
  rw [toJson, String.toList_ofList]
  exact hobject

theorem heldBy_members (s : CacheStats) : s.HeldBy s.members := by
  have hothers : s.members.Perm (s.members ++ []) := by rw [List.append_nil]
  exact ⟨[], by simp, hothers⟩

theorem ofJson?_eq_some_iff {members : List (Text × Value)} {text : String}
    (h : Json.Writes (.object members) text.toList) {s : CacheStats} :
    ofJson? text = some s ↔ (∀ m ∈ members, m.1 ≠ none) ∧ s.HeldBy members := by
  rw [ofJson?, Json.read?_of_writes h, Option.bind_some]
  exact ofValue?_object_iff_heldBy h

/-- The counters are read as they were written. An object gives counters exactly
if it holds them and all its names are texts, whichever text of it is read; so
it gives none if one of the three is spoiled. -/
theorem read_iff_heldBy :
    (∀ s : CacheStats, ofJson? s.toJson = some s) ∧
      ∀ (members : List (Text × Value)) (text : String),
        Json.Writes (.object members) text.toList →
          (∀ s : CacheStats,
            ofJson? text = some s ↔ (∀ m ∈ members, m.1 ≠ none) ∧
            s.HeldBy members) ∧
          ∀ name ∈ fieldNames, Spoiled name members → ofJson? text = none := by
  refine ⟨fun s => ?_, fun members text h =>
    ⟨fun s => ofJson?_eq_some_iff h, ?_⟩⟩
  · refine (ofJson?_eq_some_iff s.writes_toJson).2 ⟨fun m hm => ?_,
      s.heldBy_members⟩
    obtain ⟨f, -, rfl⟩ := List.mem_map.1 hm
    exact Option.some_ne_none f.1
  · intro name hname hspoiled
    rw [Option.eq_none_iff_forall_ne_some]
    intro s hs
    exact not_heldBy_of_spoiled hname hspoiled ((ofJson?_eq_some_iff h).1 hs).2

/-- A number that no double holds and a string that stands for no text do
not keep the counters from being read, but a fraction in place of one of
them does. -/
theorem read_iff_heldBy_amongOthers :
    ofJson? "\x7b\"x\":[-1e999,\"\\ud800\"], \"eviction_count\":7,
      \"miss_count\":18446744073709551615, \"hit_count\":0\x7d" =
        some ⟨0, 18446744073709551615, 7⟩ ∧
      ofJson?
        "\x7b\"hit_count\":1.5,\"miss_count\":2,\"eviction_count\":3\x7d" =
          none := by
  let x : Text × Value :=
    (some "x", .array [.number ⟨true, ['1'], [], some (false, ['9', '9', '9'])⟩,
      .text none])
  let half : Text × Value :=
    (some "hit_count", .number ⟨false, ['1'], ['5'], none⟩)
  have hfound : Json.Writes
      (.object [x, (some "eviction_count", .number (.ofNat 7)),
        (some "miss_count", .number (.ofNat 18446744073709551615)),
        (some "hit_count", .number (.ofNat 0))])
      "\x7b\"x\":[-1e999,\"\\ud800\"], \"eviction_count\":7,
      \"miss_count\":18446744073709551615, \"hit_count\":0\x7d".toList :=
    Json.read?_eq_some_iff.1 (by cbv)
  have hspoiled : Json.Writes
      (.object [half, (some "miss_count", .number (.ofNat 2)),
        (some "eviction_count", .number (.ofNat 3))])
      "\x7b\"hit_count\":1.5,\"miss_count\":2,\"eviction_count\":3\x7d".toList :=
    Json.read?_eq_some_iff.1 (by cbv)
  constructor
  · refine ((read_iff_heldBy.2 _ _ hfound).1 _).2 ⟨by simp [x], [x], ?_, ?_⟩
    · simp [x, fieldNames]
    · exact List.reverse_perm (members ⟨0, 18446744073709551615, 7⟩ ++ [x])
  · exact (read_iff_heldBy.2 _ _ hspoiled).2 "hit_count" (by decide)
      (.fractional List.mem_cons_self (Or.inr (by decide)))

/-- One further member keeps an object from giving counters if its name is half
of a surrogate pair, since no text is such a name. -/
theorem namelessMember_refused :
    Json.Writes (.object (members ⟨1, 2, 3⟩ ++ [(none, .number (.ofNat 1))]))
        "\x7b\"hit_count\":1,\"miss_count\":2,\"eviction_count\":3,\"\\ud800\":1\x7d".toList ∧
      HeldBy ⟨1, 2, 3⟩ (members ⟨1, 2, 3⟩ ++ [(none, .number (.ofNat 1))]) ∧
      ofJson?
        "\x7b\"hit_count\":1,\"miss_count\":2,\"eviction_count\":3,\"\\ud800\":1\x7d" =
        none := by
  refine ⟨Json.read?_eq_some_iff.1 (by cbv),
    ⟨[(none, .number (.ofNat 1))], ?_, ?_⟩, by decide +kernel⟩
  · simp
  · exact List.Perm.refl _

end CacheStats

end FileDigest
