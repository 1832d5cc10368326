import FileDigest.Logging.Filter
import Mathlib.Data.List.Induction
import Mathlib.Data.List.Infix

/-!
# Which directive decides

When names are given levels one after the other, a filter keeps for each name
the level that it was given last (`LogFilter.mem_withNames_iff`). An event is
then decided by the longest name that its target begins with, or by the level of
the filter itself where there is none: `Decides` says so without filters, and
`LogFilter.exists_decides` that filters do so.
-/

namespace FileDigest

/-- The longest name with a level that a target begins with. -/
structure LongestName (given : List Char → Option LogLevel)
    (target name : List Char) (level : LogLevel) : Prop where
  begins : name <+: target
  leveled : given name = some level
  longest : ∀ other level', other <+: target → given other = some level' →
    other.length ≤ name.length

/-- The level up to which events of a target are logged: that of the longest
name with a level that the target begins with, or else a level for all. -/
inductive Decides (given : List Char → Option LogLevel) (base : LogLevel)
    (target : List Char) : LogLevel → Prop
  | name {name : List Char} {level : LogLevel}
      (h : LongestName given target name level) :
      Decides given base target level
  | base (h : ∀ name, name <+: target → given name = none) :
      Decides given base target base

section

variable {given : List Char → Option LogLevel} {base : LogLevel}
  {target name name' : List Char} {level level' : LogLevel}

theorem LongestName.unique (h : LongestName given target name level)
    (h' : LongestName given target name' level') :
    level = level' := by
  have hle := h'.longest name level h.begins h.leveled
  have hname : name = name' :=
    (List.prefix_of_prefix_length_le h.begins h'.begins hle).eq_of_length_le
      (h.longest name' level' h'.begins h'.leveled)
  have hgiven := h'.leveled
  rw [← hname, h.leveled] at hgiven
  exact Option.some.inj hgiven

instance : Decidable (LongestName given target name level) :=
  decidable_of_iff (name <+: target ∧ given name = some level ∧
      ∀ other ∈ target.inits, (given other).isSome →
      other.length ≤ name.length) <| by
    constructor
    · rintro ⟨hbegins, hleveled, hlongest⟩
      refine ⟨hbegins, hleveled, fun other level' hother hlevel' => ?_⟩
      exact hlongest other ((List.mem_inits _ _).2 hother) (by simp [hlevel'])
    · intro h
      refine ⟨h.begins, h.leveled, fun other hother hsome => ?_⟩
      obtain ⟨level', hlevel'⟩ := Option.isSome_iff_exists.1 hsome
      exact h.longest other level' ((List.mem_inits _ _).1 hother) hlevel'

theorem Decides.unique (h : Decides given base target level)
    (h' : Decides given base target level') : level = level' := by
  cases h with
  | name h =>
      cases h' with
      | name h' => exact h.unique h'
      | base h' => exact absurd h.leveled (by simp [h' _ h.begins])
  | base h =>
      cases h' with
      | name h' => exact absurd h'.leveled (by simp [h _ h'.begins])
      | base h' => rfl

end

namespace LogFilter

/-- No directive has a longer target than the one that goes before all
others. -/
theorem weight_le_of_foremost {ds : List EventDirective} {d : EventDirective}
    (h : foremost ds = some d) : ∀ e ∈ ds, e.weight ≤ d.weight := by
  induction ds generalizing d with
  | nil => cases h
  | cons c ds ih =>
      rw [foremost] at h
      rw [List.forall_mem_cons]
      cases hrest : foremost ds with
      | none =>
          have hds : ds = [] := by
            cases ds with
            | nil => rfl
            | cons e es =>
                rw [foremost] at hrest
                split at hrest
                · cases hrest
                · split at hrest <;> cases hrest
          simp only [hrest, Option.some.injEq] at h
          simp [hds, h]
      | some e =>
          simp only [hrest] at h
          have he := ih hrest
          cases hprecedes : c.precedes e with
          | true =>
              have hle := EventDirective.weight_le_of_precedes hprecedes
              simp only [hprecedes, if_true, Option.some.injEq] at h
              cases h
              exact ⟨Nat.le_refl _, fun e' he' => Nat.le_trans (he e' he') hle⟩
          | false =>
              have hle := EventDirective.weight_le_of_not_precedes hprecedes
              simp only [hprecedes, Bool.false_eq_true, if_false,
                Option.some.injEq] at h
              cases h
              exact ⟨hle, he⟩

theorem exists_foremost {ds : List EventDirective} (h : ds ≠ []) :
    ∃ d, foremost ds = some d := by
  cases ds with
  | nil => exact absurd rfl h
  | cons d ds =>
      rw [foremost]
      split
      · exact ⟨d, rfl⟩
      · split
        · exact ⟨_, rfl⟩
        · exact ⟨_, rfl⟩

def named (n : List Char × LogLevel) : Directive :=
  .plain (some (String.ofList n.1)) n.2

/-- The filter that logs up to a level, with names that are given levels one
after the other. -/
def withNames (base : LogLevel) (names : List (List Char × LogLevel)) :
    LogFilter :=
  (names.map named).foldl add (upTo base)

variable {base level : LogLevel} {names : List (List Char × LogLevel)}

theorem withNames_concat (base : LogLevel) (names : List (List Char × LogLevel))
    (n : List Char × LogLevel) :
    withNames base (names ++ [n]) = (withNames base names).add (named n) := by
  simp [withNames]

theorem fields_withNames :
    ∀ d ∈ (withNames base names).directives, d.fields = [] := by
  induction names using List.reverseRecOn with
  | nil => simp [withNames, upTo, empty, insert]
  | append_singleton names n ih =>
      intro d hd
      rw [withNames_concat, named, add_plain, mem_directives_insert] at hd
      rcases hd with rfl | ⟨hd, -⟩
      · rfl
      · exact ih d hd

/-- The level that a name was given last is the one that is kept for it. -/
theorem mem_withNames_iff {name : List Char} :
    ⟨some (String.ofList name), [], level⟩ ∈ (withNames base names).directives ↔
      names.reverse.lookup name = some level := by
  induction names using List.reverseRecOn with
  | nil => simp [withNames, upTo, empty, insert]
  | append_singleton names n ih =>
      rw [withNames_concat, named, add_plain, mem_directives_insert, ih,
        List.reverse_concat, List.lookup_cons]
      obtain ⟨name', level'⟩ := n
      by_cases hname : name = name'
      · simp [hname, eq_comm]
      · have hbeq : (name == name') = false := beq_eq_false_iff_ne.2 hname
        have hne : String.ofList name ≠ String.ofList name' :=
          fun h => hname (String.ofList_inj.1 h)
        simp [hne, hbeq]

theorem mem_withNames_none_iff :
    ⟨none, [], level⟩ ∈ (withNames base names).directives ↔ level = base := by
  induction names using List.reverseRecOn with
  | nil => simp [withNames, upTo, empty, insert]
  | append_singleton names n ih =>
      rw [withNames_concat, named, add_plain, mem_directives_insert, ih]
      simp

section Decisive

variable {target : String} {fields : List String} {d : EventDirective}

theorem exists_decisive (base : LogLevel) (names : List (List Char × LogLevel))
    (target : String) (fields : List String) :
    ∃ d, (withNames base names).decisive? target fields = some d := by
  have hbase : ⟨none, [], base⟩ ∈
      (withNames base names).directives.filter (·.covers target fields) :=
    List.mem_filter.2 ⟨mem_withNames_none_iff.2 rfl, rfl⟩
  exact exists_foremost (List.ne_nil_of_mem hbase)

/-- A name that the target begins with has a directive of its own, which is no
heavier than the decisive one. -/
theorem length_lt_weight
    (h : (withNames base names).decisive? target fields = some d)
    {name : List Char} (hbegins : name <+: target.toList)
    (hlevel : names.reverse.lookup name = some level) :
    name.length < d.weight := by
  let e : EventDirective := ⟨some (String.ofList name), [], level⟩
  have hcovers : e.covers target fields = true := by
    simpa [e, EventDirective.covers] using hbegins
  have hle := weight_le_of_foremost h e
    (List.mem_filter.2 ⟨mem_withNames_iff.2 hlevel, hcovers⟩)
  have hweight : e.weight = name.length + 1 := by
    simp [e, EventDirective.weight]
  rw [hweight] at hle
  exact hle

theorem decides_of_decisive
    (h : (withNames base names).decisive? target fields = some d) :
    Decides (names.reverse.lookup ·) base target.toList d.level := by
  obtain ⟨hmem, hcovers⟩ := List.mem_filter.1 (mem_of_foremost h)
  have hfields := fields_withNames d hmem
  obtain ⟨t, fields', level⟩ := d
  cases hfields
  cases t with
  | none =>
      rw [mem_withNames_none_iff.1 hmem]
      refine .base fun name hbegins => ?_
      rw [Option.eq_none_iff_forall_ne_some]
      intro level' hlevel'
      exact Nat.not_lt_zero _ (length_lt_weight h hbegins hlevel')
  | some t =>
      have hgiven : names.reverse.lookup t.toList = some level := by
        rw [← mem_withNames_iff, String.ofList_toList]
        exact hmem
      have hbegins : t.toList <+: target.toList := by
        simpa [EventDirective.covers] using hcovers
      refine .name ⟨hbegins, hgiven, fun other level' hother hlevel' => ?_⟩
      have hlt := length_lt_weight h hother hlevel'
      rw [EventDirective.weight] at hlt
      rw [String.length_toList]
      exact Nat.le_of_lt_succ hlt

end Decisive

/-- What is logged of a target is decided by the longest name that it begins
with, whatever the fields of the event. -/
theorem exists_decides (base : LogLevel) (names : List (List Char × LogLevel))
    (target : String) :
    ∃ level, Decides (names.reverse.lookup ·) base target.toList level ∧
      ∀ fields event,
        (withNames base names).allows target fields event =
          level.allows event := by
  obtain ⟨d, hd⟩ := exists_decisive base names target []
  have hdecides := decides_of_decisive hd
  refine ⟨d.level, hdecides, fun fields event => ?_⟩
  obtain ⟨d', hd'⟩ := exists_decisive base names target fields
  rw [hdecides.unique (decides_of_decisive hd')]
  simp only [allows, hd']

end LogFilter

end FileDigest
