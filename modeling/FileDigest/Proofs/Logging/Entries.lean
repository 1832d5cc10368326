import FileDigest.Logging.Setup
import FileDigest.Proofs.Logging.Decision
import FileDigest.Proofs.Logging.Names
import FileDigest.Proofs.Lists
import Mathlib.Data.List.Basic

/-!
# Entries of modules

An entry is a name with the text of its level. Entries that can be read give
their names levels, of which a later one takes the place of an earlier one
(`LogFilter.addModules_withNames`, `LogFilter.lookup_reverse_leveled`). In a
variable they stand between commas, with blanks around their parts; what has not
just one equals sign is no entry (`LogFilter.modulesOf_eq`).
-/

namespace FileDigest

section

variable {α : Type} [DecidableEq α]

theorem length_piecesBetween (separator : α) (xs : List α) :
    (piecesBetween separator xs).length = xs.count separator + 1 := by
  induction xs with
  | nil => rfl
  | cons x xs ih =>
      rw [piecesBetween, List.count_cons]
      by_cases hx : x = separator
      · simp [hx, ih]
      · rw [if_neg hx, if_neg (mt beq_iff_eq.1 hx), Nat.add_zero, ← ih]
        cases h : piecesBetween separator xs with
        | nil => exact absurd h (piecesBetween_ne_nil separator xs)
        | cons p ps => rfl

theorem piecesBetween_of_count_eq_one {separator : α} {xs : List α}
    (h : xs.count separator = 1) :
    piecesBetween separator xs =
      [xs.takeWhile (· ≠ separator), (xs.dropWhile (· ≠ separator)).tail] := by
  induction xs with
  | nil => cases h
  | cons x xs ih =>
      by_cases hx : x = separator
      · subst hx
        have hnot : x ∉ xs := by
          rw [List.count_cons_self, Nat.succ_inj, List.count_eq_zero] at h
          exact h
        simp [piecesBetween_separator_cons, piecesBetween_eq_singleton hnot]
      · rw [List.count_cons_of_ne hx] at h
        simp [piecesBetween, hx, ih h]

end

namespace LogFilter

open Directive

variable {patterns : ValuePatterns} {base level : LogLevel} {cs : List Char}

theorem pieces_word (h : LogLevel.ofWord? cs = some level) :
    pieces cs = [cs] := by
  have hcomma : ',' ∉ cs := by
    intro hc
    exact absurd (LogLevel.isAlphanum_of_ofWord? h _ hc) (by decide)
  rw [pieces, piecesBetween_eq_singleton hcomma]
  have hne := ne_nil_of_ofWord? h
  simp [hne]

/-- A word for a level is read as the filter that logs up to it. -/
theorem readLeniently_word (h : LogLevel.ofWord? cs = some level) :
    readLeniently patterns (pieces cs) = ⟨[.plain none level], [], false⟩ := by
  rw [pieces_word h]
  simp only [readLeniently, read_word h]

/-- The names of entries, with the levels that are read from their texts. -/
def leveled (entries : List (List Char × List Char)) :
    List (List Char × LogLevel) :=
  entries.filterMap fun (name, text) => (level? text).map fun level =>
    (name, level)

theorem leveled_cons {e : List Char × List Char} (h : level? e.2 = some level)
    (entries : List (List Char × List Char)) :
    leveled (e :: entries) = (e.1, level) :: leveled entries := by
  simp [leveled, h]

theorem leveled_append (entries entries' : List (List Char × List Char)) :
    leveled (entries ++ entries') = leveled entries ++ leveled entries' :=
  List.filterMap_append

/-- An entry has the name of a module and the text of a level. -/
def IsEntry (e : List Char × List Char) : Prop :=
  IsName e.1 ∧ (level? e.2).isSome

theorem addModules_withNames (patterns : ValuePatterns) (fromEnvironment : Bool)
    (base : LogLevel) {entries : List (List Char × List Char)}
    (h : ∀ e ∈ entries, IsEntry e) (names : List (List Char × LogLevel)) :
    addModules patterns fromEnvironment (withNames base names) entries =
      .ok (withNames base (names ++ leveled entries)) := by
  induction entries generalizing names with
  | nil => simp [addModules, leveled]
  | cons e entries ih =>
      obtain ⟨name, text⟩ := e
      obtain ⟨⟨hname, hlevel⟩, hrest⟩ := List.forall_mem_cons.1 h
      obtain ⟨level, hlevel⟩ := Option.isSome_iff_exists.1 hlevel
      have hadd : addModule patterns fromEnvironment
          (withNames base names) name text =
          .ok (withNames base (names ++ [(name, level)])) := by
        simp only [addModule, read_nameLevel hname hlevel,
          withNames_concat, named]
      simp only [addModules, hadd]
      rw [ih hrest, leveled_cons hlevel, List.append_assoc,
        List.singleton_append]

def settingsEntries (modules : List (String × String)) :
    List (List Char × List Char) :=
  modules.map fun (name, level) => (name.toList, level.toList)

def variableEntries (variableText : Option String) :
    List (List Char × List Char) :=
  match variableText with
  | some text => modulesOf text.toList
  | none => []

/-- What stands in front of the first equals sign of a piece, without the blanks
around it. -/
def pieceName (p : List Char) : List Char :=
  Text.trim (p.takeWhile (· ≠ '='))

def pieceLevel (p : List Char) : List Char :=
  Text.trim (p.dropWhile (· ≠ '=')).tail

/-- The entries of a variable are its pieces with just one equals sign. -/
theorem modulesOf_eq (text : List Char) :
    modulesOf text = ((piecesBetween ',' text).filter fun p => p.count '=' =
      1).map fun p =>
      (pieceName p, pieceLevel p) := by
  rw [modulesOf, ← List.filterMap_eq_map, ← List.filterMap_eq_filter,
    List.filterMap_filterMap]
  refine List.filterMap_congr fun p _ => ?_
  by_cases h : p.count '=' = 1
  · simp [piecesBetween_of_count_eq_one h, h, pieceName, pieceLevel]
  · have hlength := length_piecesBetween '=' p
    split
    · rename_i hpieces
      rw [hpieces] at hlength
      exact absurd (Nat.succ_inj.1 hlength).symm h
    · simp [Option.guard, h]

theorem names_leveled {entries : List (List Char × List Char)}
    (h : ∀ e ∈ entries, (level? e.2).isSome) :
    (leveled entries).map Prod.fst = entries.map Prod.fst := by
  induction entries with
  | nil => rfl
  | cons e entries ih =>
      obtain ⟨hlevel, hrest⟩ := List.forall_mem_cons.1 h
      obtain ⟨level, hlevel⟩ := Option.isSome_iff_exists.1 hlevel
      rw [leveled_cons hlevel, List.map_cons, List.map_cons, ih hrest]

/-- A name has the level of the last of its entries. -/
theorem lookup_reverse_leveled {entries : List (List Char × List Char)}
    (h : ∀ e ∈ entries, (level? e.2).isSome) (name : List Char) :
    (leveled entries).reverse.lookup name =
      (entries.filter fun e => e.1 = name).getLast?.bind fun e =>
        level? e.2 := by
  induction entries using List.reverseRecOn with
  | nil => rfl
  | append_singleton entries e ih =>
      obtain ⟨hrest, hlevel⟩ := List.forall_mem_append.1 h
      obtain ⟨level, hlevel⟩ :=
        Option.isSome_iff_exists.1 (hlevel e List.mem_cons_self)
      have hleveled : leveled (entries ++ [e]) = leveled entries ++
          [(e.1, level)] := by
        rw [leveled_append, leveled_cons hlevel]
        rfl
      rw [hleveled, List.reverse_concat, List.lookup_cons, List.filter_append,
        List.getLast?_append]
      by_cases hname : name = e.1
      · simp [hname, hlevel]
      · have hbeq : (name == e.1) = false := beq_eq_false_iff_ne.2 hname
        rw [hbeq, ih hrest]
        simp [Ne.symm hname]

end LogFilter

end FileDigest
