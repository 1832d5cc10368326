import FileDigest.Proofs.Settings.Names
import Mathlib.Data.List.Basic

/-!
# Places in a tree of settings

A path leads to a place in a tree (`Setting.HasPlace`) if each of its items is
one that the array in front of it can have: not before the first one, and not
beyond all memory. Everything else on the way is made or replaced, so a value
can be put wherever there is a place (`Setting.isSome_assign_iff`), and several
values can be put unless one of them has no place in the tree that those before
it have made (`Setting.assignAll_eq_none_iff`).

A name without a bracket leads down tables, and so to a place in any tree. This
remains so when the names at the root are read once more, because no lower-case
letter is a bracket (`Setting.exists_settle_of_unbracketed`).
-/

namespace FileDigest

namespace Text

theorem toLower_ne_bracket {c : Char} (h : c ≠ '[') : c.toLower ≠ '[' := by
  unfold Char.toLower
  split
  · intro heq
    have hval := congrArg Char.val heq
    grind
  · exact h

theorem lowerChar_ne_bracket {c : Char} (h : c ≠ '[') : lowerChar c ≠ '[' := by
  unfold lowerChar
  split
  · exact toLower_ne_bracket h
  · split
    · rename_i first last step distance hfind
      have hruns : ∀ run ∈ capitalRuns, (91 : Int) < run.1 + run.2.2.2 := by
        decide +kernel
      have hrun : (91 : Int) < first + distance :=
        hruns _ (List.mem_of_find?_eq_some hfind)
      have hwithin := List.find?_some hfind
      simp only [Bool.and_eq_true, decide_eq_true_eq] at hwithin
      generalize hn : (Int.ofNat c.toNat + distance).toNat = n
      rw [Int.ofNat_eq_natCast] at hn
      intro heq
      by_cases hvalid : n.isValidChar
      · have hnat : n = 91 := by
          rw [Char.ofNat, dif_pos hvalid] at heq
          exact congrArg Char.toNat heq
        omega
      · rw [Char.ofNat, dif_neg hvalid] at heq
        exact absurd heq (by decide)
    · exact h

theorem bracket_notMem_lowerFrom {cs : List Char} (before : List Char)
    (h : '[' ∉ cs) : '[' ∉ lowerFrom before cs := by
  induction cs generalizing before with
  | nil => exact h
  | cons c cs ih =>
      rw [List.mem_cons, not_or] at h
      have hhere : '[' ∉ if c = 'Σ' then
          if meetsCased before && !meetsCased cs then ['ς'] else ['σ']
        else if c = 'İ' then ['i', '\u0307'] else [lowerChar c] := by
        split
        · split <;> decide
        · split
          · decide
          · rw [List.mem_singleton]
            exact (lowerChar_ne_bracket (Ne.symm h.1)).symm
      rw [lowerFrom, List.mem_append, not_or]
      exact ⟨hhere, ih (c :: before) h.2⟩

end Text

def Unbracketed (name : String) : Prop :=
  '[' ∉ name.toList

instance : DecidablePred Unbracketed := fun name =>
  inferInstanceAs (Decidable ('[' ∉ name.toList))

theorem Unbracketed.lower {name : String} (h : Unbracketed name) :
    Unbracketed (Text.lower name) := by
  rw [Unbracketed, Text.lower, String.toList_ofList]
  exact Text.bracket_notMem_lowerFrom [] h

namespace Variable

theorem bracket_notMem_dotted {cs : List Char} (h : '[' ∉ cs) :
    '[' ∉ dotted cs := by
  induction cs using dotted.induct with
  | case1 rest ih =>
      rw [dotted, List.mem_cons, not_or]
      exact ⟨by decide, ih fun hmem => h (by simp [hmem])⟩
  | case2 c rest hne ih =>
      rw [dotted, List.mem_cons, not_or]
      · rw [List.mem_cons, not_or] at h
        exact ⟨h.1, ih h.2⟩
      · exact hne
  | case3 => exact h

theorem unbracketed_settingName? {name key : String} (h : Unbracketed name)
    (hkey : settingName? name = some key) :
    Unbracketed key := by
  obtain ⟨rest, hrest, rfl⟩ := Option.map_eq_some_iff.1 hkey
  rw [Unbracketed, String.toList_ofList]
  apply bracket_notMem_dotted
  intro hmem
  rw [List.isPrefixOf?_eq_some_iff_append_eq] at hrest
  apply h.lower
  rw [← hrest]
  exact List.mem_append_right mark hmem

end Variable

namespace SettingPath

theorem unbracketed_of_readName {cs rest : List Char} {name : String}
    (h : readName cs = some (name, rest)) (hcs : '[' ∉ cs) :
    Unbracketed name ∧ '[' ∉ rest := by
  simp only [readName] at h
  split at h
  · cases h
  · cases h
    rw [Unbracketed, String.toList_ofList]
    exact ⟨fun hmem => hcs ((List.takeWhile_sublist isNameChar).mem hmem),
      fun hmem => hcs ((List.dropWhile_sublist isNameChar).mem hmem)⟩

theorem eq_children_of_readSteps {bound : Nat} {cs : List Char}
    {steps : List PathStep} (h : readSteps bound cs = some steps)
    (hcs : '[' ∉ cs) : ∃ names : List String, steps = names.map .child := by
  fun_induction readSteps bound cs generalizing steps with
  | case1 =>
      cases h
      exact ⟨[], rfl⟩
  | case2 => cases h
  | case3 bound rest name rest' hname ih =>
      obtain ⟨steps', hsteps', rfl⟩ := Option.map_eq_some_iff.1 h
      have hrest : '[' ∉ rest := fun hmem => hcs (List.mem_cons_of_mem _ hmem)
      obtain ⟨names, rfl⟩ := ih hsteps' (unbracketed_of_readName hname hrest).2
      exact ⟨name :: names, rfl⟩
  | case4 => cases h
  | case5 => exact absurd List.mem_cons_self hcs
  | case6 => cases h
  | case7 => cases h

/-- A name without a bracket leads down tables, from one whose name has none. -/
theorem exists_parse_eq_ofSteps {name : String} (h : Unbracketed name) :
    ∃ (first : String) (rest : List String),
      parse name = ofSteps first (rest.map .child) ∧ Unbracketed first := by
  unfold parse
  cases hparse : parse? name with
  | none => exact ⟨name, [], rfl, h⟩
  | some path =>
      simp only [parse?] at hparse
      split at hparse
      · rename_i first cs hread
        obtain ⟨hfirst, hcs⟩ := unbracketed_of_readName hread h
        obtain ⟨steps, hsteps, rfl⟩ := Option.map_eq_some_iff.1 hparse
        obtain ⟨names, rfl⟩ := eq_children_of_readSteps hsteps hcs
        exact ⟨first, names, rfl, hfirst⟩
      · cases hparse

end SettingPath

namespace Setting

/-- A way leads to a place in a tree. -/
def HasPlace : List PathStep → Setting → Prop
  | [], _ => True
  | .child name :: rest, v =>
      HasPlace rest ((v.under? (Text.lower name)).getD nothing)
  | .item index :: rest, v =>
      -(v.items.length : Int) ≤ index ∧ index < itemLimit ∧
        HasPlace rest
          ((v.items[(if 0 ≤ index then index
            else index + v.items.length).toNat]?).getD nothing)

theorem position?_eq_some_iff {index : Int} {length position : Nat} :
    position? index length = some position ↔
      -(length : Int) ≤ index ∧ index < itemLimit ∧
        position = (if 0 ≤ index then index else index + length).toNat := by
  unfold position?
  have hlimit : (0 : Int) < itemLimit := by decide
  generalize (itemLimit : Int) = limit at hlimit
  split
  · simp only [reduceCtorEq, false_iff]
    omega
  · split
    · rw [Option.some.injEq]
      omega
    · split
      · rw [Option.some.injEq]
        omega
      · simp only [reduceCtorEq, false_iff]
        omega

theorem isSome_position?_iff {index : Int} {length : Nat} :
    (position? index length).isSome ↔ -(length : Int) ≤ index ∧
    index < itemLimit := by
  simp only [Option.isSome_iff_exists, position?_eq_some_iff, exists_and_left,
    exists_eq, and_true]

/-- What a way leads to can be changed if the way leads to a place, and the
change succeeds there. -/
theorem isSome_assign_iff (root : Setting) (path : SettingPath) (w : Setting) :
    (root.assign path w).isSome ↔ HasPlace (path.way ++ [path.last]) root := by
  obtain ⟨way, last⟩ := path
  unfold assign
  dsimp only
  induction way generalizing root with
  | nil =>
      cases last with
      | child name => exact iff_of_true rfl trivial
      | item index =>
          rw [alterAt, assignStep, Option.isSome_map, isSome_position?_iff]
          simp only [List.nil_append, HasPlace, and_true]
  | cons step way ih =>
      cases step with
      | child name =>
          rw [alterAt, alterStep, Option.isSome_map]
          exact ih _
      | item index =>
          rw [alterAt, alterStep, List.cons_append, HasPlace, ← ih]
          cases hposition : position? index root.items.length with
          | none =>
              have hnot := mt isSome_position?_iff.2 (by rw [hposition]; decide)
              exact iff_of_false (by simp) fun hand => hnot ⟨hand.1, hand.2.1⟩
          | some position =>
              obtain ⟨hlow, hhigh, rfl⟩ := position?_eq_some_iff.1 hposition
              simp only [Option.isSome_map, hlow, hhigh, true_and]

/-- The settings cannot all be put into a tree: one of them has no place in what
those before it have made of the tree. -/
def Misplaced (root : Setting) (settings : List (String × Setting)) : Prop :=
  ∃ before name w after mid, settings = before ++ (name, w) :: after ∧
    root.assignAll before = some mid ∧
    ¬mid.HasPlace
      ((SettingPath.parse name).way ++ [(SettingPath.parse name).last])

theorem assignAll_eq_none_iff (root : Setting)
    (settings : List (String × Setting)) :
    root.assignAll settings = none ↔ root.Misplaced settings := by
  induction settings generalizing root with
  | nil =>
      exact iff_of_false nofun fun ⟨before, name, w, after, mid, h, _⟩ => by
        cases before <;> cases h
  | cons e settings ih =>
      obtain ⟨name, w⟩ := e
      have hplace := root.isSome_assign_iff (SettingPath.parse name) w
      rw [assignAll]
      cases hassign : root.assign (SettingPath.parse name) w with
      | none =>
          rw [hassign] at hplace
          refine iff_of_true rfl ⟨[], name, w, settings, root, rfl,
            rfl, fun h => ?_⟩
          cases hplace.2 h
      | some root' =>
          dsimp only
          rw [ih]
          constructor
          · rintro ⟨before, name', w', after, mid, rfl, hbefore, hnone⟩
            refine ⟨(name, w) :: before, name', w', after, mid, rfl, ?_, hnone⟩
            rw [assignAll, hassign]
            exact hbefore
          · rintro ⟨before, name', w', after, mid, hsettings, hbefore, hnone⟩
            cases before with
            | nil =>
                cases hsettings
                cases hbefore
                rw [hassign] at hplace
                exact absurd (hplace.1 rfl) hnone
            | cons e before =>
                cases hsettings
                rw [assignAll, hassign] at hbefore
                exact ⟨before, name', w', after, mid, rfl, hbefore, hnone⟩

def UnbracketedRoot (root : Setting) : Prop :=
  ∀ e ∈ root.entries, Unbracketed e.1

theorem unbracketedRoot_emptyTable : emptyTable.UnbracketedRoot := nofun

variable {root : Setting} {settings : List (String × Setting)}

theorem UnbracketedRoot.put (h : root.UnbracketedRoot) {key : String}
    (hkey : Unbracketed key) (v : Setting) :
    (root.put key v).UnbracketedRoot := by
  intro e he
  cases root with
  | table origin entries =>
      rcases mem_putEntry he with rfl | he
      · exact hkey
      · exact h e he
  | scalar origin s => exact List.mem_singleton.1 he ▸ hkey
  | array origin items => exact List.mem_singleton.1 he ▸ hkey

theorem UnbracketedRoot.merge (h : root.UnbracketedRoot) {key : String}
    (hkey : Unbracketed key) (v : Setting) :
    (root.merge key v).UnbracketedRoot := by
  cases v <;> exact h.put hkey.lower _

theorem exists_assignAll_of_unbracketed (hroot : root.UnbracketedRoot)
    (h : ∀ e ∈ settings, Unbracketed e.1) :
    ∃ tree, root.assignAll settings = some tree ∧ tree.UnbracketedRoot := by
  induction settings generalizing root with
  | nil => exact ⟨root, rfl, hroot⟩
  | cons e settings ih =>
      obtain ⟨he, hsettings⟩ := List.forall_mem_cons.1 h
      obtain ⟨first, rest, hparse, hfirst⟩ :=
        SettingPath.exists_parse_eq_ofSteps he
      rw [assignAll, hparse, assign_ofSteps]
      exact ih (hroot.merge hfirst _) hsettings

theorem exists_settle_of_unbracketed (hroot : root.UnbracketedRoot) :
    ∃ tree, root.settle = some tree := by
  obtain ⟨tree, htree, -⟩ :=
    exists_assignAll_of_unbracketed unbracketedRoot_emptyTable hroot
  exact ⟨tree, htree⟩

end Setting

end FileDigest
