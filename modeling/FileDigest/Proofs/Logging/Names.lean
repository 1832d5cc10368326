import FileDigest.Logging.Directive
import Mathlib.Data.List.Basic

/-!
# Names of modules and texts of levels

A name of a module is made of letters and digits of ASCII, underscores, colons
and hyphens. Such a name with an equals sign and the text of a level behind it
is read as the directive for that name (`Directive.read_nameLevel`), and a word
for a level alone as the directive for all targets (`Directive.read_word`).
Neither has a blank or a comma in it, so that nothing is cut at a wrong place.
-/

namespace FileDigest

namespace Text

theorem forall_ascii {p : Char → Prop} (h : ∀ n < 128, p (Char.ofNat n))
    {c : Char} (hc : c.toNat < 128) : p c := by
  have hp := h c.toNat hc
  rwa [Char.ofNat_toNat] at hp

theorem trimStart_eq_self {cs : List Char} (h : ∀ c ∈ cs, isBlank c = false) :
    trimStart cs = cs := by
  cases cs with
  | nil => rfl
  | cons c cs => exact trimStart_cons_of_not_isBlank (h c List.mem_cons_self) cs

theorem trim_eq_self {cs : List Char} (h : ∀ c ∈ cs, isBlank c = false) :
    trim cs = cs := by
  have hreverse : trimStart cs.reverse = cs.reverse :=
    trimStart_eq_self fun c hc => h c (List.mem_reverse.1 hc)
  rw [trimStart] at hreverse
  rw [trim, trimStart_eq_self h, trimEnd, hreverse, List.reverse_reverse]

theorem isAlphanum_iff {c : Char} :
    c.isAlphanum = true ↔ (c.isUpper = true ∨ c.isLower = true) ∨
    c.isDigit = true :=
  Bool.or_eq_true_iff.trans (or_congr_left Bool.or_eq_true_iff)

theorem lt_of_isAlphanum {c : Char} (h : c.isAlphanum = true) :
    c.toNat < 128 := by
  have hlast : c.toNat ≤ 122 := by
    rcases isAlphanum_iff.1 h with (hupper | hlower) | hdigit
    · exact Nat.le_trans (of_decide_eq_true hupper).2 (by decide)
    · exact of_decide_eq_true (Bool.and_eq_true_iff.1 hlower).2
    · exact Nat.le_trans (of_decide_eq_true (Bool.and_eq_true_iff.1 hdigit).2)
        (by decide)
  omega

end Text

namespace LogLevel

def isTextChar (c : Char) : Bool :=
  c.isAlphanum || c = '+'

theorem toLower_of_not_isUpper {c : Char} (h : c.isUpper = false) :
    c.toLower = c :=
  dif_neg (of_decide_eq_false h)

theorem isAlphanum_of_toLower {c : Char} (h : c.toLower.isAlphanum = true) :
    c.isAlphanum = true := by
  cases hupper : c.isUpper with
  | true => exact Text.isAlphanum_iff.2 (Or.inl (Or.inl hupper))
  | false => rwa [toLower_of_not_isUpper hupper] at h

theorem of_isDigit {c : Char} (h : Decimal.isDigit c = true) :
    c.isAlphanum = true ∧ c.isUpper = false ∧ c.isLower = false := by
  have hdigit : c.isDigit = true := h
  have halphanum : c.isAlphanum = true := Text.isAlphanum_iff.2 (Or.inr hdigit)
  exact Text.forall_ascii
    (p := fun c => Decimal.isDigit c = true →
      c.isAlphanum = true ∧ c.isUpper = false ∧ c.isLower = false)
    (by decide +kernel) (Text.lt_of_isAlphanum halphanum) h

variable {cs : List Char} {level : LogLevel}

theorem map_toLower_of_ofWord? (h : ofWord? cs = some level) :
    cs.map Char.toLower = level.word.toList := by
  have hfind := List.find?_some h
  exact beq_iff_eq.1 hfind

theorem isLower_word (level : LogLevel) : ∀ c ∈ level.word.toList,
    c.isLower = true := by
  have hall : level.word.toList.all Char.isLower = true := by
    cases level <;> decide
  exact List.all_eq_true.1 hall

theorem isAlphanum_of_ofWord? (h : ofWord? cs = some level) : ∀ c ∈ cs,
    c.isAlphanum = true := by
  intro c hc
  have hlower : c.toLower ∈ level.word.toList := by
    rw [← map_toLower_of_ofWord? h]
    exact List.mem_map_of_mem hc
  apply isAlphanum_of_toLower
  exact Text.isAlphanum_iff.2 (Or.inl (Or.inr (isLower_word level _ hlower)))

theorem digits_of_natural? {n : Nat} (h : Decimal.natural? cs = some n) :
    cs ≠ [] ∧ ∀ c ∈ cs, Decimal.isDigit c = true := by
  unfold Decimal.natural? at h
  split at h
  · rename_i hdigits
    simpa using hdigits
  · cases h

theorem digits_of_unsigned? {n : UInt64} (h : Decimal.unsigned? cs = some n) :
    cs ≠ [] ∧ ∀ c ∈ cs, c = '+' ∨ Decimal.isDigit c = true := by
  unfold Decimal.unsigned? at h
  dsimp only at h
  split at h
  · rename_i m hnatural
    split at hnatural
    · refine ⟨List.cons_ne_nil _ _,
        List.forall_mem_cons.2 ⟨Or.inl rfl, fun c hc => ?_⟩⟩
      exact Or.inr ((digits_of_natural? hnatural).2 c hc)
    · obtain ⟨hne, hdigits⟩ := digits_of_natural? hnatural
      exact ⟨hne, fun c hc => Or.inr (hdigits c hc)⟩
  · cases h

/-- The text of a level is made of letters and digits, with a plus in front of a
number at most. -/
theorem isTextChar_of_read? (h : read? cs = some level) : ∀ c ∈ cs,
    isTextChar c = true := by
  intro c hc
  unfold read? at h
  split at h
  · rename_i hnumber
    obtain ⟨n, hn, -⟩ := Option.bind_eq_some_iff.1 hnumber
    rcases (digits_of_unsigned? hn).2 c hc with rfl | hdigit
    · rfl
    · simp [isTextChar, (of_isDigit hdigit).1]
  · simp [isTextChar, isAlphanum_of_ofWord? h c hc]

theorem read?_of_ofWord? (h : ofWord? cs = some level) :
    read? cs = some level := by
  have hnone : Decimal.unsigned? cs = none := by
    rw [Option.eq_none_iff_forall_ne_some]
    intro n hn
    obtain ⟨hne, hdigits⟩ := digits_of_unsigned? hn
    obtain ⟨c, hc⟩ := List.exists_mem_of_ne_nil cs hne
    have hlower : c.toLower ∈ level.word.toList := by
      rw [← map_toLower_of_ofWord? h]
      exact List.mem_map_of_mem hc
    have hletter := isLower_word level _ hlower
    rcases hdigits c hc with rfl | hdigit
    · cases hletter
    · rw [toLower_of_not_isUpper (of_isDigit hdigit).2.1] at hletter
      exact absurd hletter (by simp [(of_isDigit hdigit).2.2])
  rw [read?, hnone]
  exact h

end LogLevel

namespace Directive

def isNameChar (c : Char) : Bool :=
  c.isAlphanum || c = '_' || c = ':' || c = '-'

structure IsName (cs : List Char) : Prop where
  ne_nil : cs ≠ []
  chars : ∀ c ∈ cs, isNameChar c = true

instance (cs : List Char) : Decidable (IsName cs) :=
  decidable_of_iff (cs ≠ [] ∧ cs.all isNameChar = true)
    ⟨fun ⟨h₁, h₂⟩ => ⟨h₁, List.all_eq_true.1 h₂⟩, fun ⟨h₁, h₂⟩ =>
      ⟨h₁, List.all_eq_true.2 h₂⟩⟩

def endsTarget (c : Char) : Bool :=
  c = '=' || c = '[' || c = ','

theorem of_isNameChar {c : Char} (h : isNameChar c = true) :
    isFirst c = true ∧ endsTarget c = false ∧ Text.isBlank c = false := by
  have hlt : c.toNat < 128 := by
    simp only [isNameChar, Bool.or_eq_true, decide_eq_true_eq] at h
    rcases h with ((h | rfl) | rfl) | rfl
    · exact Text.lt_of_isAlphanum h
    all_goals decide
  exact Text.forall_ascii
    (p := fun c => isNameChar c = true →
      isFirst c = true ∧ endsTarget c = false ∧ Text.isBlank c = false)
    (by decide +kernel) hlt h

theorem of_isTextChar {c : Char} (h : LogLevel.isTextChar c = true) :
    endsTarget c = false ∧ Text.isBlank c = false := by
  have hlt : c.toNat < 128 := by
    simp only [LogLevel.isTextChar, Bool.or_eq_true, decide_eq_true_eq] at h
    rcases h with h | rfl
    · exact Text.lt_of_isAlphanum h
    · decide
  exact Text.forall_ascii
    (p := fun c => LogLevel.isTextChar c = true →
      endsTarget c = false ∧ Text.isBlank c = false)
    (by decide +kernel) hlt h

variable {patterns : ValuePatterns} {text name cs : List Char}
  {level : LogLevel}

theorem isTextChar_of_level? (h : level? cs = some level) :
    ∀ c ∈ cs, LogLevel.isTextChar c = true := by
  unfold level? at h
  split at h
  · rename_i hempty
    simp [List.isEmpty_iff.1 hempty]
  · exact LogLevel.isTextChar_of_read? h

theorem part_byteSize {ds rest : List Char} (h : text = cs ++ ds ++ rest) :
    part text (Text.byteSize cs) (Text.byteSize (cs ++ ds)) = .ok ds := by
  simp only [part, h, Text.cut?_byteSize_append]

theorem behind_byteSize {rest : List Char} (h : text = cs ++ rest) :
    behind text (Text.byteSize cs) = .ok rest := by
  rw [behind, h, Text.cut?_byteSize_append]

/-- Characters that leave everything as it is are passed over. -/
theorem run_append_of_step_eq {d : Directive} {stage : Stage}
    (h : ∀ c ∈ cs, ∀ position, step patterns text position c d stage =
      .ok (d, stage))
    (position : Nat) (rest : List Char) :
    run patterns text position (cs ++ rest) d stage =
      run patterns text (position + Text.byteSize cs) rest d stage := by
  induction cs generalizing position with
  | nil => rfl
  | cons c cs ih =>
      obtain ⟨hc, hcs⟩ := List.forall_mem_cons.1 h
      rw [List.cons_append, run, hc]
      change run patterns text (position + c.utf8Size) (cs ++ rest) d stage = _
      rw [ih hcs, Text.byteSize_cons, Nat.add_assoc]

theorem step_levelOrTarget {c : Char} (h : endsTarget c = false)
    (position : Nat) (d : Directive) :
    step patterns text position c d .levelOrTarget =
      .ok (d, .levelOrTarget) := by
  simp only [endsTarget, Bool.or_eq_false_iff, decide_eq_false_iff_not] at h
  simp [step, h]

theorem step_level {c : Char} (h : endsTarget c = false) (position start : Nat)
    (d : Directive) :
    step patterns text position c d (.level start) = .ok (d, .level start) := by
  simp only [endsTarget, Bool.or_eq_false_iff, decide_eq_false_iff_not] at h
  simp [step, h]

theorem run_name (hname : IsName name) (d : Directive) (rest : List Char) :
    run patterns text 0 (name ++ rest) d .start =
      run patterns text (Text.byteSize name) rest d .levelOrTarget := by
  obtain ⟨c, cs, rfl⟩ := List.exists_cons_of_ne_nil hname.ne_nil
  obtain ⟨hc, hcs⟩ := List.forall_mem_cons.1 hname.chars
  have hends := (of_isNameChar hc).2.1
  simp only [endsTarget, Bool.or_eq_false_iff, decide_eq_false_iff_not] at hends
  have hfirst : step patterns text 0 c d .start = .ok (d, .levelOrTarget) := by
    simp [step, hends.1.2, (of_isNameChar hc).1]
  rw [List.cons_append, run, hfirst]
  change run patterns text (0 + c.utf8Size) (cs ++ rest) d .levelOrTarget = _
  rw [run_append_of_step_eq fun c hc position =>
    step_levelOrTarget (of_isNameChar (hcs c hc)).2.1 position d]
  rw [Nat.zero_add, Text.byteSize_cons]

/-- A name, an equals sign and the text of a level are read as the directive for
the name. -/
theorem read_nameLevel (hname : IsName name) (hlevel : level? cs = some level) :
    read patterns (name ++ '=' :: cs) =
      .ok (plain (some (String.ofList name)) level) := by
  have hblank : ∀ c ∈ name ++ '=' :: cs, Text.isBlank c = false := by
    intro c hc
    rcases List.mem_append.1 hc with hc | hc
    · exact (of_isNameChar (hname.chars c hc)).2.2
    · rcases List.mem_cons.1 hc with rfl | hc
      · decide
      · exact (of_isTextChar (isTextChar_of_level? hlevel c hc)).2
  have htarget : part (name ++ '=' :: cs) 0 (Text.byteSize name) = .ok name :=
    part_byteSize (List.append_assoc [] name ('=' :: cs)).symm
  have hsize : Text.byteSize (name ++ ['=']) = Text.byteSize name + 1 := by
    rw [Text.byteSize_append]
    rfl
  have hbehind : behind (name ++ '=' :: cs) (Text.byteSize (name ++ ['='])) =
      .ok cs :=
    behind_byteSize (by simp)
  rw [hsize] at hbehind
  rw [read, Text.trim_eq_self hblank, run_name hname, run]
  simp only [step, if_true, htarget]
  change run patterns _ _ cs (plain (some (String.ofList name)) .trace)
    (.level _) = _
  rw [← List.append_nil cs, run_append_of_step_eq fun c hc position =>
    step_level (of_isTextChar (isTextChar_of_level? hlevel c hc)).1
      position _ _]
  rw [List.append_nil, run, finish, hbehind]
  change withLevel _ cs = _
  rw [withLevel, hlevel]
  rfl

theorem ne_nil_of_ofWord? (h : LogLevel.ofWord? cs = some level) : cs ≠ [] := by
  rintro rfl
  cases h

theorem read_word (h : LogLevel.ofWord? cs = some level) :
    read patterns cs = .ok (plain none level) := by
  have hname : IsName cs := by
    refine ⟨ne_nil_of_ofWord? h, fun c hc => ?_⟩
    simp [isNameChar, LogLevel.isAlphanum_of_ofWord? h c hc]
  have hrun : run patterns cs 0 (cs ++ []) (plain none .trace) .start = _ :=
    run_name hname _ []
  rw [List.append_nil] at hrun
  rw [read, Text.trim_eq_self fun c hc =>
    (of_isNameChar (hname.chars c hc)).2.2, hrun, run, finish, ofWord,
      LogLevel.read?_of_ofWord? h]

end Directive

end FileDigest
