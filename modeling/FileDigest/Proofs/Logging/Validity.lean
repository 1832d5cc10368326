import FileDigest.Proofs.Logging.Entries
import FileDigest.Proofs.Logging.Readings

/-!
# Which calls are valid

What is asked of a filter, a layout and the streams of a log, said without
putting them together: a variable that is well-formed stands for the settings, a
layout or a filter that is not is passed over, and streams that are not are a
fault. `Logger.ofSettings_outcome` says that a logger is made of what is valid,
unless a torn directive stops the program before.
-/

namespace FileDigest

open Directive

namespace LogFilter

def GivesFilter (patterns : ValuePatterns) (variableText : Option String) :
    Prop :=
  ∃ text, variableText = some text ∧ ∀ p ∈ pieces text.toList,
    Readable patterns p

def entriesOf (settings : Option LogSettings) : List (List Char × List Char) :=
  match settings with
  | some s => settingsEntries s.modules
  | none => []

/-- A filter can be made: a variable gives it, or everything is off, or all
modules have levels. -/
inductive Valid (patterns : ValuePatterns) (env : Environment)
    (settings : Option LogSettings) : Prop
  | variable (h : GivesFilter patterns (env.text? "VFS_DIGEST_LOG"))
  | off (h : levelText settings = "off")
  | modules (hsettings : ∀ e ∈ entriesOf settings,
      Readable patterns (entryText e))
      (hvariable : ∀ e ∈ variableEntries (env.text? "VFS_DIGEST_LOG_MODULES"),
        Readable patterns (entryText e))

/-- Making a filter stops the program, at a torn directive that is read. -/
inductive Stops (patterns : ValuePatterns) (env : Environment)
    (settings : Option LogSettings) : Prop
  | variable {text : String} (htext : env.text? "VFS_DIGEST_LOG" = some text)
      (h : StopsIn patterns (pieces text.toList))
  | level (hnone : ¬GivesFilter patterns (env.text? "VFS_DIGEST_LOG"))
      (hoff : levelText settings ≠ "off")
      (h : ∃ p ∈ pieces (levelText settings).toList, Torn patterns p)
  | modules (hnone : ¬GivesFilter patterns (env.text? "VFS_DIGEST_LOG"))
      (hoff : levelText settings ≠ "off")
      (h : StopsIn patterns ((entriesOf settings).map entryText))

variable {patterns : ValuePatterns} {env : Environment}
  {settings : Option LogSettings} {variableText : Option String}

theorem withModules_eq (f : LogFilter) :
    withModules patterns f settings variableText =
      (addModules patterns false f (entriesOf settings)).bind fun f =>
        addModules patterns true f (variableEntries variableText) := by
  unfold withModules
  cases settings with
  | none =>
      dsimp only [entriesOf]
      cases addModules patterns false f [] with
      | error failure => rfl
      | ok f => cases variableText <;> rfl
  | some s =>
      dsimp only [entriesOf, settingsEntries]
      cases addModules patterns false f (s.modules.map fun m =>
        (m.1.toList, m.2.toList)) with
      | error failure => rfl
      | ok f => cases variableText <;> rfl

theorem exists_withModules_iff (f : LogFilter) :
    (∃ f', withModules patterns f settings variableText = .ok f') ↔
      (∀ e ∈ entriesOf settings, Readable patterns (entryText e)) ∧
        ∀ e ∈ variableEntries variableText,
          Readable patterns (entryText e) := by
  rw [← List.forall_mem_map, ← exists_addModules_iff false f, withModules_eq]
  cases addModules patterns false f (entriesOf settings) with
  | error failure => simp [Except.bind]
  | ok f' =>
      rw [← List.forall_mem_map, ← exists_addModules_iff true f']
      simp [Except.bind]

theorem withModules_eq_torn_iff (f : LogFilter) :
    withModules patterns f settings variableText = .error .tornDirective ↔
      StopsIn patterns ((entriesOf settings).map entryText) := by
  rw [← addModules_eq_torn_iff false f, withModules_eq]
  cases addModules patterns false f (entriesOf settings) with
  | error failure => simp [Except.bind]
  | ok f' =>
      refine iff_of_false (fun hvariable => ?_) (by simp)
      obtain ⟨text, hmem, htorn⟩ :=
        ((addModules_eq_torn_iff true f').1 hvariable).exists_torn
      cases variableText with
      | none => cases hmem
      | some variableText => exact not_torn_of_mem_modulesOf text hmem htorn

theorem ofVariable_cases (patterns : ValuePatterns)
    (variableText : Option String) :
    (∃ f, ofVariable patterns variableText = .ok (some f) ∧
      GivesFilter patterns variableText) ∨
    (ofVariable patterns variableText = .error .tornDirective ∧
      ∃ text, variableText = some text ∧
      StopsIn patterns (pieces text.toList)) ∨
    (ofVariable patterns variableText = .ok none ∧
      ¬GivesFilter patterns variableText ∧ ∀ text, variableText = some text →
      ¬StopsIn patterns (pieces text.toList)) := by
  cases variableText with
  | none => exact Or.inr (Or.inr ⟨rfl, by simp [GivesFilter], by simp⟩)
  | some text =>
      have hreadable := exists_readStrictly_iff patterns (pieces text.toList)
      have htorn := readStrictly_eq_torn_iff patterns (pieces text.toList)
      cases hread : readStrictly patterns (pieces text.toList) with
      | ok ds =>
          refine Or.inl ⟨ofDirectives ds, by simp only [ofVariable, hread],
            text, rfl, ?_⟩
          exact hreadable.1 ⟨ds, hread⟩
      | error failure =>
          have hnone : ¬GivesFilter patterns (some text) := by
            rintro ⟨text', ⟨⟩, hall⟩
            obtain ⟨ds, hds⟩ := hreadable.2 hall
            cases hread.symm.trans hds
          cases failure with
          | torn =>
              exact Or.inr (Or.inl ⟨by simp only [ofVariable, hread], text, rfl,
                htorn.1 hread⟩)
          | fault fault =>
              refine Or.inr
                (Or.inr ⟨by simp only [ofVariable, hread], hnone, ?_⟩)
              rintro text' ⟨⟩ hstops
              cases hread.symm.trans (htorn.2 hstops)

theorem not_stops_of_givesFilter
    (h : GivesFilter patterns (env.text? "VFS_DIGEST_LOG")) :
    ¬Stops patterns env settings := by
  rintro (⟨htext, hstops⟩ | ⟨hnone, -, -⟩ | ⟨hnone, -, -⟩)
  · obtain ⟨text, htext', hall⟩ := h
    cases htext.symm.trans htext'
    exact not_stopsIn_of_readable hall hstops
  · exact hnone h
  · exact hnone h

/-- Where no variable gives a filter and the level does not turn everything off,
the level and the modules of the settings decide whether the program stops. -/
theorem stops_iff (hnone : ¬GivesFilter patterns (env.text? "VFS_DIGEST_LOG"))
    (hstops : ∀ text, env.text? "VFS_DIGEST_LOG" = some text →
      ¬StopsIn patterns (pieces text.toList))
    (hoff : levelText settings ≠ "off") :
    Stops patterns env settings ↔
    (∃ p ∈ pieces (levelText settings).toList, Torn patterns p) ∨
      StopsIn patterns ((entriesOf settings).map entryText) := by
  constructor
  · rintro (⟨htext, h⟩ | ⟨-, -, h⟩ | ⟨-, -, h⟩)
    · exact absurd h (hstops _ htext)
    · exact Or.inl h
    · exact Or.inr h
  · rintro (h | h)
    · exact .level hnone hoff h
    · exact .modules hnone hoff h

/-- A filter is made of what is valid, and the program stops at a torn
directive. -/
theorem ofSettings_outcome (patterns : ValuePatterns) (env : Environment)
    (settings : Option LogSettings) :
    ((∃ f, (ofSettings patterns env settings).1 = .ok f) ↔
      Valid patterns env settings ∧ ¬Stops patterns env settings) ∧
    ((ofSettings patterns env settings).1 = .error .tornDirective ↔
      Stops patterns env settings) := by
  unfold ofSettings
  rcases ofVariable_cases patterns (env.text? "VFS_DIGEST_LOG") with
    ⟨f, hf, hgives⟩ | ⟨htorn, text, htext, hstops⟩ | ⟨hpassed, hnone, hstops⟩
  · have hnot : ¬Stops patterns env settings := not_stops_of_givesFilter hgives
    simp [hf, hnot, Valid.variable hgives]
  · have hstop : Stops patterns env settings := .variable htext hstops
    simp [htorn, hstop]
  · simp only [hpassed]
    by_cases hoff : levelText settings = "off"
    · have hnot : ¬Stops patterns env settings := by
        rintro (⟨htext, h⟩ | ⟨-, hne, -⟩ | ⟨-, hne, -⟩)
        · exact hstops _ htext h
        · exact hne hoff
        · exact hne hoff
      simp [hoff, hnot, Valid.off hoff]
    · have hvalid : Valid patterns env settings ↔
          (∀ e ∈ entriesOf settings, Readable patterns (entryText e)) ∧
          ∀ e ∈ variableEntries (env.text? "VFS_DIGEST_LOG_MODULES"),
          Readable patterns (entryText e) := by
        constructor
        · rintro (hgives | hlevel | ⟨hsettings, hvariable⟩)
          · exact absurd hgives hnone
          · exact absurd hlevel hoff
          · exact ⟨hsettings, hvariable⟩
        · exact fun ⟨hsettings, hvariable⟩ => .modules hsettings hvariable
      rw [stops_iff hnone hstops hoff, hvalid,
        ← torn_readLeniently_iff, if_neg hoff]
      cases htorn :
        (readLeniently patterns (pieces (levelText settings).toList)).torn with
      | true => simp
      | false =>
          simp only [Bool.false_eq_true, if_false, false_or]
          rw [exists_withModules_iff, withModules_eq_torn_iff]
          refine ⟨⟨fun h => ⟨h, ?_⟩, fun h => h.1⟩, Iff.rfl⟩
          exact not_stopsIn_of_readable (List.forall_mem_map.2 h.1)

end LogFilter

def LogLayout.Valid (env : Environment) (settings : Option LogSettings) :
    Prop :=
  (∃ name, env.text? "VFS_DIGEST_LOG_FORMAT" = some name ∧
    name ∈ ["json", "text"]) ∨
    (settings.getD .default).format ∈ ["json", "text"]

def LogOutput.Valid (env : Environment) (settings : Option LogSettings) :
    Prop :=
  (env.text? "VFS_DIGEST_LOG_OUTPUT").getD (settings.getD .default).output ∈
    ["stdout", "stderr", "both"]

theorem LogLayout.isSome_named?_iff (color : Bool) (name : String) :
    (named? color name).isSome ↔ name ∈ ["json", "text"] := by
  unfold named?
  split
  · simp_all
  · split <;> simp_all

theorem LogOutput.isSome_named?_iff (name : String) :
    (named? name).isSome ↔ name ∈ ["stdout", "stderr", "both"] := by
  unfold named?
  split
  · simp_all
  · split
    · simp_all
    · split <;> simp_all

section

variable (patterns : ValuePatterns) (env : Environment)
  (settings : Option LogSettings)

theorem LogLayout.ofSettings_outcome :
    ((∃ layout, ofSettings env settings = .ok layout) ↔ Valid env settings) ∧
      ofSettings env settings ≠ .error .tornDirective := by
  unfold ofSettings Valid
  dsimp only
  rw [← isSome_named?_iff (settings.getD .default).color]
  cases hvariable : (env.text? "VFS_DIGEST_LOG_FORMAT").bind
      (named? (settings.getD .default).color) with
  | some layout =>
      obtain ⟨name, hname, hnamed⟩ := Option.bind_eq_some_iff.1 hvariable
      have hmem : name ∈ ["json", "text"] :=
        (isSome_named?_iff (settings.getD .default).color name).1
          (by rw [hnamed]; rfl)
      exact ⟨iff_of_true ⟨layout, rfl⟩ (Or.inl ⟨name, hname, hmem⟩), by simp⟩
  | none =>
      have hnone : ¬∃ name, env.text? "VFS_DIGEST_LOG_FORMAT" = some name ∧
          name ∈ ["json", "text"] := by
        rintro ⟨name, hname, hmem⟩
        obtain ⟨layout, hlayout⟩ := Option.isSome_iff_exists.1
          ((isSome_named?_iff (settings.getD .default).color name).2 hmem)
        rw [hname, Option.bind_some, hlayout] at hvariable
        cases hvariable
      rw [or_iff_right hnone]
      cases named? (settings.getD .default).color
        (settings.getD .default).format <;> simp

theorem LogOutput.ofSettings_outcome :
    ((∃ output, ofSettings env settings = .ok output) ↔ Valid env settings) ∧
      ofSettings env settings ≠ .error .tornDirective := by
  unfold ofSettings Valid
  dsimp only
  rw [← isSome_named?_iff]
  cases named? ((env.text? "VFS_DIGEST_LOG_OUTPUT").getD
    (settings.getD .default).output) <;> simp

/-- A logger can be made: the log is off, or there are a filter, a layout and
streams for it. -/
def Logger.Valid : Prop :=
  (settings.getD .default).enabled = false ∨
    LogFilter.Valid patterns env settings ∧ LogLayout.Valid env settings ∧
      LogOutput.Valid env settings

/-- Making a logger stops the program: the log is on, and there is a torn
directive. -/
def Logger.Stops : Prop :=
  (settings.getD .default).enabled = true ∧
    LogFilter.Stops patterns env settings

/-- A logger is made of what is valid, and the program stops at a torn directive
before anything else is looked at. -/
theorem Logger.ofSettings_outcome :
    ((∃ logger, (ofSettings patterns env settings).1 = .ok logger) ↔
      Valid patterns env settings ∧ ¬Stops patterns env settings) ∧
    ((ofSettings patterns env settings).1 = .error .tornDirective ↔
      Stops patterns env settings) := by
  obtain ⟨hfilter, hfilterTorn⟩ :=
    LogFilter.ofSettings_outcome patterns env settings
  obtain ⟨hlayout, hlayoutTorn⟩ := LogLayout.ofSettings_outcome env settings
  obtain ⟨houtput, houtputTorn⟩ := LogOutput.ofSettings_outcome env settings
  unfold ofSettings Valid Stops
  cases (settings.getD .default).enabled with
  | false => simp
  | true =>
      rw [← hlayout, ← houtput]
      generalize hmade : LogFilter.ofSettings patterns env settings = made
        at hfilter hfilterTorn
      obtain ⟨made, notices⟩ := made
      cases made with
      | error failure =>
          have hnot : LogFilter.Valid patterns env settings →
              LogFilter.Stops patterns env settings := by
            intro hvalid
            by_contra hstops
            obtain ⟨f, hf⟩ := hfilter.2 ⟨hvalid, hstops⟩
            cases hf
          have htorn : failure = .tornDirective ↔
              LogFilter.Stops patterns env settings := by
            rw [← hfilterTorn, Except.error.injEq]
          refine ⟨iff_of_false (by simp) ?_, by simp [htorn]⟩
          rintro ⟨hvalid, hstops⟩
          rcases hvalid with hoff | ⟨hvalid, -⟩
          · cases hoff
          · exact hstops ⟨rfl, hnot hvalid⟩
      | ok filter =>
          obtain ⟨hvalid, hstops⟩ := hfilter.1 ⟨filter, rfl⟩
          cases hl : LogLayout.ofSettings env settings with
          | error failure =>
              have hne : failure ≠ .tornDirective := by
                rintro rfl
                exact hlayoutTorn hl
              simp [hstops, hne]
          | ok layout =>
              cases ho : LogOutput.ofSettings env settings with
              | error failure =>
                  have hne : failure ≠ .tornDirective := by
                    rintro rfl
                    exact houtputTorn ho
                  simp [hstops, hne]
              | ok output => simp [hvalid, hstops]

end

end FileDigest
