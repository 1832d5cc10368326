import FileDigest.Proofs.Logging.Composition

/-!
# The variable and the level of the settings

Where a variable gives a level to a longer name than any in the settings, it
decides about all targets that begin with that name, whatever the level in the
settings is, with one exception: if that level is written exactly `off`, then
nothing is logged and the variable is not read, while `OFF` or `0` would be
outranked. So two settings agree about an event of such a target exactly if both
are written so, or neither, or the variable does not let the event through
(`LogFilter.allows_eq_iff_of_variable`).
-/

namespace FileDigest

open Directive

namespace LogFilter

variable {s s' : LogSettings} {variableText : Option String}
  {base base' level : LogLevel} {name : List Char} {env : Environment}
  {target : String}

/-- A name of the variable that is longer than those of the settings is the
longest of all. -/
theorem longestName_givenLevel?
    (h : LongestName (variableLevel? variableText) target.toList name level)
    (hshorter : ∀ m ∈ s.modules, m.1.toList <+: target.toList →
      m.1.length < name.length) :
    LongestName (givenLevel? s variableText) target.toList name level := by
  refine ⟨h.begins, by rw [givenLevel?, h.leveled, Option.some_or],
    fun other level' hbegins hgiven => ?_⟩
  rcases Option.or_eq_some_iff.1 hgiven with hvariable | ⟨-, hmodule⟩
  · exact h.longest other level' hbegins hvariable
  · obtain ⟨text, hlookup, -⟩ := Option.bind_eq_some_iff.1 hmodule
    have hlt :=
      hshorter _ (mem_of_lookup hlookup) (by rwa [String.toList_ofList])
    rw [← String.length_toList, String.toList_ofList] at hlt
    exact hlt.le

/-- What the variable lets through, unless the level in the settings is written
exactly `off`. -/
theorem exists_allows_of_variable (patterns : ValuePatterns)
    (hunset : env.text? "VFS_DIGEST_LOG" = none)
    (hbase : LogLevel.ofWord? s.level.toList = some base) (h : s.GivesLevels)
    (hvariable : VariableGivesLevels (env.text? "VFS_DIGEST_LOG_MODULES"))
    (hname : LongestName (variableLevel? (env.text? "VFS_DIGEST_LOG_MODULES"))
      target.toList name level)
    (hshorter : ∀ m ∈ s.modules, m.1.toList <+: target.toList →
      m.1.length < name.length) :
    ∃ f, ofSettings patterns env (some s) = (.ok f, []) ∧ ∀ fields event,
      f.allows target fields event =
        if s.level = "off" then LogLevel.off.allows event
          else level.allows event := by
  by_cases hoff : s.level = "off"
  · refine ⟨upTo .off, ?_, fun fields event => ?_⟩
    · simp only [ofSettings, hunset, ofVariable, levelText, hoff, if_true]
    · rw [if_pos hoff]
      rfl
  · obtain ⟨level', hdecides, hallows⟩ :=
      exists_decides_composed base h hvariable (List.Perm.refl _) target
    have hlevel : level' = level :=
      hdecides.unique (.name (longestName_givenLevel? hname hshorter))
    refine ⟨_, ofSettings_eq_composed hunset hbase hoff h hvariable
      (List.Perm.refl _), fun fields event => ?_⟩
    rw [hallows, hlevel, if_neg hoff]

theorem off_allows {event : LogLevel} (h : event ≠ .off) :
    LogLevel.off.allows event = false := by
  cases event with
  | off => exact absurd rfl h
  | _ => rfl

/-- Two settings with the same modules, which come in no certain order, agree
about what the variable decides unless just one of them turns everything off. -/
theorem allows_eq_iff_of_variable (patterns : ValuePatterns) (env : Environment)
    (s s' : LogSettings) (hunset : env.text? "VFS_DIGEST_LOG" = none)
    (hvariable : VariableGivesLevels (env.text? "VFS_DIGEST_LOG_MODULES"))
    (hbase : LogLevel.ofWord? s.level.toList = some base)
    (hbase' : LogLevel.ofWord? s'.level.toList = some base')
    (hsettings : s.GivesLevels) (hmodules : s'.modules.Perm s.modules)
    (hname : LongestName (variableLevel? (env.text? "VFS_DIGEST_LOG_MODULES"))
      target.toList name level)
    (hshorter : ∀ m ∈ s.modules, m.1.toList <+: target.toList →
      m.1.length < name.length) :
    ∃ f f', ofSettings patterns env (some s) = (.ok f, []) ∧
      ofSettings patterns env (some s') = (.ok f', []) ∧
      (∀ fields event, f.allows target fields event =
        if s.level = "off" then LogLevel.off.allows event
          else level.allows event) ∧
      ∀ fields event, event ≠ .off →
        (f.allows target fields event = f'.allows target fields event ↔
          (s.level = "off" ↔ s'.level = "off") ∨
          level.allows event = false) := by
  have hsettings' : s'.GivesLevels :=
    ⟨fun m hm => hsettings.entries m (hmodules.mem_iff.1 hm),
      (hmodules.map _).nodup_iff.2 hsettings.nodup⟩
  obtain ⟨f, hf, hallows⟩ :=
    exists_allows_of_variable patterns hunset hbase hsettings hvariable hname
      hshorter
  obtain ⟨f', hf', hallows'⟩ :=
    exists_allows_of_variable patterns hunset hbase' hsettings' hvariable hname
      fun m hm => hshorter m (hmodules.mem_iff.1 hm)
  refine ⟨f, f', hf, hf', hallows, fun fields event hevent => ?_⟩
  rw [hallows, hallows', off_allows hevent]
  by_cases hoff : s.level = "off" <;> by_cases hoff' : s'.level = "off" <;>
    cases level.allows event <;> simp [hoff, hoff']

def libraryVariable : Environment :=
  [(Bytes.ofText "VFS_DIGEST_LOG_MODULES", Bytes.ofText "vfs_digest=info")]

theorem libraryVariable_text :
    libraryVariable.text? "VFS_DIGEST_LOG_MODULES" =
      some "vfs_digest=info" := by
  decide +kernel

theorem variableGivesLevels_libraryVariable :
    VariableGivesLevels (libraryVariable.text? "VFS_DIGEST_LOG_MODULES") := by
  rw [libraryVariable_text]
  rintro text ⟨⟩
  decide +kernel

/-- Settings with a level and one module, which is not of the library. -/
def settingsOfLevel (level : String) : LogSettings :=
  { LogSettings.default with level, modules := [("vfs", "trace")] }

theorem givesLevels_settingsOfLevel (level : String) :
    (settingsOfLevel level).GivesLevels := by
  have hentry : ∀ m ∈ [("vfs", "trace")], IsName m.1.toList ∧
      (level? m.2.toList).isSome := by
    decide +kernel
  exact ⟨hentry, List.nodup_singleton "vfs"⟩

theorem longestName_libraryVariable :
    LongestName
      (variableLevel? (libraryVariable.text? "VFS_DIGEST_LOG_MODULES"))
      LogEntry.storeTarget.toList "vfs_digest".toList .info := by
  decide +kernel

theorem allows_eq_iff_of_variable_off :
    ∃ f f', ofSettings (fun _ => none) libraryVariable
      (some (settingsOfLevel "OFF")) =
        (.ok f, []) ∧
      ofSettings (fun _ => none) libraryVariable
        (some (settingsOfLevel "off")) = (.ok f', []) ∧
      f.allows LogEntry.storeTarget ["message", "max_entries"] .info = true ∧
      f'.allows LogEntry.storeTarget ["message", "max_entries"] .info =
        false := by
  obtain ⟨f, f', hf, hf', hallows, hiff⟩ :=
    allows_eq_iff_of_variable (fun _ => none)
      libraryVariable (settingsOfLevel "OFF") (settingsOfLevel "off")
      (by decide +kernel)
      variableGivesLevels_libraryVariable
      (show LogLevel.ofWord? "OFF".toList = some .off by decide +kernel)
      (show LogLevel.ofWord? "off".toList = some .off by decide +kernel)
      (givesLevels_settingsOfLevel "OFF") (List.Perm.refl _)
      longestName_libraryVariable
      (by decide +kernel)
  have htrue : f.allows LogEntry.storeTarget ["message", "max_entries"] .info =
      true := by
    rw [hallows, if_neg (by decide)]
    rfl
  refine ⟨f, f', hf, hf', htrue, ?_⟩
  have hne : ¬f.allows LogEntry.storeTarget ["message", "max_entries"] .info =
      f'.allows LogEntry.storeTarget ["message", "max_entries"] .info := by
    rw [hiff _ .info (by decide)]
    decide
  rw [htrue] at hne
  exact Bool.eq_false_iff.2 (Ne.symm hne)

/-- The level of the settings outranks the variable where it is written `off`:
an event that the variable lets through, and that is logged where the level is
`warn`, is not logged. -/
theorem off_outranks_variable :
    LongestName
      (variableLevel? (libraryVariable.text? "VFS_DIGEST_LOG_MODULES"))
      LogEntry.storeTarget.toList "vfs_digest".toList .info ∧
    (∀ m ∈ (settingsOfLevel "off").modules, m.1.length < "vfs_digest".length) ∧
    (ofSettings (fun _ => none) libraryVariable
      (some (settingsOfLevel "warn"))).1.map
      (·.allows LogEntry.storeTarget ["message", "max_entries"] .info) =
        .ok true ∧
    (ofSettings (fun _ => none) libraryVariable
      (some (settingsOfLevel "off"))).1.map
      (·.allows LogEntry.storeTarget ["message", "max_entries"] .info) =
        .ok false := by
  decide +kernel

end LogFilter

end FileDigest
