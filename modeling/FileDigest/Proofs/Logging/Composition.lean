import FileDigest.Proofs.Logging.Entries

/-!
# What a composed filter logs

A filter is composed of the level in the settings, of the levels of modules
there, which come in no certain order, and of those in a variable, in the order
in which they are written. For one name the last piece of the variable goes
before the settings (`givenLevel?`), and of all names the longest one that a
target begins with decides about it (`LogFilter.ofSettings_composed`).
-/

namespace FileDigest

open Directive

def LogSettings.moduleLevel? (s : LogSettings) (name : List Char) :
    Option LogLevel :=
  (s.modules.lookup (String.ofList name)).bind fun level => level? level.toList

/-- The settings give levels to names of modules, to each of them once. -/
structure LogSettings.GivesLevels (s : LogSettings) : Prop where
  entries : ∀ m ∈ s.modules, IsName m.1.toList ∧ (level? m.2.toList).isSome
  nodup : (s.modules.map Prod.fst).Nodup

namespace LogFilter

/-- The level that a variable gives to a module: that of the last piece for it.
What has not just one equals sign is for none. -/
def variableLevel? (variableText : Option String) (name : List Char) :
    Option LogLevel :=
  variableText.bind fun text =>
    ((piecesBetween ',' text.toList).filter fun p =>
      p.count '=' = 1 ∧ pieceName p = name).getLast?.bind fun p =>
        level? (pieceLevel p)

/-- The pieces of a variable with just one equals sign give levels to names of
modules. -/
def VariableGivesLevels (variableText : Option String) : Prop :=
  ∀ text, variableText = some text → ∀ p ∈ piecesBetween ',' text.toList,
    p.count '=' = 1 →
    IsName (pieceName p) ∧ (level? (pieceLevel p)).isSome

/-- The level that is given to a module, where the variable goes before the
settings. -/
def givenLevel? (s : LogSettings) (variableText : Option String)
    (name : List Char) : Option LogLevel :=
  (variableLevel? variableText name).or (s.moduleLevel? name)

variable {patterns : ValuePatterns} {s : LogSettings}
  {variableText : Option String} {base : LogLevel}

theorem isEntry_settingsEntries (h : s.GivesLevels)
    {order : List (String × String)} (horder : order.Perm s.modules) :
    ∀ e ∈ settingsEntries order, IsEntry e := by
  intro e he
  obtain ⟨m, hm, rfl⟩ := List.mem_map.1 he
  exact h.entries m (horder.mem_iff.1 hm)

theorem isEntry_variableEntries (h : VariableGivesLevels variableText) :
    ∀ e ∈ variableEntries variableText, IsEntry e := by
  cases variableText with
  | none => intro e he; cases he
  | some text =>
      intro e he
      rw [variableEntries, modulesOf_eq] at he
      obtain ⟨p, hp, rfl⟩ := List.mem_map.1 he
      obtain ⟨hpiece, hcount⟩ := List.mem_filter.1 hp
      exact h text rfl p hpiece (of_decide_eq_true hcount)

theorem lookup_leveled_settingsEntries {modules : List (String × String)}
    (h : ∀ e ∈ settingsEntries modules, IsEntry e) (name : List Char) :
    (leveled (settingsEntries modules)).lookup name =
      (modules.lookup (String.ofList name)).bind fun level =>
        level? level.toList := by
  induction modules with
  | nil => rfl
  | cons m modules ih =>
      obtain ⟨hm, hrest⟩ := List.forall_mem_cons.1 h
      obtain ⟨level, hlevel⟩ := Option.isSome_iff_exists.1 hm.2
      have hleveled : leveled (settingsEntries (m :: modules)) =
          (m.1.toList, level) :: leveled (settingsEntries modules) :=
        leveled_cons hlevel _
      rw [hleveled, List.lookup_cons, List.lookup_cons]
      by_cases hname : name = m.1.toList
      · subst hname
        simp [hlevel]
      · have hbeq : (name == m.1.toList) = false := beq_eq_false_iff_ne.2 hname
        have hbeq' : (String.ofList name == m.1) = false := by
          refine beq_eq_false_iff_ne.2 fun heq => hname ?_
          rw [← heq, String.toList_ofList]
        rw [hbeq, hbeq', ih hrest]

theorem lookup_settingsEntries (h : s.GivesLevels)
    {order : List (String × String)} (horder : order.Perm s.modules)
    (name : List Char) :
    (leveled (settingsEntries order)).reverse.lookup name =
      s.moduleLevel? name := by
  have hentries := isEntry_settingsEntries h horder
  have hfst : (order.map Prod.fst).Nodup := (horder.map _).nodup_iff.2 h.nodup
  have hnames : (leveled (settingsEntries order)).map Prod.fst =
      (order.map Prod.fst).map String.toList := by
    rw [names_leveled fun e he => (hentries e he).2]
    simp [settingsEntries]
  have hnodup :
      ((leveled (settingsEntries order)).reverse.map Prod.fst).Nodup := by
    rw [List.map_reverse, List.nodup_reverse, hnames]
    exact hfst.map fun a b hab => String.toList_inj.1 hab
  rw [lookup_perm (List.reverse_perm _) hnodup,
    lookup_leveled_settingsEntries hentries, lookup_perm horder hfst,
    LogSettings.moduleLevel?]

theorem lookup_variableEntries (h : VariableGivesLevels variableText)
    (name : List Char) :
    (leveled (variableEntries variableText)).reverse.lookup name =
      variableLevel? variableText name := by
  rw [lookup_reverse_leveled fun e he => (isEntry_variableEntries h e he).2]
  cases variableText with
  | none => rfl
  | some text =>
      rw [variableEntries, modulesOf_eq, List.filter_map, List.getLast?_map,
        List.filter_filter, Option.bind_map]
      simp only [variableLevel?, Option.bind_some, Function.comp_def,
        Bool.decide_and, Bool.and_comm]

/-- The filter that logs up to a level, with the levels of modules from settings
and from a variable. -/
def composed (base : LogLevel) (modules : List (String × String))
    (variableText : Option String) : LogFilter :=
  withNames base (leveled (settingsEntries modules) ++
    leveled (variableEntries variableText))

theorem withModules_eq_composed (h : s.GivesLevels)
    (hvariable : VariableGivesLevels variableText)
    {order : List (String × String)} (horder : order.Perm s.modules) :
    withModules patterns (withNames base []) (some { s with modules := order })
      variableText =
      .ok (composed base order variableText) := by
  have hsettings := addModules_withNames patterns false base
    (isEntry_settingsEntries h horder) []
  have hentries := isEntry_variableEntries hvariable
  rw [List.nil_append, settingsEntries] at hsettings
  simp only [withModules, hsettings]
  cases variableText with
  | none => simp [composed, variableEntries, leveled, settingsEntries]
  | some text => exact addModules_withNames patterns true base hentries _

/-- Where no variable gives a whole filter and the level is a word other than
exactly `off`, the filter is composed, and nothing is left out. -/
theorem ofSettings_eq_composed {env : Environment}
    {order : List (String × String)}
    (hunset : env.text? "VFS_DIGEST_LOG" = none)
    (hbase : LogLevel.ofWord? s.level.toList = some base)
    (hoff : s.level ≠ "off") (h : s.GivesLevels)
    (hvariable : VariableGivesLevels (env.text? "VFS_DIGEST_LOG_MODULES"))
    (horder : order.Perm s.modules) :
    ofSettings patterns env (some { s with modules := order }) =
      (.ok (composed base order (env.text? "VFS_DIGEST_LOG_MODULES")), []) := by
  have hplain : ofDirectives [.plain none base] = withNames base [] := rfl
  simp only [ofSettings, hunset, ofVariable, levelText, hoff, if_false,
    readLeniently_word hbase, hplain,
    withModules_eq_composed h hvariable horder]
  rfl

/-- What is given last is what the variable gives, and what the settings give
where it gives nothing. -/
theorem exists_decides_composed (base : LogLevel) (h : s.GivesLevels)
    (hvariable : VariableGivesLevels variableText)
    {order : List (String × String)} (horder : order.Perm s.modules)
    (target : String) :
    ∃ level, Decides (givenLevel? s variableText) base target.toList level ∧
      ∀ fields event,
        (composed base order variableText).allows target fields event =
          level.allows event := by
  have hgiven : ((leveled (settingsEntries order) ++
      leveled (variableEntries variableText)).reverse.lookup ·) =
        givenLevel? s variableText := by
    funext name
    rw [List.reverse_append, List.lookup_append,
      lookup_variableEntries hvariable, lookup_settingsEntries h horder,
      givenLevel?]
  rw [← hgiven]
  exact exists_decides base _ target

/-- Whatever the order of the modules in the settings, there is a filter, and
nothing is left out of it. An event is logged up to the level of the longest
name that its target begins with, or up to the level in the settings where there
is none. -/
theorem ofSettings_composed (patterns : ValuePatterns) (env : Environment)
    (s : LogSettings) {base : LogLevel} {order : List (String × String)}
    (hunset : env.text? "VFS_DIGEST_LOG" = none)
    (hbase : LogLevel.ofWord? s.level.toList = some base)
    (hoff : s.level ≠ "off") (hsettings : s.GivesLevels)
    (hvariable : VariableGivesLevels (env.text? "VFS_DIGEST_LOG_MODULES"))
    (horder : order.Perm s.modules) :
    ∃ f, ofSettings patterns env (some { s with modules := order }) =
      (.ok f, []) ∧
      ∀ target, ∃ level,
        Decides (givenLevel? s (env.text? "VFS_DIGEST_LOG_MODULES")) base
          target.toList level ∧
        ∀ fields event, f.allows target fields event = level.allows event :=
  ⟨_, ofSettings_eq_composed hunset hbase hoff hsettings hvariable horder,
    exists_decides_composed base hsettings hvariable horder⟩

/-- A level for everything, and levels for two modules of which one begins like
the other. -/
def twoModules : LogSettings :=
  { LogSettings.default with
    level := "Warn"
    modules := [("walk", "debug"), ("walk::tree", "OFF")] }

/-- Two pieces for one module, with blanks in them, and two that are for
none. -/
def modulesVariable : Environment :=
  [(Bytes.ofText "VFS_DIGEST_LOG_MODULES",
    Bytes.ofText " walk = 1, walk=TRACE ,walk==off,walk::tree")]

theorem givesLevels_twoModules : twoModules.GivesLevels :=
  ⟨by decide +kernel, by decide +kernel⟩

theorem variableGivesLevels_modulesVariable :
    VariableGivesLevels (modulesVariable.text? "VFS_DIGEST_LOG_MODULES") := by
  have htext : modulesVariable.text? "VFS_DIGEST_LOG_MODULES" =
      some " walk = 1, walk=TRACE ,walk==off,walk::tree" := by
    decide +kernel
  rw [htext]
  rintro text ⟨⟩
  decide +kernel

theorem ofSettings_composed_twoModules :
    ∃ f, ofSettings (fun _ => none) modulesVariable
        (some { twoModules with modules := twoModules.modules.reverse }) =
          (.ok f, []) ∧
      f.allows "walk::file" [] .trace = true ∧
      f.allows "walk::trees" ["message"] .error = false ∧
      f.allows "tree" ["message"] .warn = true ∧
      f.allows "tree" ["message"] .info = false := by
  obtain ⟨f, hf, hdecides⟩ :=
    ofSettings_composed (fun _ => none) modulesVariable twoModules
      (by decide +kernel) (show LogLevel.ofWord? twoModules.level.toList =
        some .warn by decide +kernel)
      (by decide +kernel) givesLevels_twoModules
      variableGivesLevels_modulesVariable (List.reverse_perm _)
  obtain ⟨level, hwalk, hallowsWalk⟩ := hdecides "walk::file"
  obtain ⟨level', htrees, hallowsTrees⟩ := hdecides "walk::trees"
  obtain ⟨level'', htree, hallowsTree⟩ := hdecides "tree"
  have hlevel : level = .trace := hwalk.unique <| .name <|
    show LongestName _ _ "walk".toList .trace by decide +kernel
  have hlevel' : level' = .off := htrees.unique <| .name <|
    show LongestName _ _ "walk::tree".toList .off by decide +kernel
  have hnone : ∀ name ∈ "tree".toList.inits, givenLevel? twoModules
      (modulesVariable.text? "VFS_DIGEST_LOG_MODULES") name = none := by
    decide +kernel
  have hlevel'' : level'' = .warn :=
    htree.unique (.base fun name hbegins =>
      hnone name ((List.mem_inits _ _).2 hbegins))
  refine ⟨f, hf, ?_, ?_, ?_, ?_⟩
  · rw [hallowsWalk, hlevel]
    rfl
  · rw [hallowsTrees, hlevel']
    rfl
  · rw [hallowsTree, hlevel'']
    rfl
  · rw [hallowsTree, hlevel'']
    rfl

end LogFilter

end FileDigest
