import FileDigest.Proofs.Logging.Validity

/-!
# One logger for a process

Of several calls that set up the log, the first valid one installs its logger,
and it stays. What a call answers depends on what is installed and on nothing
else of the log (`Log.installEach_congr`), and a call that fails installs
nothing; so it can be left out without any other call noticing
(`Log.installEach_answers`).

A call can also stop the program, and it is then the last one: a directive that
begins with a blank is cut at positions that were counted without it, and one of
these may lie inside a character.
-/

namespace FileDigest.Log

variable {patterns : ValuePatterns} {log log' : Log} {env : Environment}
  {settings : Option LogSettings} {call : Environment × Option LogSettings}
  {calls : List (Environment × Option LogSettings)}

/-- What a call does: it succeeds if nothing is installed and a logger is made,
and otherwise leaves alone what is installed. -/
theorem install_cases (patterns : ValuePatterns) (log : Log) (env : Environment)
    (settings : Option LogSettings) :
    ((log.install patterns env settings).1 = .ok () ∧ log.installed = none ∧
      ∃ logger, (Logger.ofSettings patterns env settings).1 = .ok logger ∧
        (log.install patterns env settings).2.installed = some logger) ∨
    ((log.install patterns env settings).1 ≠ .ok () ∧
      (log.install patterns env settings).2.installed = log.installed ∧
      (log.installed = none →
        ∀ logger, (Logger.ofSettings patterns env settings).1 ≠
          .ok logger)) := by
  unfold install
  obtain ⟨made, notices⟩ := Logger.ofSettings patterns env settings
  cases made with
  | error failure => exact Or.inr ⟨by simp, rfl, by simp⟩
  | ok logger =>
      cases hinstalled : log.installed with
      | none => exact Or.inl ⟨by simp, rfl, logger, rfl, by simp⟩
      | some old => exact Or.inr ⟨by simp, by simp, by simp⟩

theorem install_congr (h : log.installed = log'.installed) :
    (log.install patterns env settings).1 =
      (log'.install patterns env settings).1 ∧
      (log.install patterns env settings).2.installed =
        (log'.install patterns env settings).2.installed := by
  unfold install
  obtain ⟨made, notices⟩ := Logger.ofSettings patterns env settings
  cases made <;> cases hinstalled : log'.installed <;> simp [h, hinstalled]

theorem install_eq_torn_iff (log : Log) :
    (log.install patterns env settings).1 = .error .tornDirective ↔
      Logger.Stops patterns env settings := by
  rw [← (Logger.ofSettings_outcome patterns env settings).2]
  unfold install
  obtain ⟨made, notices⟩ := Logger.ofSettings patterns env settings
  cases made <;> cases log.installed <;> simp

theorem install_eq_ok_iff (log : Log) :
    (log.install patterns env settings).1 = .ok () ↔
      log.installed = none ∧ Logger.Valid patterns env settings ∧
        ¬Logger.Stops patterns env settings := by
  rw [← (Logger.ofSettings_outcome patterns env settings).1]
  rcases log.install_cases patterns env settings with
    ⟨hok, hnone, logger, hlogger, -⟩ | ⟨hne, -, hmade⟩
  · exact iff_of_true hok ⟨hnone, logger, hlogger⟩
  · exact iff_of_false hne fun ⟨hnone, logger, hlogger⟩ =>
      hmade hnone logger hlogger

theorem installed_install (h : (log.install patterns env settings).1 ≠ .ok ()) :
    (log.install patterns env settings).2.installed = log.installed := by
  rcases log.install_cases patterns env settings with ⟨hok, -⟩ | ⟨-, hkept, -⟩
  · exact absurd hok h
  · exact hkept

theorem installEach_cons_of_stops (h : Logger.Stops patterns call.1 call.2)
    (log : Log) (calls : List (Environment × Option LogSettings)) :
    log.installEach patterns (call :: calls) =
      ([.error .tornDirective], (log.install patterns call.1 call.2).2) := by
  have htorn := (install_eq_torn_iff log).2 h
  obtain ⟨env, settings⟩ := call
  rw [installEach]
  split
  · rename_i log' hinstall
    rw [hinstall]
  · rename_i answer log' hne hinstall
    rw [hinstall] at htorn
    exact absurd htorn hne

theorem installEach_cons (h : ¬Logger.Stops patterns call.1 call.2) (log : Log)
    (calls : List (Environment × Option LogSettings)) :
    log.installEach patterns (call :: calls) =
      ((log.install patterns call.1 call.2).1 ::
          ((log.install patterns call.1 call.2).2.installEach patterns calls).1,
        ((log.install patterns call.1 call.2).2.installEach patterns
          calls).2) := by
  have htorn := mt (install_eq_torn_iff log).1 h
  obtain ⟨env, settings⟩ := call
  rw [installEach]
  split
  · rename_i log' hinstall
    rw [hinstall] at htorn
    exact absurd rfl htorn
  · rename_i answer log' hne hinstall
    rw [hinstall]

theorem installEach_append
    (h : ∀ call ∈ calls, ¬Logger.Stops patterns call.1 call.2) (log : Log)
    (calls' : List (Environment × Option LogSettings)) :
    log.installEach patterns (calls ++ calls') =
      ((log.installEach patterns calls).1 ++
          ((log.installEach patterns calls).2.installEach patterns calls').1,
        ((log.installEach patterns calls).2.installEach patterns
          calls').2) := by
  induction calls generalizing log with
  | nil => rfl
  | cons call calls ih =>
      obtain ⟨hcall, hcalls⟩ := List.forall_mem_cons.1 h
      rw [List.cons_append, installEach_cons hcall, installEach_cons hcall,
        ih hcalls, List.cons_append]

theorem installEach_congr (patterns : ValuePatterns)
    (calls : List (Environment × Option LogSettings))
    (h : log.installed = log'.installed) :
    (log.installEach patterns calls).1 = (log'.installEach patterns calls).1 ∧
      (log.installEach patterns calls).2.installed =
        (log'.installEach patterns calls).2.installed := by
  induction calls generalizing log log' with
  | nil => exact ⟨rfl, h⟩
  | cons call calls ih =>
      obtain ⟨hanswer, hinstalled⟩ := install_congr h
      by_cases hstops : Logger.Stops patterns call.1 call.2
      · rw [installEach_cons_of_stops hstops, installEach_cons_of_stops hstops]
        exact ⟨rfl, hinstalled⟩
      · obtain ⟨hanswers, hlast⟩ := ih hinstalled
        rw [installEach_cons hstops, installEach_cons hstops]
        exact ⟨congrArg₂ List.cons hanswer hanswers, hlast⟩

theorem installed_installEach_eq_none_iff
    (h : ∀ call ∈ calls, ¬Logger.Stops patterns call.1 call.2) (log : Log) :
    (log.installEach patterns calls).2.installed = none ↔
      log.installed = none ∧ ∀ answer ∈ (log.installEach patterns calls).1,
        answer ≠ .ok () := by
  induction calls generalizing log with
  | nil => simp [installEach]
  | cons call calls ih =>
      obtain ⟨hcall, hcalls⟩ := List.forall_mem_cons.1 h
      simp only [installEach_cons hcall, ih hcalls, List.forall_mem_cons]
      rcases log.install_cases patterns call.1 call.2 with
        ⟨hok, hnone, logger, -, hinstalled⟩ | ⟨hne, hsame, -⟩
      · simp [hok, hinstalled]
      · simp [hne, hsame]

theorem length_installEach
    (h : ∀ call ∈ calls, ¬Logger.Stops patterns call.1 call.2) (log : Log) :
    (log.installEach patterns calls).1.length = calls.length := by
  induction calls generalizing log with
  | nil => rfl
  | cons call calls ih =>
      obtain ⟨hcall, hcalls⟩ := List.forall_mem_cons.1 h
      simp only [installEach_cons hcall, List.length_cons, ih hcalls]

/-- A call that fails can be left out: the other calls are answered alike, and
the same is installed in the end. -/
theorem installEach_append_cons
    (h : ∀ call ∈ calls, ¬Logger.Stops patterns call.1 call.2)
    (hcall : ¬Logger.Stops patterns call.1 call.2)
    (hne : ((log.installEach patterns calls).2.install patterns call.1
      call.2).1 ≠ .ok ()) (after : List (Environment × Option LogSettings)) :
    let run := log.installEach patterns (calls ++ call :: after)
    let without := log.installEach patterns (calls ++ after)
    run.1 = without.1.take calls.length ++
        ((log.installEach patterns calls).2.install patterns call.1 call.2).1 ::
          without.1.drop calls.length ∧
      run.2.installed = without.2.installed := by
  dsimp only
  obtain ⟨hanswers, hlast⟩ :=
    installEach_congr patterns after (installed_install hne)
  have hlength := length_installEach h log
  rw [installEach_append h, installEach_append h, installEach_cons hcall]
  refine ⟨?_, hlast⟩
  rw [List.take_left' hlength, List.drop_left' hlength, ← hanswers]

/-- Of several calls the first valid one succeeds, and no other. A call that is
not valid, or comes after it, is answered with a fault, unless it stops the
program at a torn directive. If a call is answered with a fault, then all other
calls are answered as in a process in which it was not made, and the same logger
is installed in the end. A call that stops the program is the last one, and
leaves alone what is installed. -/
theorem installEach_answers (patterns : ValuePatterns)
    (before : List (Environment × Option LogSettings)) (env : Environment)
    (settings : Option LogSettings)
    (hrun : ∀ call ∈ before, ¬Logger.Stops patterns call.1 call.2) :
    let log := (initial.installEach patterns before).2
    let answer := (log.install patterns env settings).1
    let first := ∀ earlier ∈ (initial.installEach patterns before).1,
      earlier ≠ .ok ()
    (answer = .ok () ↔ first ∧ Logger.Valid patterns env settings ∧
      ¬Logger.Stops patterns env settings) ∧
    ((∃ fault, answer = .error (.fault fault)) ↔
      ¬(first ∧ Logger.Valid patterns env settings) ∧
      ¬Logger.Stops patterns env settings) ∧
    (answer = .error .tornDirective ↔ Logger.Stops patterns env settings) ∧
    ((∃ fault, answer = .error (.fault fault)) → ∀ after,
      let run :=
        initial.installEach patterns (before ++ (env, settings) :: after)
      let without := initial.installEach patterns (before ++ after)
      run.1 = without.1.take before.length ++ answer ::
        without.1.drop before.length ∧
      run.2.installed = without.2.installed) ∧
    (answer = .error .tornDirective → ∀ after,
      let run :=
        initial.installEach patterns (before ++ (env, settings) :: after)
      run.1 = (initial.installEach patterns before).1 ++ [answer] ∧
      run.2.installed = log.installed) := by
  intro log answer first
  have hfirst : log.installed = none ↔ first := by
    rw [installed_installEach_eq_none_iff hrun]
    exact and_iff_right rfl
  have hok : answer = .ok () ↔
      first ∧ Logger.Valid patterns env settings ∧
      ¬Logger.Stops patterns env settings := by
    rw [← hfirst]
    exact install_eq_ok_iff log
  have htorn : answer = .error .tornDirective ↔
      Logger.Stops patterns env settings :=
    install_eq_torn_iff log
  have hfault : (∃ fault, answer = .error (.fault fault)) ↔
      answer ≠ .ok () ∧ answer ≠ .error .tornDirective := by
    rcases answer with (fault | _) | _ <;> simp
  refine ⟨hok, ?_, htorn, fun hfails after => ?_, fun hstops after => ?_⟩
  · rw [hfault, Ne, Ne, hok, htorn]
    tauto
  · obtain ⟨hne, hnot⟩ := hfault.1 hfails
    exact installEach_append_cons hrun (mt htorn.2 hnot) hne after
  · have hne : answer ≠ .ok () := by
      rw [hstops]
      exact nofun
    have hlast : log.installEach patterns ((env, settings) :: after) = _ :=
      installEach_cons_of_stops (htorn.1 hstops) log after
    dsimp only
    rw [installEach_append hrun, hlast, hstops]
    exact ⟨rfl, installed_install hne⟩

/-- A variable that names no streams. -/
def nowhereVariable : Environment :=
  [(Bytes.ofText "VFS_DIGEST_LOG_OUTPUT", Bytes.ofText "file")]

theorem installEach_answers_nowhereVariable :
    (∀ call ∈ [(nowhereVariable, none)],
      ¬Logger.Stops (fun _ => none) call.1 (call.2 : Option LogSettings)) ∧
    (initial.installEach (fun _ => none)
      [(nowhereVariable, none), (nowhereVariable, none), ([], none),
        ([], none)]).1 =
      [.error (.fault (.logOutput "file")), .error (.fault (.logOutput "file")),
        .ok (), .error (.fault .alreadyInstalled)] ∧
    (initial.installEach (fun _ => none)
      [(nowhereVariable, none), (nowhereVariable, none), ([], none),
        ([], none)]).2.installed =
      (initial.installEach (fun _ => none)
        [(nowhereVariable, none), ([], none), ([], none)]).2.installed := by
  have hanswer : (initial.install (fun _ => none) nowhereVariable none).1 =
      .error (.fault (.logOutput "file")) := by
    decide +kernel
  have hrun : ∀ call ∈ [(nowhereVariable, none)],
      ¬Logger.Stops (fun _ => none) call.1 (call.2 : Option LogSettings) := by
    intro call hcall
    rw [List.mem_singleton] at hcall
    subst hcall
    rw [← install_eq_torn_iff initial, hanswer]
    exact nofun
  have hagain :
      ((initial.installEach (fun _ => none) [(nowhereVariable, none)]).2.install
      (fun _ => none) nowhereVariable none).1 =
        .error (.fault (.logOutput "file")) := by
    decide +kernel
  have hothers : (initial.installEach (fun _ => none)
      ([(nowhereVariable, none)] ++ [([], none), ([], none)])).1 =
        [.error (.fault (.logOutput "file")), .ok (),
          .error (.fault .alreadyInstalled)] := by
    decide +kernel
  obtain ⟨hanswers, hinstalled⟩ :=
    (installEach_answers (fun _ => none) [(nowhereVariable, none)]
      nowhereVariable none hrun).2.2.2.1 ⟨_, hagain⟩ [([], none), ([], none)]
  refine ⟨hrun, hanswers.trans ?_, hinstalled⟩
  rw [hagain, hothers]
  rfl

/-- A variable with a directive that begins with a blank and whose target has a
letter of two bytes. -/
def tornVariable : Environment :=
  [(Bytes.ofText "VFS_DIGEST_LOG", Bytes.ofText " é=info")]

/-- A first and valid call, with a variable that should count for nothing, stops
the program. -/
theorem tornVariable_stops_install :
    ¬LogFilter.GivesFilter (fun _ => none)
      (tornVariable.text? "VFS_DIGEST_LOG") ∧
      Logger.Valid (fun _ => none) tornVariable none ∧
      (initial.installEach (fun _ => none) [(tornVariable, none),
        ([], none)]).1 =
        [.error .tornDirective] := by
  have htext : tornVariable.text? "VFS_DIGEST_LOG" = some " é=info" := by
    decide +kernel
  have hmodules : tornVariable.text? "VFS_DIGEST_LOG_MODULES" = none := by
    decide +kernel
  have houtput : tornVariable.text? "VFS_DIGEST_LOG_OUTPUT" = none := by
    decide +kernel
  have htorn : Directive.Torn (fun _ => none) " é=info".toList := by
    unfold Directive.Torn
    decide +kernel
  refine ⟨?_, Or.inr ⟨.modules nofun ?_, Or.inr ?_, ?_⟩, by decide +kernel⟩
  · rw [htext]
    rintro ⟨text, ⟨⟩, hall⟩
    obtain ⟨d, hd⟩ := hall " é=info".toList (by decide +kernel)
    cases hd.symm.trans htorn
  · rw [hmodules]
    exact nofun
  · decide
  · rw [LogOutput.Valid, houtput]
    decide

end FileDigest.Log
