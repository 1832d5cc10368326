import FileDigest.Environment
import FileDigest.Logging.Logger
import FileDigest.Settings.Basic

/-!
# Setting up the log

A process has one logger. It is made of the log settings, where any are given,
and of variables of the environment, which go before them, and once it is
installed it stays: a second attempt fails.

A variable with a whole filter counts only if all of it is well-formed, and it
then stands alone. Otherwise the level in the settings is read as a filter,
without its faulty directives, to which the levels of single modules are added,
first those in the settings and then those in the environment. A level that is
exactly `off` ends the matter: nothing is logged, whatever the modules say.
-/

namespace FileDigest

inductive LogFailure where
  | fault (fault : ConfigFault)
  /-- A directive had to be cut inside a character, which stops the program. -/
  | tornDirective
deriving DecidableEq, Repr

namespace LogFilter

def ofVariable (patterns : ValuePatterns) (text : Option String) :
    Except LogFailure (Option LogFilter) :=
  match text with
  | none => .ok none
  | some text =>
      match readStrictly patterns (pieces text.toList) with
      | .ok ds => .ok (some (ofDirectives ds))
      | .error (.fault _) => .ok none
      | .error .torn => .error .tornDirective

def addModule (patterns : ValuePatterns) (fromEnvironment : Bool)
    (f : LogFilter) (name level : List Char) : Except LogFailure LogFilter :=
  match Directive.read patterns (name ++ '=' :: level) with
  | .ok d => .ok (f.add d)
  | .error (.fault fault) => .error (.fault (.directive fromEnvironment fault))
  | .error .torn => .error .tornDirective

def addModules (patterns : ValuePatterns) (fromEnvironment : Bool)
    (f : LogFilter) :
    List (List Char × List Char) → Except LogFailure LogFilter
  | [] => .ok f
  | (name, level) :: rest =>
      match addModule patterns fromEnvironment f name level with
      | .ok f => addModules patterns fromEnvironment f rest
      | .error e => .error e

/-- The modules with levels that a variable of the environment gives: the texts
between commas that have just one equals sign, without blanks around its two
sides. -/
def modulesOf (text : List Char) : List (List Char × List Char) :=
  (piecesBetween ',' text).filterMap fun p =>
    match piecesBetween '=' p with
    | [name, level] => some (Text.trim name, Text.trim level)
    | _ => none

def withModules (patterns : ValuePatterns) (f : LogFilter)
    (settings : Option LogSettings) (moduleText : Option String) :
    Except LogFailure LogFilter :=
  let modules :=
    match settings with
    | some s => s.modules.map fun (name, level) => (name.toList, level.toList)
    | none => []
  match addModules patterns false f modules with
  | .error e => .error e
  | .ok f =>
      match moduleText with
      | some text => addModules patterns true f (modulesOf text.toList)
      | none => .ok f

def levelText (settings : Option LogSettings) : String :=
  match settings with
  | some s => s.level
  | none => LogSettings.default.level

/-- The filter of the settings and the environment, with the notices of what was
left out. -/
def ofSettings (patterns : ValuePatterns) (env : Environment)
    (settings : Option LogSettings) :
    Except LogFailure LogFilter × List Notice :=
  match ofVariable patterns (env.text? "VFS_DIGEST_LOG") with
  | .error e => (.error e, [])
  | .ok (some f) => (.ok f, [])
  | .ok none =>
      if levelText settings = "off" then (.ok (upTo .off), [])
      else
        let reading :=
          readLeniently patterns (pieces (levelText settings).toList)
        if reading.torn then (.error .tornDirective, reading.notices)
        else
          (withModules patterns (ofDirectives reading.directives) settings
            (env.text? "VFS_DIGEST_LOG_MODULES"), reading.notices)

end LogFilter

def LogLayout.named? (color : Bool) (name : String) : Option LogLayout :=
  if name = "json" then some .json
  else if name = "text" then some (.text color)
  else none

/-- The layout of the settings and the environment. A variable counts only if it
names a layout. -/
def LogLayout.ofSettings (env : Environment) (settings : Option LogSettings) :
    Except LogFailure LogLayout :=
  let s := settings.getD .default
  match (env.text? "VFS_DIGEST_LOG_FORMAT").bind (LogLayout.named? s.color) with
  | some layout => .ok layout
  | none =>
      match LogLayout.named? s.color s.format with
      | some layout => .ok layout
      | none => .error (.fault (.logFormat s.format))

/-- The streams of the settings and the environment. A variable counts even if
it names none. -/
def LogOutput.ofSettings (env : Environment) (settings : Option LogSettings) :
    Except LogFailure LogOutput :=
  let name := (env.text? "VFS_DIGEST_LOG_OUTPUT").getD
    (settings.getD .default).output
  match LogOutput.named? name with
  | some output => .ok output
  | none => .error (.fault (.logOutput name))

namespace Logger

/-- The logger of the settings and the environment, with the notices of
what was left out of its filter. Settings that turn the log off are not
read any further. -/
def ofSettings (patterns : ValuePatterns) (env : Environment)
    (settings : Option LogSettings) :
    Except LogFailure Logger × List LogFilter.Notice :=
  if (settings.getD .default).enabled then
    match LogFilter.ofSettings patterns env settings with
    | (.error e, notices) => (.error e, notices)
    | (.ok filter, notices) =>
        match LogLayout.ofSettings env settings,
          LogOutput.ofSettings env settings with
        | .ok layout, .ok output => (.ok ⟨filter, layout, output⟩, notices)
        | .error e, _ => (.error e, notices)
        | _, .error e => (.error e, notices)
  else (.ok silent, [])

end Logger

structure Log where
  installed : Option Logger
  notices : List LogFilter.Notice
deriving DecidableEq, Repr

namespace Log

def initial : Log :=
  ⟨none, []⟩

def install (patterns : ValuePatterns) (log : Log) (env : Environment)
    (settings : Option LogSettings) : Except LogFailure Unit × Log :=
  let (made, notices) := Logger.ofSettings patterns env settings
  let log := { log with notices := log.notices ++ notices }
  match made, log.installed with
  | .error e, _ => (.error e, log)
  | .ok _, some _ => (.error (.fault .alreadyInstalled), log)
  | .ok logger, none => (.ok (), { log with installed := some logger })

/-- Attempts to install loggers one after the other. One that stops the program
is the last. -/
def installEach (patterns : ValuePatterns) (log : Log) :
    List (Environment × Option LogSettings) →
    List (Except LogFailure Unit) × Log
  | [] => ([], log)
  | (env, settings) :: rest =>
      match log.install patterns env settings with
      | (.error .tornDirective, log) => ([.error .tornDirective], log)
      | (answer, log) =>
          let (answers, log) := log.installEach patterns rest
          (answer :: answers, log)

def stdoutLines (log : Log) (time : String) (events : List Event) :
    List String :=
  match log.installed with
  | some logger => logger.stdoutLines time events
  | none => []

def stderrLines (log : Log) (time : String) (events : List Event) :
    List String :=
  log.notices.map LogFilter.Notice.line ++
    match log.installed with
    | some logger => logger.stderrLines time events
    | none => []

end Log

end FileDigest
