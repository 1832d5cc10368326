import FileDigest.Logging.Entry
import FileDigest.Logging.Filter

/-!
# Loggers

A logger writes the entries that its filter allows, in one layout, to the
standard streams that it was given.
-/

namespace FileDigest

structure LogOutput where
  stdout : Bool
  stderr : Bool
deriving DecidableEq, Repr

namespace LogOutput

def nowhere : LogOutput :=
  ⟨false, false⟩

def named? (name : String) : Option LogOutput :=
  if name = "stdout" then some ⟨true, false⟩
  else if name = "stderr" then some ⟨false, true⟩
  else if name = "both" then some ⟨true, true⟩
  else none

end LogOutput

structure Logger where
  filter : LogFilter
  layout : LogLayout
  output : LogOutput
deriving DecidableEq, Repr

namespace Logger

def silent : Logger :=
  ⟨.upTo .off, .text true, .nowhere⟩

def allows (l : Logger) (e : LogEntry) : Bool :=
  l.filter.allows e.target e.fieldNames e.level

def lines (l : Logger) (time : String) (events : List Event) : List String :=
  ((events.map LogEntry.ofEvent).filter l.allows).map (l.layout.line time)

def stdoutLines (l : Logger) (time : String) (events : List Event) :
    List String :=
  if l.output.stdout then l.lines time events else []

def stderrLines (l : Logger) (time : String) (events : List Event) :
    List String :=
  if l.output.stderr then l.lines time events else []

@[simp] theorem stdoutLines_silent (time : String) (events : List Event) :
    silent.stdoutLines time events = [] := rfl

@[simp] theorem stderrLines_silent (time : String) (events : List Event) :
    silent.stderrLines time events = [] := rfl

end Logger

end FileDigest
