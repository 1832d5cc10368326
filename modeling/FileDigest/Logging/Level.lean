import FileDigest.Decimal.Reader

/-!
# Log levels

How much is to be logged: from nothing over errors down to every detail. A level
is written as a word in any case or as a number from zero to five.
-/

namespace FileDigest

/-- How much is to be logged, and how grave an event is. -/
inductive LogLevel where
  | off
  | error
  | warn
  | info
  | debug
  | trace
deriving DecidableEq, Repr

namespace LogLevel

def verbosity : LogLevel → Nat
  | off => 0
  | error => 1
  | warn => 2
  | info => 3
  | debug => 4
  | trace => 5

def all : List LogLevel :=
  [off, error, warn, info, debug, trace]

def word : LogLevel → String
  | off => "off"
  | error => "error"
  | warn => "warn"
  | info => "info"
  | debug => "debug"
  | trace => "trace"

def label : LogLevel → String
  | off => "OFF"
  | error => "ERROR"
  | warn => "WARN"
  | info => "INFO"
  | debug => "DEBUG"
  | trace => "TRACE"

/-- The level that a word stands for, whatever the case of its ASCII letters. -/
def ofWord? (cs : List Char) : Option LogLevel :=
  all.find? fun level => cs.map Char.toLower == level.word.toList

/-- The level that a text stands for: a number where it reads like one, or else
a word. -/
def read? (cs : List Char) : Option LogLevel :=
  match (Decimal.unsigned? cs).bind fun n => all[n.toNat]? with
  | some level => some level
  | none => ofWord? cs

def allows (limit event : LogLevel) : Bool :=
  event.verbosity ≤ limit.verbosity

@[simp] theorem ofWord?_word (level : LogLevel) : ofWord? level.word.toList =
    some level := by
  cases level <;> decide +kernel

@[simp] theorem read?_word (level : LogLevel) : read? level.word.toList =
    some level := by
  cases level <;> decide +kernel

example : read? "WaRn".toList = some warn ∧ read? "+05".toList =
    some trace := by decide +kernel

example : read? "6".toList = none ∧ read? "verbose".toList = none := by
  decide +kernel

end LogLevel

end FileDigest
