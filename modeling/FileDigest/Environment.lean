import FileDigest.Bytes.Utf8

/-!
# Environments

The environment of a process is a list of names with values. Both are byte
strings, and whoever asks for a variable as text gets nothing when its value is
none. Should a name stand in the list twice, then its first value counts.
-/

namespace FileDigest

/-- The variables of a process, in order. -/
abbrev Environment := List (Bytes × Bytes)

namespace Environment

def get? (env : Environment) (name : Bytes) : Option Bytes :=
  env.lookup name

def text? (env : Environment) (name : String) : Option String :=
  (env.get? (Bytes.ofText name)).bind Bytes.text?

/-- All variables as text, or nothing if any name or value is none. -/
def texts? (env : Environment) : Option (List (String × String)) :=
  env.mapM fun (name, value) =>
    match Bytes.text? name, Bytes.text? value with
    | some name, some value => some (name, value)
    | _, _ => none

@[simp] theorem texts?_nil : texts? [] = some [] := rfl

end Environment

end FileDigest
