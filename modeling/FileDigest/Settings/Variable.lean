import FileDigest.Decimal.Nearest
import FileDigest.Environment
import FileDigest.Settings.Setting

/-!
# Settings in the environment

A variable whose name begins with the given mark, in any case, sets what the
rest of its name leads to, where two underscores stand for a step. Its value is
a truth value, an integer or a double if it reads like one, and a text
otherwise.
-/

namespace FileDigest.Variable

/-- What the name of a setting begins with, in lower case. -/
def mark : List Char :=
  "vfs_digest__".toList

def origin : String :=
  "the environment"

/-- Two underscores as a dot, from left to right. -/
def dotted : List Char → List Char
  | '_' :: '_' :: rest => '.' :: dotted rest
  | c :: rest => c :: dotted rest
  | [] => []

def settingName? (name : String) : Option String :=
  let cs := (Text.lower name).toList
  (mark.isPrefixOf? cs).map fun rest => String.ofList (dotted rest)

def scalar (value : String) : Scalar :=
  let word := Text.lower value
  if word = "true" then .bool true
  else if word = "false" then .bool false
  else
    match Decimal.signed? value.toList, Decimal.float? value.toList with
    | some i, _ => .integer i
    | none, some x => .float x
    | none, none => .text value

/-- The settings of all variables, of which a later one takes the place of an
earlier one for the same setting. -/
def settings (vars : List (String × String)) : List (String × Setting) :=
  vars.foldl (fun entries (name, value) =>
    match settingName? name with
    | some key =>
        Setting.putEntry key (.scalar (some origin) (scalar value)) entries
    | none => entries) []

example : settingName? "Vfs_Digest__CACHE__MAX_ENTRIES" =
    some "cache.max_entries" := by
  decide +kernel

example : settingName? "VFS_DIGEST_LOG" = none := by decide +kernel

end FileDigest.Variable
