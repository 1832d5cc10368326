import FileDigest.Bytes.Utf8
import FileDigest.Json.Number
import FileDigest.Json.Reader
import FileDigest.Settings.Setting
import FileDigest.Toml.Document

/-!
# Documents of settings

A document is a table of settings in TOML or in JSON. In JSON a name that is
repeated has its last value, a number that is no integer of 64 bits is a double,
and what cannot be told, such as half a surrogate pair or a number beyond all
doubles, makes the document malformed, as does nesting of more than 127.

Files may have other formats too, of which nothing is said here: how they are
read is left to whoever reads them.
-/

namespace FileDigest

/-- The formats whose documents are read here. -/
inductive DocumentFormat where
  | toml
  | json
deriving DecidableEq, Repr

/-- The formats whose documents others read. -/
inductive OtherFormat where
  | yaml
  | ini
  | ron
  | json5
deriving DecidableEq, Repr

inductive FileFormat where
  | document (format : DocumentFormat)
  | other (format : OtherFormat)
deriving DecidableEq, Repr

namespace FileFormat

def all : List FileFormat :=
  [.document .toml, .document .json, .other .yaml, .other .ini, .other .ron,
    .other .json5]

def extensions : FileFormat → List Bytes
  | .document .toml => [Bytes.ofText "toml"]
  | .document .json => [Bytes.ofText "json"]
  | .other .yaml => [Bytes.ofText "yaml", Bytes.ofText "yml"]
  | .other .ini => [Bytes.ofText "ini"]
  | .other .ron => [Bytes.ofText "ron"]
  | .other .json5 => [Bytes.ofText "json5"]

def ofExtension? (extension : Bytes) : Option FileFormat :=
  all.find? fun format => format.extensions.contains extension

end FileFormat

/-- What comes of a document that others read. -/
inductive DocumentReading where
  | entries (entries : List (String × Setting))
  | malformed
  | stopped

namespace Setting

mutual

def ofToml (origin : Option String) : Toml.Value → Setting
  | .text s => scalar origin (.text s)
  | .integer i => scalar origin (.integer i)
  | .float x => scalar origin (.float x)
  | .bool b => scalar origin (.bool b)
  | .dateTime s => scalar origin (.text s)
  | .array items => array origin (ofTomlItems origin items)
  | .table entries => table origin (ofTomlEntries origin entries)

def ofTomlItems (origin : Option String) : List Toml.Value → List Setting
  | [] => []
  | v :: rest => ofToml origin v :: ofTomlItems origin rest

def ofTomlEntries (origin : Option String) :
    List (String × Toml.Value) → List (String × Setting)
  | [] => []
  | (key, v) :: rest => (key, ofToml origin v) :: ofTomlEntries origin rest

end

mutual

def ofJson? (origin : Option String) : Nat → Json.Value → Option Setting
  | _, .null => some (scalar origin .nil)
  | _, .bool b => some (scalar origin (.bool b))
  | _, .number n =>
      n.number?.map fun
        | .integer i => scalar origin (.integer i)
        | .float x => scalar origin (.float x)
  | _, .text t => t.map fun s => scalar origin (.text s)
  | 0, _ => none
  | depth + 1, .array items =>
      (ofJsonItems? origin depth items).map (array origin)
  | depth + 1, .object members =>
      (ofJsonMembers? origin depth [] members).map (table origin)

def ofJsonItems? (origin : Option String) : Nat → List Json.Value →
    Option (List Setting)
  | _, [] => some []
  | depth, v :: rest =>
      match ofJson? origin depth v, ofJsonItems? origin depth rest with
      | some s, some items => some (s :: items)
      | _, _ => none

/-- The entries so far with the trees of the members of a JSON object. -/
def ofJsonMembers? (origin : Option String) : Nat → List (String × Setting) →
    List (Json.Text × Json.Value) → Option (List (String × Setting))
  | _, entries, [] => some entries
  | depth, entries, (name, v) :: rest =>
      match name, ofJson? origin depth v with
      | some name, some s =>
          ofJsonMembers? origin depth (putEntry name s entries) rest
      | _, _ => none

end

def jsonDepth : Nat := 127

/-- The entries of a document, each with the origin; nothing if it is malformed
or no table. -/
def ofDocument? (format : DocumentFormat) (origin : String) (text : String) :
    Option (List (String × Setting)) :=
  match format with
  | .toml => (Toml.read? text).map (ofTomlEntries (some origin))
  | .json =>
      match (Json.read? text).bind (ofJson? (some origin) jsonDepth) with
      | some (table _ entries) => some entries
      | _ => none

end Setting

end FileDigest
