import FileDigest.Decimal.Double
import FileDigest.Decimal.Shortest
import FileDigest.Error
import FileDigest.Settings.Basic
import FileDigest.Settings.Setting
import FileDigest.Settings.SettingPath

/-!
# From trees to settings

Values are converted generously. A number, a truth value and a word can stand
for each other where that makes sense: a double is rounded and kept in range
where a whole number is wanted, and the words for yes and no are known. A record
can be given as a table or as an array of its fields in their order. A fault
names the setting by its path, and where it comes from.
-/

namespace FileDigest

def boolText (b : Bool) : String :=
  if b then "true" else "false"

/-- What a word says, whatever its case. -/
def wordBool? (s : String) : Option Bool :=
  let w := Text.lower s
  if w = "true" ∨ w = "on" ∨ w = "yes" then some true
  else if w = "false" ∨ w = "off" ∨ w = "no" then some false
  else none

/-- A path with a step in front. A dot stands between two names only. -/
def PathStep.joinKey (rest : String) : PathStep → String
  | .child name =>
      if rest.isEmpty ∨ rest.toList.head? = some '[' then name ++ rest
      else name ++ "." ++ rest
  | .item index => "[" ++ toString index ++ "]" ++ rest

/-- A fault below a step. A fault of shape names no setting. -/
def ConfigFault.below (step : PathStep) : ConfigFault → ConfigFault
  | .wrongKind found wanted key origin =>
      .wrongKind found wanted (some (step.joinKey (key.getD ""))) origin
  | fault => fault

namespace Setting

def origin : Setting → Option String
  | scalar origin _ => origin
  | table origin _ => origin
  | array origin _ => origin

def foundPart : Setting → Found
  | table _ _ => .map
  | array _ _ => .sequence
  | scalar _ (.text s) => .text s
  | scalar _ (.bool b) => .boolean b
  | scalar _ (.integer i) => .integer64 i
  | scalar _ (.float x) => .floating (Decimal.floatText x)
  | scalar _ .nil => .unit

def wrongKind (v : Setting) (found : Found) (wanted : Wanted) : ConfigFault :=
  .wrongKind found wanted none v.origin

def toUnsigned (v : Setting) : Except ConfigFault UInt64 :=
  match v with
  | scalar _ (.integer i) =>
      if 0 ≤ i ∧ i < wordLimit then .ok (UInt64.ofNat i.toNat)
      else .error (v.wrongKind (.integer64 i) .unsigned)
  | scalar _ (.float x) => .ok (Decimal.toWord x)
  | scalar _ (.bool b) => .ok (if b then 1 else 0)
  | scalar _ (.text s) =>
      match wordBool? s, Decimal.unsigned? s.toList with
      | some b, _ => .ok (if b then 1 else 0)
      | none, some n => .ok n
      | none, none => .error (v.wrongKind (.text s) .integer)
  | _ => .error (v.wrongKind v.foundPart .integer)

def toBool (v : Setting) : Except ConfigFault Bool :=
  match v with
  | scalar _ (.integer i) => .ok (i ≠ 0)
  | scalar _ (.float x) => .ok !(x == 0.0)
  | scalar _ (.bool b) => .ok b
  | scalar _ (.text s) =>
      let w := Text.lower s
      if w = "1" then .ok true
      else if w = "0" then .ok false
      else
        match wordBool? s with
        | some b => .ok b
        | none => .error (v.wrongKind (.text w) .boolean)
  | _ => .error (v.wrongKind v.foundPart .boolean)

def toText (v : Setting) : Except ConfigFault String :=
  match v with
  | scalar _ (.text s) => .ok s
  | scalar _ (.integer i) => .ok (toString i)
  | scalar _ (.float x) => .ok (Decimal.floatText x)
  | scalar _ (.bool b) => .ok (boolText b)
  | _ => .error (v.wrongKind v.foundPart .text)

/-- A double as it is shown where a record or a map was wanted: a whole number
has a point. -/
def shapeFloat (x : Float) : String :=
  let t := Decimal.floatText x
  if x.isFinite && !t.toList.contains '.' then t ++ ".0" else t

def foundShape : Setting → Found
  | table _ _ => .map
  | array _ _ => .sequence
  | scalar _ (.text s) => .text s
  | scalar _ (.bool b) => .boolean b
  | scalar _ (.integer i) => .integer i
  | scalar _ (.float x) => .floating (shapeFloat x)
  | scalar _ .nil => .unit

/-- What the value of a field makes of a record, or a fault. -/
abbrev FieldReader (α : Type) := Setting → Except ConfigFault (α → α)

def FieldReader.of {α β : Type} (convert : Setting → Except ConfigFault β)
    (put : β → α → α) : FieldReader α :=
  fun v => (convert v).map put

section

variable {α : Type}

/-- What the fields of a record make of it, in the order in which they are met,
each with the step that leads to it. The entries of a table are met by their
names, those that name no field are passed over, and the items of an array are
met in the order of the fields. -/
def fields (record : String) (readers : List (String × FieldReader α))
    (v : Setting) :
    Except ConfigFault (List (PathStep × Except ConfigFault (α → α))) :=
  match v with
  | table _ entries =>
      .ok <| entries.filterMap fun (name, v) =>
        (readers.lookup name).map fun read => (.child name, read v)
  | array _ items =>
      .ok <| (readers.zip items).mapIdx fun i (reader, v) =>
        (.item i, reader.2 v)
  | v => .error (.wrongShape v.foundShape (.record record))

def changeEach (a : α) : List (PathStep × Except ConfigFault (α → α)) →
    Except ConfigFault α
  | [] => .ok a
  | (_, .ok change) :: rest => changeEach (change a) rest
  | (step, .error fault) :: _ => .error (fault.below step)

/-- The record of a tree. A field that is not met keeps its default. -/
def toRecord (record : String) (readers : List (String × FieldReader α))
    (default : α) (v : Setting) : Except ConfigFault α :=
  match v.fields record readers with
  | .ok changes => changeEach default changes
  | .error fault => .error fault

end

def entryTexts : List (String × Setting) →
    Except ConfigFault (List (String × String))
  | [] => .ok []
  | (name, v) :: rest =>
      match v.toText, entryTexts rest with
      | .ok t, .ok texts => .ok ((name, t) :: texts)
      | .error fault, _ => .error (fault.below (.child name))
      | _, .error fault => .error fault

def toTexts (v : Setting) : Except ConfigFault (List (String × String)) :=
  match v with
  | table _ entries => entryTexts entries
  | v => .error (.wrongShape v.foundShape .map)

end Setting

open Setting

def CacheSettings.readers : List (String × FieldReader CacheSettings) :=
  [("max_entries", .of toUnsigned fun n s => { s with maxEntries := n })]

def CacheSettings.ofSetting (v : Setting) : Except ConfigFault CacheSettings :=
  v.toRecord "CacheConfig" readers default

def ResolverSettings.readers : List (String × FieldReader ResolverSettings) :=
  [("large_file_threshold", .of toUnsigned fun n s =>
    { s with largeFileThreshold := n })]

def ResolverSettings.ofSetting (v : Setting) :
    Except ConfigFault ResolverSettings :=
  v.toRecord "ResolverConfig" readers default

def LogSettings.readers : List (String × FieldReader LogSettings) :=
  [("enabled", .of toBool fun b s => { s with enabled := b }),
    ("level", .of toText fun t s => { s with level := t }),
    ("format", .of toText fun t s => { s with format := t }),
    ("output", .of toText fun t s => { s with output := t }),
    ("color", .of toBool fun b s => { s with color := b }),
    ("modules", .of toTexts fun ts s => { s with modules := ts })]

def LogSettings.ofSetting (v : Setting) : Except ConfigFault LogSettings :=
  v.toRecord "LoggingConfig" readers default

def Settings.readers : List (String × FieldReader Settings) :=
  [("cache", .of CacheSettings.ofSetting fun c s => { s with cache := c }),
    ("resolver", .of ResolverSettings.ofSetting fun r s =>
      { s with resolver := r }),
    ("logging", .of LogSettings.ofSetting fun l s => { s with logging := l })]

/-- The settings of a tree. Of several faults the one that is met first
counts. -/
def Settings.ofSetting (v : Setting) : Except ConfigFault Settings :=
  v.toRecord "DigestConfig" readers default

end FileDigest
