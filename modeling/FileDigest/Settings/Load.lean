import FileDigest.Disk.Basic
import FileDigest.Settings.Conversion
import FileDigest.Settings.Document
import FileDigest.Settings.Order
import FileDigest.Settings.Variable

/-!
# Loading settings

Settings come from the defaults, a file in the home of the user, a file that is
named, and the environment, of which a later one goes before an earlier one. The
file in the home is optional; one that cannot be found or read counts for
nothing, but one that is malformed is a fault. A file that is named must be
there. A path that is no regular file stands for one with a known extension
added.

What a run leaves open is given by a loader: in which order formats are tried,
how documents in other formats are read, and in which order the entries of
tables are met.
-/

namespace FileDigest

inductive LoadFailure where
  | fault (fault : ConfigFault)
  /-- The environment holds something that is no text, which stops the
  program. -/
  | foreignEnvironment
  /-- A setting is to be put where no array can have an item, which stops the
  program. -/
  | impossibleItem
  /-- The reader of a document in another format stops the program. -/
  | stoppedReader

/-- The occasions on which the tables of a tree are gone through: what a source
sets is put into the tree, the names at the root of the tree are read once more,
and the tree is converted. -/
inductive Occasion where
  | home
  | named
  | environment
  | gathered
  | converted
deriving DecidableEq, Repr

/-- What loading depends on besides files and the environment. -/
structure Loader where
  tried : List FileFormat
  tried_perm : tried.Perm FileFormat.all
  /-- What comes of the text of a document, given how it is named in faults. -/
  readOther : OtherFormat → String → String → DocumentReading
  order : Occasion → TableOrder

/-- The loader that keeps to the order in which things are written, and has no
readers for other formats. -/
def Loader.plain : Loader :=
  ⟨FileFormat.all, List.Perm.refl _, fun _ _ _ => .malformed, fun _ _ _ => 0⟩

def configHome (env : Environment) : Option Path :=
  match env.text? "XDG_CONFIG_HOME" with
  | some home =>
      if home.isEmpty then (env.text? "HOME").map fun home =>
        (Path.ofText home).join (.ofText ".config")
      else some (Path.ofText home)
  | none =>
      (env.text? "HOME").map fun home =>
        (Path.ofText home).join (.ofText ".config")

def globalFile (env : Environment) : Option Path :=
  (configHome env).map fun home => (home.join (.ofText "vfs-digest")).join
    (.ofText "config.toml")

def Disk.workingPath (disk : Disk) : Path :=
  Path.ofComponents (.root :: disk.working.map .name)

def Disk.fullPath (disk : Disk) (path : Path) : Path :=
  disk.workingPath.join path

/-- The path of a file as it is named in faults: relative to the working
directory, without dots that count for nothing. -/
def originOf (path : Path) : String :=
  (Path.ofComponents (path.components.filter (· ≠ .here))).text

def Loader.extensions (loader : Loader) : List (Bytes × FileFormat) :=
  loader.tried.flatMap fun format => format.extensions.map fun extension =>
    (extension, format)

section

variable (loader : Loader) (disk : Disk)

/-- The file that a path stands for, with its format. -/
def findDocument (path : Path) : Except ConfigFault (Path × FileFormat) :=
  if disk.isFile path then
    match FileFormat.ofExtension? ((path.extension?).getD []) with
    | some format => .ok (path, format)
    | none => .error (.unknownFormat (disk.fullPath path).text)
  else
    match loader.extensions.find? fun (suffix, _) =>
      disk.isFile (path.withSuffix (Path.dot :: suffix)) with
    | some (suffix, format) =>
        .ok (path.withSuffix (Path.dot :: suffix), format)
    | none => .error (.noFile path.text)

structure Source where
  format : FileFormat
  origin : String
  text : String

def readSource (path : Path) : Except ConfigFault Source :=
  match findDocument loader disk path with
  | .error fault => .error fault
  | .ok (path, format) =>
      match disk.content path with
      | .error e => .error (.stated e.text)
      | .ok content =>
          match Bytes.text? content with
          | some text => .ok ⟨format, originOf path, text⟩
          | none => .error .notText

def Source.settings (s : Source) :
    Except LoadFailure (List (String × Setting)) :=
  match s.format with
  | .document format =>
      match Setting.ofDocument? format s.origin s.text with
      | some entries => .ok entries
      | none => .error (.fault .malformed)
  | .other format =>
      match loader.readOther format s.origin s.text with
      | .entries entries => .ok entries
      | .malformed => .error (.fault .malformed)
      | .stopped => .error .stoppedReader

def optionalFile (path : Path) : Except LoadFailure (List (String × Setting)) :=
  match readSource loader disk path with
  | .ok source => source.settings loader
  | .error _ => .ok []

def requiredFile (path : Path) : Except LoadFailure (List (String × Setting)) :=
  match readSource loader disk path with
  | .ok source => source.settings loader
  | .error fault => .error (.fault fault)

end

def environmentLayer (env : Environment) :
    Except LoadFailure (List (String × Setting)) :=
  match env.texts? with
  | some vars => .ok (Variable.settings vars)
  | none => .error .foreignEnvironment

/-- What a source sets, in the order in which it is met. -/
def Loader.arrange (loader : Loader) (occasion : Occasion)
    (layer : Except LoadFailure (List (String × Setting))) :
    Except LoadFailure (List (String × Setting)) :=
  layer.map (Setting.arrangeEntries (loader.order occasion))

theorem Loader.arrange_ok (loader : Loader) (occasion : Occasion)
    (entries : List (String × Setting)) :
    loader.arrange occasion (.ok entries) =
      .ok (Setting.arrangeEntries (loader.order occasion) entries) := rfl

def addLayer (tree : Setting)
    (layer : Except LoadFailure (List (String × Setting))) :
    Except LoadFailure Setting :=
  match layer with
  | .error failure => .error failure
  | .ok entries =>
      match tree.assignAll entries with
      | some tree => .ok tree
      | none => .error .impossibleItem

def addLayers (tree : Setting) :
    List (Except LoadFailure (List (String × Setting))) →
    Except LoadFailure Setting
  | [] => .ok tree
  | layer :: rest =>
      match addLayer tree layer with
      | .ok tree => addLayers tree rest
      | .error failure => .error failure

namespace Settings

variable (loader : Loader)

/-- The settings of several sources, the first of which counts least. -/
def ofLayers (layers : List (Except LoadFailure (List (String × Setting)))) :
    Except LoadFailure Settings :=
  match addLayers Setting.emptyTable layers with
  | .error failure => .error failure
  | .ok tree =>
      match (tree.arrange (loader.order .gathered) []).settle with
      | none => .error .impossibleItem
      | some tree =>
          match ofSetting (tree.arrange (loader.order .converted) []) with
          | .ok settings => .ok settings
          | .error fault => .error (.fault fault)

variable (disk : Disk) (env : Environment)

def loadFromFile (path : Path) : Except LoadFailure Settings :=
  if disk.exists? path then
    ofLayers loader [loader.arrange .named (requiredFile loader disk path),
      loader.arrange .environment (environmentLayer env)]
  else .error (.fault (.missing path.text))

/-- The settings of the file in the home, a named file if there is one, and the
environment. -/
def load (explicit : Option Path) : Except LoadFailure Settings :=
  let home :=
    match globalFile env with
    | some path => [loader.arrange .home (optionalFile loader disk path)]
    | none => []
  let environment := loader.arrange .environment (environmentLayer env)
  match explicit with
  | none => ofLayers loader (home ++ [environment])
  | some path =>
      if disk.exists? path then
        ofLayers loader
          (home ++ [loader.arrange .named (requiredFile loader disk path),
            environment])
      else .error (.fault (.missing path.text))

end Settings

end FileDigest
