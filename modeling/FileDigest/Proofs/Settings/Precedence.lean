import FileDigest.Proofs.Disk.Resolution
import FileDigest.Proofs.Settings.Layers
import Mathlib.Data.Option.Basic

/-!
# Which source a setting is from

Settings are loaded from the file in the home of the user, a file that is named,
and the environment. If each of them sets what settings have, to values of the
right kind, then loading succeeds, and every setting is that of the highest
source that sets it: the environment goes before the named file, this before the
one in the home, and the defaults come last. No source takes anything away that
another one sets, whatever they have in common, and whatever order the run
leaves open (`Settings.load_precedence`).
-/

namespace FileDigest

variable {loader : Loader} {disk : Disk} {env : Environment} {path : Path}
  {format : FileFormat} {entries : List (String × Setting)}
  {explicit : Option Path}

/-- At a path is a document of a format with certain settings. -/
def Loader.FindsDocument (loader : Loader) (disk : Disk) (path : Path)
    (format : FileFormat) (entries : List (String × Setting)) : Prop :=
  ∃ content text, disk.content path = .ok content ∧
    Bytes.text? content = some text ∧
    Source.settings loader ⟨format, originOf path, text⟩ = .ok entries

namespace Loader.FindsDocument

theorem isFile (h : loader.FindsDocument disk path format entries) :
    disk.isFile path = true := by
  obtain ⟨content, text, hcontent, -⟩ := h
  obtain ⟨id, modified, hfind⟩ := Disk.find_of_content hcontent
  simp only [Disk.isFile, hfind]

theorem exists? (h : loader.FindsDocument disk path format entries) :
    disk.exists? path = true := by
  obtain ⟨content, text, hcontent, -⟩ := h
  obtain ⟨id, modified, hfind⟩ := Disk.find_of_content hcontent
  simp only [Disk.exists?, hfind]

/-- What a document sets is read from any path that stands for it. -/
theorem readSource (h : loader.FindsDocument disk path format entries)
    {path' : Path}
    (hpath : findDocument loader disk path' = .ok (path, format)) :
    ∃ source, readSource loader disk path' = .ok source ∧
    source.settings loader = .ok entries := by
  obtain ⟨content, text, hcontent, htext, hentries⟩ := h
  refine ⟨⟨format, originOf path, text⟩, ?_, hentries⟩
  simp only [FileDigest.readSource, hpath, hcontent, htext]

end Loader.FindsDocument

theorem findDocument_of_isFile (h : disk.isFile path = true)
    (hformat : FileFormat.ofExtension? (path.extension?.getD []) =
      some format) :
    findDocument loader disk path = .ok (path, format) := by
  simp only [findDocument, h, if_true, hformat]

/-- The file in the home is in TOML. -/
theorem format_globalFile (h : globalFile env = some path) :
    FileFormat.ofExtension? (path.extension?.getD []) =
      some (.document .toml) := by
  obtain ⟨home, -, rfl⟩ := Option.map_eq_some_iff.1 h
  have hdirectory : Path.IsName (Bytes.ofText "vfs-digest") := by decide +kernel
  have hfile : Path.IsName (Bytes.ofText "config.toml") := by decide +kernel
  have hcomponents :=
    Path.components_join (home.bytes_join_name_ne_nil hdirectory) hfile
  have hextension : FileFormat.ofExtension?
      ((Path.extensionOfName (Bytes.ofText "config.toml")).getD []) =
        some (.document .toml) := by
    decide +kernel
  simp only [Path.ofText, Path.extension?, Path.fileName?, hcomponents,
    List.getLast?_concat, Option.bind_some, hextension]

/-- What the file in the home of the user sets, which is nothing if there is no
file. Where one is missing, the first one of its name with a known extension
added stands for it. -/
def HomeSets (loader : Loader) (disk : Disk) (env : Environment)
    (entries : List (String × Setting)) : Prop :=
  match globalFile env with
  | none => entries = []
  | some path =>
      if disk.isFile path
      then loader.FindsDocument disk path (.document .toml) entries
      else
        match loader.extensions.find? fun (suffix, _) =>
          disk.isFile (path.withSuffix (Path.dot :: suffix)) with
        | some (suffix, format) =>
            loader.FindsDocument disk (path.withSuffix (Path.dot :: suffix))
              format entries
        | none => entries = []

def NamedSets (loader : Loader) (disk : Disk) (explicit : Option Path)
    (entries : List (String × Setting)) : Prop :=
  match explicit with
  | none => entries = []
  | some path =>
      ∃ format, FileFormat.ofExtension? (path.extension?.getD []) =
        some format ∧
    loader.FindsDocument disk path format entries

theorem optionalFile_of_homeSets (hglobal : globalFile env = some path)
    (h : HomeSets loader disk env entries) :
    optionalFile loader disk path = .ok entries := by
  simp only [HomeSets, hglobal] at h
  by_cases hfile : disk.isFile path
  · rw [if_pos hfile] at h
    obtain ⟨source, hsource, hentries⟩ :=
      h.readSource (findDocument_of_isFile hfile (format_globalFile hglobal))
    simp only [optionalFile, hsource, hentries]
  · rw [if_neg hfile] at h
    split at h
    · rename_i suffix format hfind
      have hdocument : findDocument loader disk path =
          .ok (path.withSuffix (Path.dot :: suffix), format) := by
        simp only [findDocument, hfile, Bool.false_eq_true, if_false, hfind]
      obtain ⟨source, hsource, hentries⟩ := h.readSource hdocument
      simp only [optionalFile, hsource, hentries]
    · rename_i hfind
      subst h
      simp only [optionalFile, readSource, findDocument, hfile,
        Bool.false_eq_true, if_false, hfind]

theorem requiredFile_of_namedSets
    (h : NamedSets loader disk (some path) entries) :
    disk.exists? path = true ∧ requiredFile loader disk path = .ok entries := by
  obtain ⟨format, hformat, hdocument⟩ := h
  obtain ⟨source, hsource, hentries⟩ :=
    hdocument.readSource (findDocument_of_isFile hdocument.isFile hformat)
  refine ⟨hdocument.exists?, ?_⟩
  simp only [requiredFile, hsource, hentries]

def homeLayers (loader : Loader) (disk : Disk) (env : Environment) :
    List (Except LoadFailure (List (String × Setting))) :=
  match globalFile env with
  | some path => [loader.arrange .home (optionalFile loader disk path)]
  | none => []

def namedLayers (loader : Loader) (disk : Disk) (explicit : Option Path) :
    List (Except LoadFailure (List (String × Setting))) :=
  match explicit with
  | some path => [loader.arrange .named (requiredFile loader disk path)]
  | none => []

theorem tells_home (h : HomeSets loader disk env entries)
    (hfits : Schema.settings.Fits (.table none entries)) :
    Tells (homeLayers loader disk env) (Setting.table none entries).leaf? := by
  unfold homeLayers
  cases hglobal : globalFile env with
  | none =>
      obtain rfl : entries = [] := by simpa only [HomeSets, hglobal] using h
      exact tells_empty
  | some path =>
      simp only [optionalFile_of_homeSets hglobal h]
      exact tells_entries hfits _

theorem tells_named (h : NamedSets loader disk explicit entries)
    (hfits : Schema.settings.Fits (.table none entries)) :
    Tells (namedLayers loader disk explicit)
      (Setting.table none entries).leaf? := by
  cases explicit with
  | none =>
      obtain rfl : entries = [] := h
      exact tells_empty
  | some path =>
      simp only [namedLayers, (requiredFile_of_namedSets h).2]
      exact tells_entries hfits _

namespace Settings

/-- Sources are put together if the file that is named is there. -/
theorem load_of_found (loader : Loader) (env : Environment)
    (h : ∀ path, explicit = some path → disk.exists? path = true) :
    load loader disk env explicit =
      ofLayers loader (homeLayers loader disk env ++
        (namedLayers loader disk explicit ++
          [loader.arrange .environment (environmentLayer env)])) := by
  cases explicit with
  | none => rfl
  | some path =>
      unfold load
      simp only [h path rfl, if_true]
      rfl

theorem load_eq_ofLayers (env : Environment)
    (h : NamedSets loader disk explicit entries) :
    load loader disk env explicit =
      ofLayers loader (homeLayers loader disk env ++
        (namedLayers loader disk explicit ++
          [loader.arrange .environment (environmentLayer env)])) := by
  refine load_of_found loader env fun path hpath => ?_
  subst hpath
  exact (requiredFile_of_namedSets h).1

/-- Every setting is that of the highest source that sets it, in whatever order
formats are tried and tables are gone through. -/
theorem load_precedence (loader : Loader) (disk : Disk) (env : Environment)
    (explicit : Option Path) {vars : List (String × String)}
    {home named : List (String × Setting)}
    (hvars : env.texts? = some vars) (henv : Variable.WellTyped vars)
    (hhome : HomeSets loader disk env home)
    (hhomeFits : Schema.settings.Fits (.table none home))
    (hnamed : NamedSets loader disk explicit named)
    (hnamedFits : Schema.settings.Fits (.table none named)) :
    ∃ s, load loader disk env explicit = .ok s ∧
    (s.logging.modules.map Prod.fst).Nodup ∧
      ∀ path, Schema.IsKey path → s.tree.leaf? path =
        [Variable.value? vars, (Setting.table none named).leaf?,
          (Setting.table none home).leaf?,
            default.tree.leaf?].findSome? fun source => source path := by
  have htells := (tells_home hhome hhomeFits).append
    ((tells_named hnamed hnamedFits).append
      (tells_environment hvars henv loader))
  obtain ⟨s, hs, hfits, hleaf⟩ := htells.ofLayers loader
  refine ⟨s, (load_eq_ofLayers env hnamed).trans hs,
    nodup_modules_of_fits hfits, fun path hpath => ?_⟩
  have hcons : ∀ (leaf : List String → Option Scalar)
      (leaves : List (List String → Option Scalar)),
      ((leaf :: leaves).findSome? fun source => source path) =
        (leaf path).or (leaves.findSome? fun source => source path) := by
    intro leaf leaves
    rw [List.findSome?_cons]
    cases leaf path <;> rfl
  rw [hleaf path hpath, Option.or_assoc, Option.or_assoc, hcons, hcons, hcons,
    hcons, List.findSome?_nil, Option.or_none]

/-- A setting in the home, which the environment sets too, and the levels of two
modules. -/
def homeText : String :=
  "[cache]\nmax_entries = 5\n[logging.modules]\nwalk = \"debug\"\ntree = \"warn\"\n"

/-- A level, and that of a module which has one in the home too. -/
def hereText : String :=
  "\x7b\"logging\": \x7b\"level\": \"error\", \"modules\": \x7b\"tree\": \"info\"\x7d\x7d\x7d"

def homeEntries (origin : String) : List (String × Setting) :=
  (Setting.ofDocument? .toml origin homeText).getD []

def hereEntries (origin : String) : List (String × Setting) :=
  (Setting.ofDocument? .json origin hereText).getD []

theorem ofDocument?_homeText :
    Setting.ofDocument? .toml "/home/.config/vfs-digest/config.toml" homeText =
      some (homeEntries "/home/.config/vfs-digest/config.toml") :=
  (Option.eq_some_of_isSome (by decide +kernel)).trans
    (congrArg some (Option.get_eq_getD _))

theorem ofDocument?_hereText :
    Setting.ofDocument? .json "here.json" hereText =
      some (hereEntries "here.json") :=
  (Option.eq_some_of_isSome (by decide +kernel)).trans
    (congrArg some (Option.get_eq_getD _))

/-- The files of a user whose home is the working directory: the one of the
library in the home, and `here.json`. -/
def userFiles : Disk :=
  let directory (id : UInt64) (entries : List (Bytes × Node)) :=
    Node.directory id true entries
  let file (id : UInt64) (text : String) :=
    Node.file id Timestamp.epoch (Bytes.ofText text)
  let vfsDigest := directory 4 [(Bytes.ofText "config.toml", file 5 homeText)]
  let config := directory 3 [(Bytes.ofText "vfs-digest", vfsDigest)]
  let entries := [(Bytes.ofText ".config", config),
    (Bytes.ofText "here.json", file 6 hereText)]
  ⟨directory 1 [(Bytes.ofText "home", directory 2 entries)],
    [Bytes.ofText "home"]⟩

/-- Variables for the way to the home and for a setting. -/
def twoVariables : List (String × String) :=
  [("HOME", "/home"), ("VFS_DIGEST__CACHE__MAX_ENTRIES", "7")]

def twoVariablesEnvironment : Environment :=
  twoVariables.map fun v => (Bytes.ofText v.1, Bytes.ofText v.2)

theorem wellTyped_twoVariables : Variable.WellTyped twoVariables := by
  refine ⟨?_, by decide +kernel⟩
  intro v hv hsome
  rcases List.mem_cons.1 hv with rfl | hv
  · exact absurd hsome (by decide +kernel)
  · obtain rfl := List.mem_singleton.1 hv
    exact ⟨["cache", "max_entries"], by decide +kernel, by decide +kernel,
      .integer, rfl, by decide +kernel⟩

theorem homeSets_userFiles :
    HomeSets .plain userFiles twoVariablesEnvironment
      (homeEntries "/home/.config/vfs-digest/config.toml") := by
  have hglobal : globalFile twoVariablesEnvironment =
      some (.ofText "/home/.config/vfs-digest/config.toml") := by
    decide +kernel
  have horigin : originOf (.ofText "/home/.config/vfs-digest/config.toml") =
      "/home/.config/vfs-digest/config.toml" := by
    decide +kernel
  simp only [HomeSets, hglobal]
  rw [if_pos (by decide +kernel)]
  refine ⟨Bytes.ofText homeText, homeText, by decide +kernel, by
    decide +kernel, ?_⟩
  simp only [Source.settings, horigin, ofDocument?_homeText]

theorem namedSets_userFiles :
    NamedSets .plain userFiles (some (.ofText "here.json"))
      (hereEntries "here.json") := by
  have horigin : originOf (.ofText "here.json") = "here.json" := by
    decide +kernel
  refine ⟨.document .json, by decide +kernel, Bytes.ofText hereText, hereText,
    by decide +kernel, by decide +kernel, ?_⟩
  simp only [Source.settings, horigin, ofDocument?_hereText]

def textOf? : Scalar → Option String
  | .text s => some s
  | _ => none

theorem eq_text_of_textOf? {leaf : Option Scalar} {s : String}
    (h : leaf.bind textOf? = some s) : leaf = some (.text s) := by
  obtain ⟨scalar, rfl, hscalar⟩ := Option.bind_eq_some_iff.1 h
  cases scalar <;> cases hscalar
  rfl

theorem load_precedence_three_sources :
    ∃ s, load .plain userFiles twoVariablesEnvironment
      (some (.ofText "here.json")) = .ok s ∧
      s.cache.maxEntries.toNat = 7 ∧ s.logging.level = "error" ∧
      s.logging.format = "text" ∧
      s.logging.modules.lookup "walk" = some "debug" ∧
      s.logging.modules.lookup "tree" = some "info" := by
  have hvars : twoVariablesEnvironment.texts? = some twoVariables := by
    decide +kernel
  obtain ⟨s, hs, -, hleaf⟩ :=
    load_precedence .plain userFiles twoVariablesEnvironment
      (some (.ofText "here.json")) hvars wellTyped_twoVariables
      homeSets_userFiles (by decide +kernel) namedSets_userFiles
      (by decide +kernel)
  have hset : Variable.value? twoVariables ["cache", "max_entries"] =
      some (.integer 7) := by
    unfold twoVariables
    rw [Variable.value?_cons, if_neg (by decide +kernel), Variable.value?_cons,
      if_pos (by decide +kernel)]
    rfl
  have hmax := hleaf ["cache", "max_entries"] rfl
  rw [List.findSome?_cons, hset] at hmax
  have hlevel : s.tree.leaf? ["logging", "level"] = some (.text "error") :=
    (hleaf ["logging", "level"] rfl).trans
      (eq_text_of_textOf? (by decide +kernel))
  have hformat : s.tree.leaf? ["logging", "format"] = some (.text "text") :=
    (hleaf ["logging", "format"] rfl).trans
      (eq_text_of_textOf? (by decide +kernel))
  have hwalk : s.tree.leaf? ["logging", "modules", "walk"] =
      some (.text "debug") :=
    (hleaf ["logging", "modules", "walk"] rfl).trans
      (eq_text_of_textOf? (by decide +kernel))
  have htree : s.tree.leaf? ["logging", "modules", "tree"] =
      some (.text "info") :=
    (hleaf ["logging", "modules", "tree"] rfl).trans
      (eq_text_of_textOf? (by decide +kernel))
  rw [leaf?_module] at hwalk htree
  refine ⟨s, hs, ?_, ?_, ?_, ?_, ?_⟩
  · exact Int.ofNat.inj (Scalar.integer.inj (Option.some.inj hmax))
  · exact Scalar.text.inj (Option.some.inj hlevel)
  · exact Scalar.text.inj (Option.some.inj hformat)
  · exact Option.map_injective (fun _ _ heq => Scalar.text.inj heq) hwalk
  · exact Option.map_injective (fun _ _ heq => Scalar.text.inj heq) htree

end Settings

end FileDigest
