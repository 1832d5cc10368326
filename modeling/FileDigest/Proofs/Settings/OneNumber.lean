import FileDigest.Proofs.Json.Reading
import FileDigest.Proofs.Json.Writing
import FileDigest.Proofs.Settings.Outcomes

/-!
# Numbers from their text to the settings

The two settings that are numbers can be set by a variable, or by a document of
one line that holds nothing else. The variable sets what `Route.read?` tells of
its text (`value?_text`), and so does the document, unless the number makes it
malformed (`ofDocument?_document`). Together with what becomes of numbers on the
three routes, and with the way sources are put together, this tells which
numbers are loaded (`Settings.load_numbers`).

The settings are words, and yet a number is read as a double as soon as it is no
integer of 64 bits with a sign. So the words beyond these lose their last bits,
and fractions and large negative numbers become words too, instead of being
refused as smaller negative integers are.
-/

namespace FileDigest

open Decimal

def DocumentFormat.route : DocumentFormat → Route
  | .toml => .toml
  | .json => .json

/-- The settings that are numbers. -/
inductive NumberKey where
  | maxEntries
  | largeFileThreshold
deriving DecidableEq

namespace NumberKey

def table : NumberKey → String
  | maxEntries => "cache"
  | largeFileThreshold => "resolver"

def name : NumberKey → String
  | maxEntries => "max_entries"
  | largeFileThreshold => "large_file_threshold"

def variableName : NumberKey → String
  | maxEntries => "VFS_DIGEST__CACHE__MAX_ENTRIES"
  | largeFileThreshold => "VFS_DIGEST__RESOLVER__LARGE_FILE_THRESHOLD"

def path (key : NumberKey) : List String :=
  [key.table, key.name]

theorem lower_variableName (key : NumberKey) :
    Text.lower key.variableName = Variable.nameOf key.path := by
  cases key <;> decide +kernel

/-- The tree in which only the setting is set. -/
def entries (key : NumberKey) (origin : String) (s : Scalar) :
    List (String × Setting) :=
  [(key.table, .table (some origin) [(key.name, .scalar (some origin) s)])]

theorem leaf?_entries (key : NumberKey) (origin : String) (s : Scalar) :
    (Setting.table none (key.entries origin s)).leaf? key.path = some s := by
  cases key <;> rfl

def tomlFront (key : NumberKey) : List Char :=
  key.table.toList ++ '.' :: key.name.toList ++ ['=']

def jsonFront (key : NumberKey) : List Char :=
  "\x7b\"".toList ++ key.table.toList ++ "\":\x7b\"".toList ++
    key.name.toList ++ "\":".toList

/-- The document in which only the setting is set. -/
def document (key : NumberKey) : DocumentFormat → List Char → String
  | .toml, cs => String.ofList (key.tomlFront ++ cs)
  | .json, cs => String.ofList (key.jsonFront ++ (cs ++ "\x7d\x7d".toList))

end NumberKey

namespace Written

variable (n : Written) (key : NumberKey)

/-! ## Variables and TOML -/

theorem unifyLineEnds_of_notMem {cs : List Char} (h : '\r' ∉ cs) :
    Toml.unifyLineEnds cs = some cs := by
  induction cs with
  | nil => rfl
  | cons c cs ih =>
      rw [List.mem_cons, not_or] at h
      rw [Toml.unifyLineEnds.eq_def]
      split
      · rename_i heq
        cases heq
      · rename_i heq
        exact absurd (List.cons.inj heq).1.symm h.1
      · rename_i heq
        exact absurd (List.cons.inj heq).1.symm h.1
      · rename_i heq
        cases heq
        rw [ih h.2, Option.map_some]

/-- The first variable of a setting sets what is read of its text. -/
theorem value?_text (vars : List (String × String)) :
    Variable.value? ((key.variableName, String.ofList n.text) :: vars)
      key.path =
      Route.environment.read? n.text := by
  rw [Variable.value?_cons, if_pos key.lower_variableName]
  rfl

theorem readKey_tomlFront (cs : List Char) :
    Toml.readKey (key.tomlFront ++ cs) = some (([key.table], key.name),
      '=' :: cs) := by
  cases key <;> rfl

theorem readScalar_text : Toml.readScalar n.text = Toml.readNumeric n.text := by
  unfold Toml.readScalar
  split
  · exact absurd ‹_› (n.text_ne_cons (by decide) (by decide) _)
  · exact absurd ‹_› (n.text_ne_cons (by decide) (by decide) _)
  · exact absurd ‹_› (n.text_ne_cons (by decide) (by decide) _)
  · exact absurd ‹_› (n.text_ne_cons (by decide) (by decide) _)
  · rfl

theorem readLineValue_text : Toml.readLineValue n.text =
    Toml.readNumeric n.text := by
  rw [Toml.readLineValue, Toml.readValue]
  · exact n.readScalar_text
  · exact n.text_ne_cons (by decide) (by decide)
  · exact n.text_ne_cons (by decide) (by decide)

theorem skipBlanks_text : Toml.skipBlanks n.text = n.text := by
  have hdrop := @dropWhile_text n Toml.isBlank (fun c hc => by
    simp only [Toml.isBlank, Bool.or_eq_true, decide_eq_true_eq] at hc
    rcases hc with rfl | rfl <;> decide) []
  rwa [List.append_nil] at hdrop

theorem readPair_text {v : Toml.Value}
    (h : Toml.readNumeric n.text = some (v, [])) :
    Toml.readPair ⟨[], []⟩ (key.tomlFront ++ n.text) =
      some (⟨[], [(key.table, .table true true [(key.name, .value v)])]⟩,
        []) := by
  unfold Toml.readPair
  simp only [readKey_tomlFront, skipBlanks_text, readLineValue_text, h]
  cases key <;> rfl

theorem readPair_text_none (h : Toml.readNumeric n.text = none) :
    Toml.readPair ⟨[], []⟩ (key.tomlFront ++ n.text) = none := by
  unfold Toml.readPair
  simp only [readKey_tomlFront, skipBlanks_text, readLineValue_text, h]

theorem skipLines_tomlFront (bound : Nat) (cs : List Char) :
    Toml.skipLines (bound + 1) (key.tomlFront ++ cs) = key.tomlFront ++ cs := by
  cases key <;> rfl

theorem readAll_tomlFront (bound : Nat) (cs : List Char) :
    Toml.readAll (bound + 1) ⟨[], []⟩ (key.tomlFront ++ cs) =
      (Toml.readPair ⟨[], []⟩ (key.tomlFront ++ cs)).bind fun r =>
        (Toml.finishLine r.2).bind (Toml.readAll bound r.1) := by
  have hfront : ∃ c front, key.tomlFront = c :: front ∧ c ≠ '[' := by
    cases key <;> exact ⟨_, _, rfl, by decide⟩
  obtain ⟨c, front, hfront, hc⟩ := hfront
  rw [Toml.readAll, skipLines_tomlFront, hfront, List.cons_append]
  simp only [if_neg hc]
  cases Toml.readPair ⟨[], []⟩ (c :: (front ++ cs)) with
  | none => rfl
  | some r =>
      obtain ⟨draft, rest⟩ := r
      dsimp only [Option.bind_some]
      cases Toml.finishLine rest <;> rfl

theorem readAll_text {v : Toml.Value}
    (h : Toml.readNumeric n.text = some (v, [])) (bound : Nat) :
    Toml.readAll (bound + 2) ⟨[], []⟩ (key.tomlFront ++ n.text) =
      some ⟨[], [(key.table, .table true true [(key.name, .value v)])]⟩ := by
  rw [readAll_tomlFront, n.readPair_text key h]
  rfl

theorem readAll_text_none (h : Toml.readNumeric n.text = none) (bound : Nat) :
    Toml.readAll (bound + 1) ⟨[], []⟩ (key.tomlFront ++ n.text) = none := by
  rw [readAll_tomlFront, n.readPair_text_none key h]
  rfl

theorem readNumeric_cases :
    Toml.readNumeric n.text = none ∨
    (∃ i, Toml.readNumeric n.text = some (.integer i, [])) ∨
      ∃ x, Toml.readNumeric n.text = some (.float x, []) := by
  rw [readNumeric_text]
  split
  · split
    · exact Or.inr (Or.inl ⟨_, rfl⟩)
    · exact Or.inl rfl
  · split
    · exact Or.inl rfl
    · exact Or.inr (Or.inr ⟨_, rfl⟩)

theorem read?_tomlFront {cs : List Char}
    (h : Toml.unifyLineEnds (key.tomlFront ++ cs) =
      some (key.tomlFront ++ cs)) :
    Toml.read? (key.document .toml cs) =
      (Toml.readAll ((key.tomlFront ++ cs).length + 1) ⟨[], []⟩
        (key.tomlFront ++ cs)).bind
        Toml.Draft.entries? := by
  have hmark : ∀ rest, key.tomlFront ++ cs ≠ '\ufeff' :: rest := by
    intro rest heq
    cases key <;> exact absurd (List.cons.inj heq).1 (by decide)
  unfold Toml.read? NumberKey.document
  simp only [String.toList_ofList]
  generalize key.tomlFront ++ cs = cs at *
  split
  · rename_i heq
    obtain rfl := Option.some.inj (h.symm.trans heq)
    rfl
  · rename_i heq
    cases h.symm.trans heq

theorem ofDocument?_toml (origin : String) :
    Setting.ofDocument? .toml origin (key.document .toml n.text) =
      (Route.toml.read? n.text).map (key.entries origin) := by
  have hends : '\r' ∉ key.tomlFront ++ n.text := by
    rw [List.mem_append, not_or]
    exact ⟨by cases key <;> decide,
      n.notMem_text (by decide) (by decide) (by decide)⟩
  obtain ⟨bound, hbound⟩ : ∃ bound, (key.tomlFront ++ n.text).length =
    bound + 1 := by
    cases key <;> exact ⟨_, rfl⟩
  unfold Setting.ofDocument? Route.read?
  rw [read?_tomlFront key (unifyLineEnds_of_notMem hends), hbound]
  rcases n.readNumeric_cases with h | ⟨i, h⟩ | ⟨x, h⟩
  · rw [n.readAll_text_none key h]
    simp only [h]
    rfl
  · rw [n.readAll_text key h]
    simp only [h]
    cases key <;> rfl
  · rw [n.readAll_text key h]
    simp only [h]
    cases key <;> rfl

/-! ## JSON -/

/-- The document is what is written of an object in an object. -/
theorem toList_document_json (cs : List Char) :
    (key.document .json cs).toList =
      Json.writeObject [(key.table, Json.writeObject [(key.name, cs)])] := by
  have hinner : Json.writeObject [(key.name, cs)] =
      "\x7b\"".toList ++
        (key.name.toList ++ ("\":".toList ++ (cs ++ ['\x7d']))) := by
    cases key <;> rfl
  have houter (cs : List Char) : Json.writeObject [(key.table, cs)] =
      "\x7b\"".toList ++
        (key.table.toList ++ ("\":".toList ++ (cs ++ ['\x7d']))) := by
    cases key <;> rfl
  rw [houter, hinner, NumberKey.document, String.toList_ofList,
    NumberKey.jsonFront]
  simp

theorem read?_document_json :
    Json.read? (key.document .json n.text) =
      some
        (.object
          [(some key.table,
            .object [(some key.name, .number n.numeral)])]) := by
  apply Json.read?_of_writes
  rw [toList_document_json]
  have hobject {name : String} {v : Json.Value} {cs : List Char}
      (h : Json.Writes v cs) :
      Json.Writes (.object [(some name, v)]) (Json.writeObject [(name, cs)]) :=
    @Json.writes_writeObject [(name, v, cs)] (List.forall_mem_singleton.2 h)
  exact hobject (hobject (.number n.writesNumber_text))

theorem ofDocument?_json (origin : String) :
    Setting.ofDocument? .json origin (key.document .json n.text) =
      (Route.json.read? n.text).map (key.entries origin) := by
  have hnumber := @readNumber_text n [] (by simp [Json.EndsNumber])
  rw [List.append_nil] at hnumber
  simp only [Setting.ofDocument?, Route.read?, n.read?_document_json key,
    hnumber, Option.bind_some, Setting.jsonDepth, Setting.ofJson?,
    Setting.ofJsonMembers?]
  cases n.numeral.number? with
  | none => rfl
  | some v => cases v <;> rfl

/-- A document of one number sets what is read of the number, or is
malformed. -/
theorem ofDocument?_document (format : DocumentFormat) (origin : String) :
    Setting.ofDocument? format origin (key.document format n.text) =
      (format.route.read? n.text).map (key.entries origin) := by
  cases format with
  | toml => exact n.ofDocument?_toml key origin
  | json => exact n.ofDocument?_json key origin

end Written

namespace Settings

theorem addLayers_error {failure : LoadFailure}
    {layers : List (Except LoadFailure (List (String × Setting)))}
    (h : .error failure ∈ layers) (tree : Setting) : ∃ failure',
      addLayers tree layers = .error failure' := by
  induction layers generalizing tree with
  | nil => cases h
  | cons layer layers ih =>
      rcases List.mem_cons.1 h with rfl | h
      · exact ⟨failure, rfl⟩
      · rw [addLayers]
        cases addLayer tree layer with
        | ok tree' => exact ih h tree'
        | error failure' => exact ⟨failure', rfl⟩

theorem ofLayers_error {failure : LoadFailure}
    {layers : List (Except LoadFailure (List (String × Setting)))}
    (h : .error failure ∈ layers) (loader : Loader) : ∃ failure',
      ofLayers loader layers = .error failure' := by
  obtain ⟨failure', hadd⟩ := addLayers_error h Setting.emptyTable
  refine ⟨failure', ?_⟩
  unfold ofLayers
  rw [hadd]

/-- Nothing is loaded with a file that is named and malformed. -/
theorem load_malformed {loader : Loader} {disk : Disk} {path : Path}
    {source : Source} {format : DocumentFormat}
    (hsource : readSource loader disk path = .ok source)
    (hformat : source.format = .document format)
    (h : Setting.ofDocument? format source.origin source.text = none)
    (env : Environment) :
    (∃ failure, load loader disk env (some path) = .error failure) ∧
      ∃ failure, loadFromFile loader disk env path = .error failure := by
  have hfile : requiredFile loader disk path = .error (.fault .malformed) := by
    simp only [requiredFile, hsource, Source.settings, hformat, h]
  unfold load loadFromFile
  dsimp only
  rw [hfile]
  split
  · exact ⟨ofLayers_error (List.mem_append_right _ List.mem_cons_self) loader,
      ofLayers_error List.mem_cons_self loader⟩
  · exact ⟨⟨_, rfl⟩, _, rfl⟩

end Settings

/-- How a number gets from its text into the tree of settings, and what becomes
of it there. -/
structure Written.Reaches (n : Written) (key : NumberKey) : Prop where
  takes : ∀ route : Route, route.Takes n
  fromVariable : ∀ others,
    Variable.value? ((key.variableName, String.ofList n.text) :: others)
      key.path =
      Route.environment.read? n.text
  fromDocument : ∀ (format : DocumentFormat) origin,
    Setting.ofDocument? format origin (key.document format n.text) =
      (format.route.read? n.text).map (key.entries origin)
  leaf : ∀ origin s,
    (Setting.table none (key.entries origin s)).leaf? key.path = some s
  malformed : ∀ {loader : Loader} {disk : Disk} {path : Path} {source : Source}
    {format : DocumentFormat}, readSource loader disk path = .ok source →
    source.format = .document format →
    source.text = key.document format n.text →
    format.route.read? n.text = none → ∀ env,
      (∃ failure, Settings.load loader disk env (some path) = .error failure) ∧
        ∃ failure, Settings.loadFromFile loader disk env path = .error failure

theorem Written.reaches (n : Written) (key : NumberKey) : n.Reaches key where
  takes route := route.takes n
  fromVariable := n.value?_text key
  fromDocument := n.ofDocument?_document key
  leaf := key.leaf?_entries
  malformed := by
    intro loader disk path source format hsource hformat htext hread
    apply Settings.load_malformed hsource hformat
    rw [htext, ofDocument?_document, hread]
    rfl

namespace Settings

variable {disk : Disk} {env : Environment} {vars : List (String × String)}
  {home named : List (String × Setting)}

/-- Sources that fit but for their numbers load the number of the highest
source, or are refused for it, in whatever order their tables are gone through.
On every route, integers of 64 bits with a sign are exact or refused, but what
lies beyond them, or has places, becomes another number if it can be read. -/
theorem load_numbers (loader : Loader) {explicit : Option Path}
    (hvars : env.texts? = some vars)
    (henv :
      Variable.WellTyped (vars.map (Variable.exchange Variable.zeroedText)))
      (hhome : HomeSets loader disk env home)
    (hhomeFits : Schema.settings.Fits
      ((Setting.table none home).relabel Scalar.zeroed))
    (hnamed : NamedSets loader disk explicit named)
    (hnamedFits : Schema.settings.Fits
      ((Setting.table none named).relabel Scalar.zeroed)) :
    (LoadsFrom (fun path => ((Variable.value? vars path).or
      ((Setting.table none named).leaf? path)).or
        ((Setting.table none home).leaf? path))
      (load loader disk env explicit)) ∧
    (∀ path, explicit = some path →
      LoadsFrom (fun path =>
        (Variable.value? vars path).or ((Setting.table none named).leaf? path))
        (loadFromFile loader disk env path)) ∧
    ∀ (n : Written) (key : NumberKey), n.Reaches key := by
  refine ⟨load_loadsFrom hvars henv hhome hhomeFits hnamed hnamedFits, ?_,
    Written.reaches⟩
  rintro path rfl
  exact loadFromFile_loadsFrom hvars henv hnamed hnamedFits

/-- The least word above those with a sign that is not one of the doubles. -/
def beyondSigned : Written :=
  ⟨false, "9223372036854775809".toList, [], by decide,
    List.all_eq_true.1 (by decide +kernel), by decide⟩

def beyondSignedEnvironment : Environment :=
  [(Bytes.ofText NumberKey.maxEntries.variableName,
    Bytes.ofText (String.ofList beyondSigned.text))]

theorem load_numbers_beyondSigned :
    ∃ logging, load .plain Disk.empty beyondSignedEnvironment none =
      .ok ⟨⟨9223372036854775808⟩, ⟨4096⟩, logging⟩ := by
  have hvars : beyondSignedEnvironment.texts? =
      some [(NumberKey.maxEntries.variableName,
        String.ofList beyondSigned.text)] := by
    decide +kernel
  have henv : Variable.WellTyped ([(NumberKey.maxEntries.variableName,
      String.ofList beyondSigned.text)].map (Variable.exchange
        Variable.zeroedText)) := by
    refine ⟨?_, by decide +kernel⟩
    intro v hv hsome
    obtain rfl := List.mem_singleton.1 hv
    exact ⟨["cache", "max_entries"], by decide +kernel, by decide +kernel,
      .integer, rfl, by decide +kernel⟩
  have hhome : HomeSets .plain Disk.empty beyondSignedEnvironment [] := by
    have hglobal : globalFile beyondSignedEnvironment = none := by
      decide +kernel
    simp only [HomeSets, hglobal]
  obtain ⟨hload, -, hreaches⟩ :=
    load_numbers .plain hvars henv hhome (by decide +kernel)
      (show NamedSets .plain Disk.empty none [] from rfl) (by decide +kernel)
  have hreach := hreaches beyondSigned .maxEntries
  have hlarge := (hreach.takes .environment).large (by decide) rfl rfl
    (by decide +kernel)
    (by decide +kernel)
  obtain ⟨s, hs, hword⟩ := Option.map_eq_some_iff.1 hlarge
  have hcache := (hreach.fromVariable []).trans hs
  have hthreshold : Variable.value? [(NumberKey.maxEntries.variableName,
      String.ofList beyondSigned.text)] ["resolver",
      "large_file_threshold"] = none := by
    rw [← Option.isNone_iff_eq_none]
    decide +kernel
  have hshortened :
      UInt64.ofNat (min (shortened beyondSigned.num) (wordLimit - 1)) =
      9223372036854775808 := by
    decide +kernel
  unfold LoadsFrom at hload
  dsimp only at hload
  rw [show Variable.value? _ ["cache", "max_entries"] = some s from hcache,
    hthreshold] at hload
  have hnumber : numberOr CacheSettings.default.maxEntries (some s) =
      .ok 9223372036854775808 :=
    hword.trans (congrArg Except.ok hshortened)
  simp only [Option.some_or, hnumber] at hload
  exact hload

/-- Not every number is loaded as itself or refused. -/
theorem load_changes_number :
    ¬∀ (n : Written) (s : Settings),
      load .plain Disk.empty [(Bytes.ofText NumberKey.maxEntries.variableName,
        Bytes.ofText (String.ofList n.text))] none = .ok s →
        n.Is s.cache.maxEntries := by
  intro h
  have hload :
      (load .plain Disk.empty beyondSignedEnvironment none).toOption.map
        (·.cache.maxEntries) =
      some 9223372036854775808 := by
    decide +kernel
  cases hs : load .plain Disk.empty beyondSignedEnvironment none with
  | error failure =>
      rw [hs] at hload
      cases hload
  | ok s =>
      rw [hs] at hload
      have hword : s.cache.maxEntries = 9223372036854775808 :=
        Option.some.inj hload
      have his := h beyondSigned s hs
      rw [Written.Is, hword] at his
      exact absurd his.1 (by decide +kernel)

end Settings

end FileDigest
