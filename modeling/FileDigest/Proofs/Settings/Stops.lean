import FileDigest.Proofs.Settings.Places
import FileDigest.Proofs.Settings.Precedence
import FileDigest.Proofs.Settings.Unmarked

/-!
# When loading stops the program

Loading settings gives settings or a fault, except that three things stop the
program: a variable whose name or value is no text, whatever it is for
(`Settings.Foreign`), a setting that has no place in the tree
(`Settings.Unplaced`), and a reader of another format that stops it
(`Settings.ReaderStops`). Sources are read one after the other, the environment
last, so a fault in a file comes before a foreign variable, and a file that was
read is put into the tree before the next one is read. Where everything is text
and names have no brackets, nothing of the library stops the program
(`Settings.Plain`).
-/

namespace FileDigest

deriving instance DecidableEq for LoadFailure

abbrev Layer := Except LoadFailure (List (String × Setting))

namespace Environment

def IsText (v : Bytes × Bytes) : Prop :=
  (Bytes.text? v.1).isSome ∧ (Bytes.text? v.2).isSome

instance : DecidablePred IsText := fun v =>
  inferInstanceAs
    (Decidable ((Bytes.text? v.1).isSome ∧ (Bytes.text? v.2).isSome))

variable {env : Environment}

theorem isSome_texts?_iff : env.texts?.isSome ↔ ∀ v ∈ env, IsText v := by
  induction env with
  | nil => simp
  | cons v env ih =>
      obtain ⟨name, value⟩ := v
      rw [List.forall_mem_cons, ← ih]
      simp only [IsText, Option.isSome_iff_exists, texts?_cons_eq_some]
      constructor
      · rintro ⟨vars, s, t, vars', hname, hvalue, hvars', -⟩
        exact ⟨⟨⟨s, hname⟩, t, hvalue⟩, vars', hvars'⟩
      · rintro ⟨⟨⟨s, hname⟩, t, hvalue⟩, vars', hvars'⟩
        exact ⟨_, s, t, vars', hname, hvalue, hvars', rfl⟩

theorem texts?_eq_none_iff : env.texts? = none ↔ ∃ v ∈ env, ¬IsText v := by
  rw [← Option.not_isSome_iff_eq_none, isSome_texts?_iff]
  push Not
  rfl

theorem exists_of_mem_texts? {vars : List (String × String)}
    (h : env.texts? = some vars) {v : String × String} (hv : v ∈ vars) :
    ∃ w ∈ env, Bytes.text? w.1 = some v.1 := by
  induction env generalizing vars with
  | nil =>
      cases h
      cases hv
  | cons w env ih =>
      obtain ⟨s, t, vars', hname, -, hvars', rfl⟩ := texts?_cons_eq_some.1 h
      rcases List.mem_cons.1 hv with rfl | hv
      · exact ⟨w, List.mem_cons_self, hname⟩
      · obtain ⟨w', hw', htext⟩ := ih hvars' hv
        exact ⟨w', List.mem_cons_of_mem w hw', htext⟩

end Environment

theorem Variable.exists_of_mem_settings {vars : List (String × String)}
    {e : String × Setting} (h : e ∈ settings vars) :
    ∃ v ∈ vars, settingName? v.1 = some e.1 := by
  induction vars using List.reverseRecOn with
  | nil => cases h
  | append_singleton vars v ih =>
      rw [settings_concat] at h
      cases hname : settingName? v.1 with
      | none =>
          rw [hname] at h
          obtain ⟨w, hw, hkey⟩ := ih h
          exact ⟨w, List.mem_append_left [v] hw, hkey⟩
      | some key =>
          rw [hname] at h
          rcases Setting.mem_putEntry h with rfl | h
          · exact ⟨v, List.mem_append_right vars List.mem_cons_self, hname⟩
          · obtain ⟨w, hw, hkey⟩ := ih h
            exact ⟨w, List.mem_append_left [v] hw, hkey⟩

/-- The settings of sources that can be read are put into the tree as if one
source had them all. -/
theorem addLayers_map_ok (tree : Setting)
    (documents : List (List (String × Setting))) (rest : List Layer) :
    addLayers tree (documents.map .ok ++ rest) =
      match tree.assignAll documents.flatten with
      | some mid => addLayers mid rest
      | none => .error .impossibleItem := by
  induction documents generalizing tree with
  | nil => rfl
  | cons document documents ih =>
      rw [List.map_cons, List.cons_append, addLayers, addLayer,
        List.flatten_cons, Setting.assignAll_append]
      cases tree.assignAll document with
      | none => rfl
      | some mid => exact ih mid

/-- Sources are read up to the first one that cannot be, if there is one. -/
theorem exists_documents (layers : List Layer) :
    ∃ (documents : List (List (String × Setting))) (rest : List Layer),
      layers = documents.map .ok ++ rest ∧
        (rest = [] ∨ ∃ failure rest', rest = .error failure :: rest') := by
  induction layers with
  | nil => exact ⟨[], [], rfl, Or.inl rfl⟩
  | cons layer layers ih =>
      cases layer with
      | error failure => exact ⟨[], _, rfl, Or.inr ⟨failure, layers, rfl⟩⟩
      | ok document =>
          obtain ⟨documents, rest, rfl, hrest⟩ := ih
          exact ⟨document :: documents, rest, rfl, hrest⟩

namespace Settings

variable {files : List Layer} {env : Environment}

/-- All files are read and put into the tree, and then a variable is met that is
no text. -/
def Foreign (files : List Layer) (env : Environment) : Prop :=
  ∃ documents : List (List (String × Setting)), files = documents.map .ok ∧
    ¬Setting.emptyTable.Misplaced documents.flatten ∧
    ∃ v ∈ env, ¬Environment.IsText v

/-- A setting of the first sources has no place in the tree, or all sources are
put into the tree, and a name at its root has no place when it is read once
more. -/
def Unplaced (loader : Loader) (files : List Layer)
    (env : Environment) : Prop :=
  ∃ (documents : List (List (String × Setting))) (rest : List Layer),
    files ++ [loader.arrange .environment (environmentLayer env)] =
      documents.map .ok ++ rest ∧
      (Setting.emptyTable.Misplaced documents.flatten ∨
        rest = [] ∧ ∃ tree, Setting.emptyTable.assignAll documents.flatten =
          some tree ∧ Setting.emptyTable.Misplaced
            (tree.arrange (loader.order .gathered) []).entries)

/-- The first files are read and put into the tree, and the reader of the next
one stops. -/
def ReaderStops (files : List Layer) : Prop :=
  ∃ (documents : List (List (String × Setting))) (rest : List Layer),
    files = documents.map .ok ++ .error .stoppedReader :: rest ∧
      ¬Setting.emptyTable.Misplaced documents.flatten

def Answers (answer : Except LoadFailure Settings) : Prop :=
  (∃ s, answer = .ok s) ∨ ∃ fault, answer = .error (.fault fault)

variable {loader : Loader} {documents : List (List (String × Setting))}
  {rest : List Layer}

theorem ofLayers_of_misplaced
    (h : Setting.emptyTable.Misplaced documents.flatten) :
    ofLayers loader (documents.map .ok ++ rest) = .error .impossibleItem := by
  unfold ofLayers
  rw [addLayers_map_ok, (Setting.assignAll_eq_none_iff _ _).2 h]

/-- Once the first sources are put into the tree, the next one stops the program
or is to blame. -/
theorem ofLayers_of_error (h : ¬Setting.emptyTable.Misplaced documents.flatten)
    (failure : LoadFailure) :
    ofLayers loader (documents.map .ok ++ .error failure :: rest) =
      .error failure := by
  obtain ⟨mid, hmid⟩ :=
    Option.ne_none_iff_exists'.1 (mt (Setting.assignAll_eq_none_iff _ _).1 h)
  unfold ofLayers
  rw [addLayers_map_ok, hmid]
  rfl

theorem ofLayers_of_read {tree : Setting}
    (h : Setting.emptyTable.assignAll documents.flatten = some tree) :
    (Setting.emptyTable.Misplaced
      (tree.arrange (loader.order .gathered) []).entries →
      ofLayers loader (documents.map .ok) = .error .impossibleItem) ∧
    (¬Setting.emptyTable.Misplaced
      (tree.arrange (loader.order .gathered) []).entries →
      Answers (ofLayers loader (documents.map .ok))) := by
  have hadd : addLayers Setting.emptyTable (documents.map .ok) = .ok tree := by
    have hmap := addLayers_map_ok Setting.emptyTable documents []
    rwa [List.append_nil, h] at hmap
  unfold ofLayers
  rw [hadd, ← Setting.assignAll_eq_none_iff]
  dsimp only [Setting.settle]
  cases Setting.emptyTable.assignAll
    (tree.arrange (loader.order .gathered) []).entries with
  | none => exact ⟨fun _ => rfl, fun hne => absurd rfl hne⟩
  | some settled =>
      refine ⟨nofun, fun _ => ?_⟩
      dsimp only
      cases ofSetting (settled.arrange (loader.order .converted) []) with
      | ok s => exact Or.inl ⟨s, rfl⟩
      | error fault => exact Or.inr ⟨fault, rfl⟩

theorem ofLayers_of_foreign (h : Foreign files env) :
    ofLayers loader
      (files ++ [loader.arrange .environment (environmentLayer env)]) =
      .error .foreignEnvironment := by
  obtain ⟨documents, rfl, hplaced, hforeign⟩ := h
  rw [environmentLayer, Environment.texts?_eq_none_iff.2 hforeign]
  exact ofLayers_of_error hplaced .foreignEnvironment

theorem ofLayers_of_unplaced (h : Unplaced loader files env) :
    ofLayers loader
      (files ++ [loader.arrange .environment (environmentLayer env)]) =
      .error .impossibleItem := by
  obtain ⟨documents, rest, heq, hmisplaced | ⟨rfl, tree, htree, hroot⟩⟩ := h
  · rw [heq]
    exact ofLayers_of_misplaced hmisplaced
  · rw [heq, List.append_nil]
    exact (ofLayers_of_read htree).1 hroot

theorem ofLayers_of_readerStops (h : ReaderStops files) (layers : List Layer) :
    ofLayers loader (files ++ layers) = .error .stoppedReader := by
  obtain ⟨documents, rest, rfl, hplaced⟩ := h
  rw [List.append_assoc, List.cons_append]
  exact ofLayers_of_error hplaced .stoppedReader

def FaultOrStop (failure : LoadFailure) : Prop :=
  failure = .stoppedReader ∨ ∃ fault, failure = .fault fault

/-- Where files and environment are all read, only a setting without a place can
stop the program. -/
theorem unplaced_or_answers
    (h : files ++ [loader.arrange .environment (environmentLayer env)] =
      documents.map .ok) :
    Unplaced loader files env ∨
      Answers (ofLayers loader
        (files ++ [loader.arrange .environment (environmentLayer env)])) := by
  have hall := h.trans (List.append_nil _).symm
  cases htree : Setting.emptyTable.assignAll documents.flatten with
  | none =>
      exact Or.inl ⟨documents, [], hall,
        Or.inl ((Setting.assignAll_eq_none_iff _ _).1 htree)⟩
  | some tree =>
      by_cases hroot : Setting.emptyTable.Misplaced
          (tree.arrange (loader.order .gathered) []).entries
      · exact Or.inl ⟨documents, [], hall, Or.inr ⟨rfl, tree, htree, hroot⟩⟩
      · rw [h]
        exact Or.inr ((ofLayers_of_read htree).2 hroot)

theorem exists_environmentLayer {vars : List (String × String)}
    (h : env.texts? = some vars) :
    ∃ entries, loader.arrange .environment (environmentLayer env) =
      .ok entries := by
  rw [environmentLayer, h]
  exact ⟨_, rfl⟩

/-- Of files together with the environment there are no other outcomes. -/
theorem ofLayers_cases (loader : Loader)
    (hfiles : ∀ failure, .error failure ∈ files → FaultOrStop failure)
    (env : Environment) :
    Foreign files env ∨ Unplaced loader files env ∨ ReaderStops files ∨
      Answers
        (ofLayers loader
          (files ++ [loader.arrange .environment (environmentLayer env)])) := by
  obtain ⟨documents, rest, rfl, hrest⟩ := exists_documents files
  by_cases hmisplaced : Setting.emptyTable.Misplaced documents.flatten
  · exact Or.inr
      (Or.inl ⟨documents, _, List.append_assoc .., Or.inl hmisplaced⟩)
  rcases hrest with rfl | ⟨failure, rest', rfl⟩
  · rw [List.append_nil]
    cases htexts : env.texts? with
    | none =>
        exact Or.inl ⟨documents, rfl, hmisplaced,
          Environment.texts?_eq_none_iff.1 htexts⟩
    | some vars =>
        obtain ⟨entries, hlayer⟩ := exists_environmentLayer htexts
        have hread : documents.map .ok ++
            [loader.arrange .environment (environmentLayer env)] =
              (documents ++ [entries]).map .ok := by
          rw [hlayer, List.map_append]
          rfl
        exact Or.inr ((unplaced_or_answers hread).imp_right Or.inr)
  · rcases hfiles failure (by simp) with rfl | ⟨fault, rfl⟩
    · exact Or.inr (Or.inr (Or.inl ⟨documents, rest', rfl, hmisplaced⟩))
    · rw [List.append_assoc, List.cons_append, ofLayers_of_error hmisplaced]
      exact Or.inr (Or.inr (Or.inr (Or.inr ⟨fault, rfl⟩)))

/-- Everything in the environment is text, no bracket opens in the name of a
setting, and no reader of another format stops. -/
structure Plain (files : List Layer) (env : Environment) : Prop where
  text : ∀ v ∈ env, Environment.IsText v
  marked : ∀ v ∈ env, ∀ name, Bytes.text? v.1 = some name →
    (Variable.settingName? name).isSome → Unbracketed name
  documents : ∀ entries, .ok entries ∈ files → ∀ e ∈ entries, Unbracketed e.1
  readers : .error .stoppedReader ∉ files

theorem Plain.not_foreign (h : Plain files env) : ¬Foreign files env :=
  fun ⟨_, _, _, v, hv, hforeign⟩ => hforeign (h.text v hv)

theorem Plain.not_readerStops (h : Plain files env) : ¬ReaderStops files := by
  rintro ⟨documents, rest, rfl, -⟩
  exact h.readers (by simp)

theorem unbracketed_arrangeEntries {entries : List (String × Setting)}
    (h : ∀ e ∈ entries, Unbracketed e.1) (order : TableOrder) :
    ∀ e ∈ Setting.arrangeEntries order entries, Unbracketed e.1 := by
  intro e he
  have hname := (Setting.names_arrangeEntries_perm order entries).mem_iff.1
    (List.mem_map_of_mem he)
  obtain ⟨e', he', heq⟩ := List.mem_map.1 hname
  exact heq ▸ h e' he'

theorem unbracketedRoot_arrange {tree : Setting} (h : tree.UnbracketedRoot)
    (order : TableOrder) : (tree.arrange order []).UnbracketedRoot := by
  cases tree with
  | table origin entries => exact unbracketed_arrangeEntries h order
  | _ => exact h

theorem Plain.unbracketed (h : Plain files env)
    {entries : List (String × Setting)}
    (hmem : .ok entries ∈
      files ++ [loader.arrange .environment (environmentLayer env)]) :
    ∀ e ∈ entries, Unbracketed e.1 := by
  rcases List.mem_append.1 hmem with hmem | hmem
  · exact h.documents entries hmem
  · rw [List.mem_singleton, environmentLayer] at hmem
    cases hvars : env.texts? with
    | none =>
        rw [hvars] at hmem
        cases hmem
    | some vars =>
        rw [hvars] at hmem
        cases hmem
        refine unbracketed_arrangeEntries (fun e he => ?_) _
        obtain ⟨v, hv, hname⟩ := Variable.exists_of_mem_settings he
        obtain ⟨w, hw, htext⟩ := Environment.exists_of_mem_texts? hvars hv
        exact Variable.unbracketed_settingName?
          (h.marked w hw v.1 htext (by rw [hname]; rfl)) hname

theorem Plain.not_unplaced (h : Plain files env) :
    ¬Unplaced loader files env := by
  rintro ⟨documents, rest, heq, hunplaced⟩
  have hnames : ∀ e ∈ documents.flatten, Unbracketed e.1 := by
    intro e he
    obtain ⟨entries, hentries, he⟩ := List.mem_flatten.1 he
    have hmem : .ok entries ∈
        files ++ [loader.arrange .environment (environmentLayer env)] := by
      rw [heq]
      exact List.mem_append_left rest (List.mem_map_of_mem hentries)
    exact h.unbracketed hmem e he
  obtain ⟨tree, htree, hroot⟩ :=
    Setting.exists_assignAll_of_unbracketed Setting.unbracketedRoot_emptyTable
      hnames
  rcases hunplaced with hmisplaced | ⟨-, tree', htree', hmisplaced⟩
  · rw [← Setting.assignAll_eq_none_iff, htree] at hmisplaced
    cases hmisplaced
  · cases htree.symm.trans htree'
    obtain ⟨settled, hsettled⟩ := Setting.exists_settle_of_unbracketed
      (unbracketedRoot_arrange hroot (loader.order .gathered))
    cases hsettled.symm.trans ((Setting.assignAll_eq_none_iff _ _).2 hmisplaced)

/-- When loading from files and the environment stops the program, where
`answer` is what it gives. If the file that is named is not found, then nothing
is read and nothing stops. -/
structure Outcome (loader : Loader) (found : Prop) (files : List Layer)
    (env : Environment) (answer : Except LoadFailure Settings) : Prop where
  foreign : answer = .error .foreignEnvironment ↔ found ∧ Foreign files env
  unplaced : answer = .error .impossibleItem ↔ found ∧ Unplaced loader files env
  readers : answer = .error .stoppedReader ↔ found ∧ ReaderStops files
  plain : Plain files env → Answers answer

theorem outcome_of_found {found : Prop} (h : found)
    (hfiles : ∀ failure, .error failure ∈ files → FaultOrStop failure)
    (env : Environment) :
    Outcome loader found files env
      (ofLayers loader
        (files ++ [loader.arrange .environment (environmentLayer env)])) := by
  have hcases := ofLayers_cases loader hfiles env
  have hforeign := @ofLayers_of_foreign files env loader
  have hunplaced := @ofLayers_of_unplaced files env loader
  have hreaders := fun hstops : ReaderStops files =>
    @ofLayers_of_readerStops files loader hstops
    [loader.arrange .environment (environmentLayer env)]
  -- Each way to stop has an answer of its own, so an answer tells the way.
  generalize ofLayers loader
    (files ++ [loader.arrange .environment (environmentLayer env)]) =
    answer at hcases hforeign hunplaced hreaders
  refine ⟨⟨fun hanswer => ⟨h, ?_⟩, fun hand => hforeign hand.2⟩,
    ⟨fun hanswer => ⟨h, ?_⟩, fun hand => hunplaced hand.2⟩,
    ⟨fun hanswer => ⟨h, ?_⟩, fun hand => hreaders hand.2⟩, fun hplain => ?_⟩
  · rcases hcases with hcase | hcase | hcase | ⟨s, hs⟩ | ⟨fault, hfault⟩
    · exact hcase
    · cases hanswer.symm.trans (hunplaced hcase)
    · cases hanswer.symm.trans (hreaders hcase)
    · cases hanswer.symm.trans hs
    · cases hanswer.symm.trans hfault
  · rcases hcases with hcase | hcase | hcase | ⟨s, hs⟩ | ⟨fault, hfault⟩
    · cases hanswer.symm.trans (hforeign hcase)
    · exact hcase
    · cases hanswer.symm.trans (hreaders hcase)
    · cases hanswer.symm.trans hs
    · cases hanswer.symm.trans hfault
  · rcases hcases with hcase | hcase | hcase | ⟨s, hs⟩ | ⟨fault, hfault⟩
    · cases hanswer.symm.trans (hforeign hcase)
    · cases hanswer.symm.trans (hunplaced hcase)
    · exact hcase
    · cases hanswer.symm.trans hs
    · cases hanswer.symm.trans hfault
  · rcases hcases with hcase | hcase | hcase | hanswers
    · exact absurd hcase hplain.not_foreign
    · exact absurd hcase hplain.not_unplaced
    · exact absurd hcase hplain.not_readerStops
    · exact hanswers

theorem outcome_of_missing {found : Prop} (h : ¬found) (fault : ConfigFault) :
    Outcome loader found files env (.error (.fault fault)) where
  foreign := iff_of_false nofun fun hand => h hand.1
  unplaced := iff_of_false nofun fun hand => h hand.1
  readers := iff_of_false nofun fun hand => h hand.1
  plain _ := Or.inr ⟨fault, rfl⟩

end Settings

theorem Source.faultOrStop {loader : Loader} {s : Source}
    {failure : LoadFailure} (h : s.settings loader = .error failure) :
    Settings.FaultOrStop failure := by
  unfold Source.settings at h
  split at h
  · split at h
    · cases h
    · cases h
      exact Or.inr ⟨_, rfl⟩
  · split at h
    · cases h
    · cases h
      exact Or.inr ⟨_, rfl⟩
    · cases h
      exact Or.inl rfl

theorem Loader.eq_error_of_arrange {loader : Loader} {occasion : Occasion}
    {layer : Layer} {failure : LoadFailure}
    (h : .error failure ∈ [loader.arrange occasion layer]) :
    layer = .error failure := by
  cases layer with
  | ok entries => cases List.mem_singleton.1 h
  | error failure' => cases List.mem_singleton.1 h; rfl

theorem faultOrStop_of_mem_homeLayers {loader : Loader} {disk : Disk}
    {env : Environment} {failure : LoadFailure}
    (h : .error failure ∈ homeLayers loader disk env) :
    Settings.FaultOrStop failure := by
  unfold homeLayers at h
  split at h
  · rename_i path _
    have hfile := Loader.eq_error_of_arrange h
    unfold optionalFile at hfile
    cases hsource : readSource loader disk path with
    | error fault =>
        rw [hsource] at hfile
        cases hfile
    | ok source =>
        rw [hsource] at hfile
        exact source.faultOrStop hfile
  · cases h

theorem faultOrStop_of_mem_namedLayers {loader : Loader} {disk : Disk}
    {explicit : Option Path} {failure : LoadFailure}
    (h : .error failure ∈ namedLayers loader disk explicit) :
    Settings.FaultOrStop failure := by
  unfold namedLayers at h
  split at h
  · rename_i path
    have hfile := Loader.eq_error_of_arrange h
    unfold requiredFile at hfile
    cases hsource : readSource loader disk path with
    | error fault =>
        rw [hsource] at hfile
        cases hfile
        exact Or.inr ⟨fault, rfl⟩
    | ok source =>
        rw [hsource] at hfile
        exact source.faultOrStop hfile
  · cases h

namespace Settings

/-- Whatever order a run leaves open, loading is stopped by a variable that is
no text, once all files are read, by a setting that has no place, and by a
reader of another format, and by nothing else. Where everything is text and
names have no brackets, the library does not stop it. -/
theorem load_outcome (loader : Loader) (disk : Disk) (env : Environment) :
    (∀ explicit, Outcome loader (∀ path, explicit = some path →
      disk.exists? path = true)
      (homeLayers loader disk env ++ namedLayers loader disk explicit) env
      (load loader disk env explicit)) ∧
    ∀ path, Outcome loader (disk.exists? path = true)
      (namedLayers loader disk (some path)) env
      (loadFromFile loader disk env path) := by
  refine ⟨fun explicit => ?_, fun path => ?_⟩
  · by_cases hfound : ∀ path, explicit = some path → disk.exists? path = true
    · rw [load_of_found loader env hfound, ← List.append_assoc]
      refine outcome_of_found hfound (fun failure hmem => ?_) env
      rcases List.mem_append.1 hmem with hmem | hmem
      · exact faultOrStop_of_mem_homeLayers hmem
      · exact faultOrStop_of_mem_namedLayers hmem
    · obtain ⟨path, rfl, hmissing⟩ :
          ∃ path, explicit = some path ∧ ¬disk.exists? path = true := by
        push Not at hfound
        exact hfound
      unfold load
      dsimp only
      rw [if_neg hmissing]
      exact outcome_of_missing hfound _
  · unfold loadFromFile
    split
    · rename_i hexists
      exact outcome_of_found hexists (fun failure =>
        faultOrStop_of_mem_namedLayers) env
    · rename_i hmissing
      exact outcome_of_missing hmissing _

theorem load_outcome_userFiles :
    Answers (load .plain userFiles twoVariablesEnvironment
      (some (.ofText "here.json"))) := by
  have hglobal : globalFile twoVariablesEnvironment =
      some (.ofText "/home/.config/vfs-digest/config.toml") := by
    decide +kernel
  have hnames : ∀ v ∈ twoVariablesEnvironment,
      (Bytes.text? v.1).all (Unbracketed ·) = true := by
    decide +kernel
  apply ((load_outcome .plain userFiles twoVariablesEnvironment).1
    (some (.ofText "here.json"))).plain
  rw [homeLayers, hglobal, namedLayers]
  dsimp only
  rw [optionalFile_of_homeSets hglobal homeSets_userFiles,
    (requiredFile_of_namedSets namedSets_userFiles).2, List.singleton_append,
    Loader.arrange_ok, Loader.arrange_ok]
  refine ⟨by decide +kernel, fun v hv name hname _ => ?_, ?_, ?_⟩
  · have hname' := hnames v hv
    rw [hname] at hname'
    exact of_decide_eq_true hname'
  · intro entries hentries
    rcases List.mem_cons.1 hentries with heq | hentries
    · rw [Except.ok.inj heq]
      decide +kernel
    · rw [Except.ok.inj (List.mem_singleton.1 hentries)]
      decide +kernel
  · simp only [List.mem_cons, reduceCtorEq, List.not_mem_nil, or_self,
      not_false_eq_true]

/-- A variable that has nothing to do with settings, and is no text. -/
def foreignVariable : Environment :=
  [(Bytes.ofText "OTHER_VAR", [0xff])]

/-- A variable for an item in front of the first one. -/
def itemVariable : Environment :=
  [(Bytes.ofText "VFS_DIGEST__CACHE[-1]", Bytes.ofText "1")]

/-- Loading does not always give settings or a fault. -/
theorem load_stops :
    load .plain Disk.empty foreignVariable none = .error .foreignEnvironment ∧
      load .plain Disk.empty itemVariable none = .error .impossibleItem ∧
      ¬∀ loader disk env explicit, Answers (load loader disk env explicit) := by
  have hforeign : load .plain Disk.empty foreignVariable none =
      .error .foreignEnvironment := by
    decide +kernel
  refine ⟨hforeign, by decide +kernel, fun h => ?_⟩
  rcases h .plain Disk.empty foreignVariable none with ⟨s, hs⟩ | ⟨fault, hfault⟩
  · cases hforeign.symm.trans hs
  · cases hforeign.symm.trans hfault

end Settings

end FileDigest
