import FileDigest.Proofs.Settings.Names
import FileDigest.Proofs.Settings.Order
import FileDigest.Proofs.Settings.Values
import FileDigest.Settings.Load
import Mathlib.Data.List.Induction

/-!
# Layers of settings

A source of settings is a layer, and a layer tells what it says at the end of
every way to a value (`Tells`). Documents tell what their trees say
(`tells_entries`), and the environment tells what the variables say that are
named for a way (`tells_environment`), since no two ways have one name
(`Variable.nameOf_inj`). In which order the entries of a layer are met counts
for nothing. When layers are put together, what stands at the end of a way is
what the last of them says that says anything, or else the default
(`Tells.append`, `Tells.ofLayers`).
-/

namespace FileDigest

namespace Schema

/-- A way to a value that settings have. -/
def IsKey (path : List String) : Prop :=
  (settings.kind? path).isSome

/-- The ways to all values but the levels of modules. -/
def plainKeys : List (List String) :=
  [["cache", "max_entries"], ["resolver", "large_file_threshold"],
    ["logging", "enabled"], ["logging", "level"], ["logging", "format"],
    ["logging", "output"], ["logging", "color"]]

theorem kind?_ofFields {fields : List (String × Schema)} {path : List String}
    (h : ((ofFields fields).kind? path).isSome) :
    ∃ name rest, path = name :: rest ∧ ∃ sub, (name, sub) ∈ fields ∧
    (sub.kind? rest).isSome := by
  cases path with
  | nil => cases h
  | cons name rest =>
      refine ⟨name, rest, rfl, ?_⟩
      have hkind : (((fields.lookup name).getD never).kind? rest).isSome := h
      cases hlookup : fields.lookup name with
      | none =>
          rw [hlookup] at hkind
          cases hkind
      | some sub =>
          rw [hlookup] at hkind
          obtain ⟨l₁, l₂, rfl, -⟩ := List.lookup_eq_some_iff.1 hlookup
          exact ⟨sub, by simp, hkind⟩

theorem kind?_value {kind : Kind} {path : List String}
    (h : ((value kind).kind? path).isSome) : path = [] := by
  cases path with
  | nil => rfl
  | cons name rest => cases h

theorem IsKey.cases {path : List String} (h : IsKey path) :
    path ∈ plainKeys ∨ ∃ name, path = ["logging", "modules", name] := by
  obtain ⟨name, rest, rfl, sub, hmem, hrest⟩ := kind?_ofFields h
  simp only [List.mem_cons, List.not_mem_nil, or_false, Prod.mk.injEq] at hmem
  rcases hmem with ⟨rfl, rfl⟩ | ⟨rfl, rfl⟩ | ⟨rfl, rfl⟩
  all_goals
    obtain ⟨name, rest, rfl, sub, hmem, hrest⟩ := kind?_ofFields hrest
    simp only [List.mem_cons, List.not_mem_nil, or_false, Prod.mk.injEq] at hmem
  · obtain ⟨rfl, rfl⟩ := hmem
    rw [kind?_value hrest]
    exact Or.inl (by simp [plainKeys])
  · obtain ⟨rfl, rfl⟩ := hmem
    rw [kind?_value hrest]
    exact Or.inl (by simp [plainKeys])
  · rcases hmem with ⟨rfl, rfl⟩ | ⟨rfl, rfl⟩ | ⟨rfl, rfl⟩ | ⟨rfl, rfl⟩ |
      ⟨rfl, rfl⟩ | ⟨rfl, rfl⟩
    case inr.inr.inr.inr.inr =>
      cases rest with
      | nil => cases hrest
      | cons name rest =>
          rw [kind?_value hrest]
          exact Or.inr ⟨name, rfl⟩
    all_goals
      rw [kind?_value hrest]
      exact Or.inl (by simp [plainKeys])

end Schema

namespace Variable

/-- What is in front of the name of a module in the name of a variable. -/
def moduleMark : List Char :=
  "vfs_digest__logging__modules__".toList

theorem toList_nameOf_module (name : String) :
    (nameOf ["logging", "modules", name]).toList =
      moduleMark ++ name.toList := by
  have hmark : moduleMark =
      mark ++ ("logging".toList ++ '_' :: '_' ::
        ("modules".toList ++ ['_', '_'])) := by
    decide +kernel
  rw [toList_nameOf, toList_intercalate_underscores, hmark]
  simp only [List.flatMap_cons, List.flatMap_nil, List.append_assoc,
    List.cons_append, List.nil_append, List.append_nil]

theorem nameOf_plain_ne_module {path : List String}
    (h : path ∈ Schema.plainKeys) (name : String) :
    nameOf path ≠ nameOf ["logging", "modules", name] := by
  intro heq
  have hplain : ∀ path ∈ Schema.plainKeys,
      moduleMark.isPrefixOf (nameOf path).toList = false := by
    decide +kernel
  have hprefix : moduleMark.isPrefixOf (nameOf path).toList = true := by
    rw [heq, toList_nameOf_module, List.isPrefixOf_iff_prefix]
    exact List.prefix_append _ _
  rw [hplain path h] at hprefix
  cases hprefix

theorem nameOf_inj {path path' : List String} (h : Schema.IsKey path)
    (h' : Schema.IsKey path') (heq : nameOf path = nameOf path') :
    path = path' := by
  rcases h.cases with hplain | ⟨name, rfl⟩ <;> rcases h'.cases with
    hplain' | ⟨name', rfl⟩
  · have hinj : ∀ path ∈ Schema.plainKeys, ∀ path' ∈ Schema.plainKeys,
        nameOf path = nameOf path' → path = path' := by
      decide +kernel
    exact hinj path hplain path' hplain' heq
  · exact absurd heq (nameOf_plain_ne_module hplain name')
  · exact absurd heq.symm (nameOf_plain_ne_module hplain' name)
  · have hlist := congrArg String.toList heq
    rw [toList_nameOf_module, toList_nameOf_module, List.append_cancel_left_eq]
      at hlist
    rw [String.toList_inj.1 hlist]

def value? (vars : List (String × String)) (way : List String) :
    Option Scalar :=
  (vars.find? fun v => Text.lower v.1 = nameOf way).map fun v => scalar v.2

/-- A variable sets a key, and to a value of its kind. -/
structure Sets (v : String × String) (way : List String) : Prop where
  words : ∀ word ∈ way, isWord word.toList = true
  name : Text.lower v.1 = nameOf way
  value : ∃ kind, Schema.settings.kind? way = some kind ∧
    kind.has (scalar v.2) = true

/-- All variables with the mark set keys, and no two of them have one name in
lower case. -/
structure WellTyped (vars : List (String × String)) : Prop where
  sets : ∀ v ∈ vars, (settingName? v.1).isSome → ∃ way, Sets v way
  distinct : vars.Pairwise fun v w =>
    (settingName? v.1).isSome → Text.lower v.1 ≠ Text.lower w.1

theorem isSome_settingName?_of_lower {name : String} {way : List String}
    (h : Text.lower name = nameOf way) :
    (settingName? name).isSome := by
  unfold settingName?
  simp only [h, toList_nameOf, List.isPrefixOf?_eq_some_iff_append_eq.2 rfl,
    Option.map_some, Option.isSome_some]

variable {v w : String × String} {way way' : List String}
  {vars : List (String × String)}

theorem Sets.isKey (h : Sets v way) : Schema.IsKey way := by
  obtain ⟨kind, hkind, -⟩ := h.value
  rw [Schema.IsKey, hkind]
  rfl

theorem Sets.exists_cons (h : Sets v way) :
    ∃ first rest, way = first :: rest ∧ settingName? v.1 =
      some (".".intercalate way) ∧
      SettingPath.parse (".".intercalate way) =
        .ofSteps first (rest.map .child) := by
  obtain ⟨first, rest, rfl, -⟩ := Schema.kind?_ofFields h.isKey
  exact ⟨first, rest, rfl, settingName?_of_lower h.name h.words,
    SettingPath.parse_dots h.words⟩

/-- The tree with what a variable says is the one that the value was merged
into. -/
theorem Sets.assign (h : Sets v way) {root : Setting}
    (hroot : Schema.settings.Fits root) :
    ∃ key root', settingName? v.1 = some key ∧
      root.assign (SettingPath.parse key) (.scalar (some origin) (scalar v.2)) =
        some root' ∧
      Schema.settings.Fits root' ∧
      ∀ path, root'.leaf? path =
        (if path = way then some (scalar v.2) else none).or
          (root.leaf? path) := by
  obtain ⟨first, rest, rfl, hname, hparse⟩ := h.exists_cons
  obtain ⟨kind, hkind, hhas⟩ := h.value
  have hsingle :=
    Schema.fits_single hkind (fun word hword => lower_eq_self_of_isWord
      (h.words word hword)) (some origin) hhas
  have hmerge := ((Schema.fits_table_iff none).1 hsingle).mergeAll hroot
  refine ⟨_,
    root.merge first ((Setting.scalar (some origin) (scalar v.2)).single rest),
    hname, ?_, hmerge.1, fun path => ?_⟩
  · rw [hparse, Setting.assign_ofSteps]
  · rw [← Schema.leaf?_single (some origin)]
    exact hmerge.2 path

def setting? (v : String × String) : Option (String × Setting) :=
  (settingName? v.1).map fun key => (key, .scalar (some origin) (scalar v.2))

theorem putEntry_of_notMem {key : String} {entries : List (String × Setting)}
    (h : key ∉ entries.map Prod.fst) (v : Setting) :
    Setting.putEntry key v entries = entries ++ [(key, v)] := by
  induction entries with
  | nil => rfl
  | cons e rest ih =>
      rw [List.map_cons, List.mem_cons, not_or] at h
      rw [Setting.putEntry, if_neg (Ne.symm h.1), ih h.2, List.cons_append]

theorem settings_concat (vars : List (String × String)) (v : String × String) :
    settings (vars ++ [v]) =
      match settingName? v.1 with
      | some key =>
          Setting.putEntry key (.scalar (some origin) (scalar v.2))
            (settings vars)
      | none => settings vars := by
  unfold settings
  rw [List.foldl_append]
  rfl

theorem names_entries (vars : List (String × String)) :
    (vars.filterMap setting?).map Prod.fst = vars.filterMap fun v =>
      settingName? v.1 := by
  rw [List.map_filterMap]
  apply congrArg (vars.filterMap ·)
  funext v
  unfold setting?
  rw [Option.map_map]
  exact Option.map_id_apply

/-- If no setting is set twice, then no variable takes the place of another
one. -/
theorem settings_eq_filterMap
    (h : (vars.filterMap fun v => settingName? v.1).Nodup) :
    settings vars = vars.filterMap setting? := by
  induction vars using List.reverseRecOn with
  | nil => rfl
  | append_singleton vars v ih =>
      rw [List.filterMap_append, List.nodup_append] at h
      obtain ⟨hvars, -, hdisjoint⟩ := h
      rw [settings_concat, ih hvars, List.filterMap_append]
      cases hname : settingName? v.1 with
      | none => simp [setting?, hname]
      | some key =>
          have hnotMem : key ∉ (vars.filterMap setting?).map Prod.fst := by
            rw [names_entries]
            intro hmem
            exact hdisjoint key hmem key (by simp [hname]) rfl
          simp only [putEntry_of_notMem hnotMem]
          simp [setting?, hname]

theorem Sets.lower_eq (h : Sets v way) (h' : Sets w way')
    (hname : settingName? v.1 = settingName? w.1) :
    Text.lower v.1 = Text.lower w.1 := by
  obtain ⟨first, rest, rfl, hv, hparse⟩ := h.exists_cons
  obtain ⟨first', rest', rfl, hw, hparse'⟩ := h'.exists_cons
  have hdots := hv.symm.trans (hname.trans hw)
  have hsteps : SettingPath.ofSteps first (rest.map .child) =
      .ofSteps first' (rest'.map .child) := by
    rw [← hparse, ← hparse', Option.some.inj hdots]
  have hway : (first :: rest).map PathStep.child =
      (first' :: rest').map .child := by
    rw [List.map_cons, ← SettingPath.way_ofSteps, hsteps,
      SettingPath.way_ofSteps, List.map_cons]
  have hinj : Function.Injective PathStep.child := fun a b hab =>
    PathStep.child.inj hab
  rw [h.name, h'.name, hinj.list_map hway]

theorem WellTyped.tail (h : WellTyped (v :: vars)) : WellTyped vars :=
  ⟨fun w hw => h.sets w (List.mem_cons_of_mem v hw),
    (List.pairwise_cons.1 h.distinct).2⟩

theorem WellTyped.lower_ne (h : WellTyped (v :: vars)) (hw : w ∈ vars)
    (hv : (settingName? v.1).isSome) :
    Text.lower v.1 ≠ Text.lower w.1 :=
  (List.pairwise_cons.1 h.distinct).1 w hw hv

theorem WellTyped.nodup_names (h : WellTyped vars) :
    (vars.filterMap fun v => settingName? v.1).Nodup := by
  induction vars with
  | nil => exact List.nodup_nil
  | cons v vars ih =>
      rw [List.filterMap_cons]
      cases hname : settingName? v.1 with
      | none => exact ih h.tail
      | some key =>
          apply List.nodup_cons.2 ⟨fun hmem => ?_, ih h.tail⟩
          obtain ⟨w, hw, hname'⟩ := List.mem_filterMap.1 hmem
          obtain ⟨way, hv⟩ := h.sets v List.mem_cons_self (by rw [hname]; rfl)
          obtain ⟨way', hw'⟩ :=
            h.sets w (List.mem_cons_of_mem v hw) (by rw [hname']; rfl)
          exact h.lower_ne hw (by rw [hname]; rfl)
            (hv.lower_eq hw' (hname.trans hname'.symm))

theorem settingName?_congr {name name' : String}
    (h : Text.lower name = Text.lower name') :
    settingName? name = settingName? name' := by
  unfold settingName?
  rw [h]

theorem WellTyped.perm {vars' : List (String × String)} (h : WellTyped vars)
    (hperm : vars.Perm vars') :
    WellTyped vars' := by
  refine ⟨fun v hv => h.sets v (hperm.mem_iff.2 hv),
    (hperm.pairwise_iff ?_).1 h.distinct⟩
  intro v w hne hsome heq
  exact hne (settingName?_congr heq ▸ hsome) heq.symm

theorem value?_cons (v : String × String) (vars : List (String × String))
    (way : List String) :
    value? (v :: vars) way =
      if Text.lower v.1 = nameOf way then some (scalar v.2)
        else value? vars way := by
  unfold value?
  rw [List.find?_cons]
  by_cases h : Text.lower v.1 = nameOf way <;> simp [h]

/-- What one variable sets is set by no other one. -/
theorem WellTyped.value?_eq_none (h : WellTyped (v :: vars))
    (hv : Text.lower v.1 = nameOf way) : value? vars way = none := by
  unfold value?
  rw [Option.map_eq_none_iff, List.find?_eq_none]
  intro w hw hlower
  apply h.lower_ne hw (isSome_settingName?_of_lower hv)
  rw [hv, of_decide_eq_true hlower]

theorem WellTyped.value?_perm {vars' : List (String × String)}
    (h : WellTyped vars) (hperm : vars.Perm vars') (way : List String) :
    value? vars way = value? vars' way := by
  induction hperm with
  | nil => rfl
  | cons v _ ih => rw [value?_cons, value?_cons, ih h.tail]
  | swap v w vars =>
      rw [value?_cons, value?_cons, value?_cons, value?_cons]
      by_cases hv : Text.lower v.1 = nameOf way
      · have hw : Text.lower w.1 ≠ nameOf way := fun hw =>
          h.lower_ne List.mem_cons_self (isSome_settingName?_of_lower hw)
            (hw.trans hv.symm)
        rw [if_neg hw, if_neg hw]
      · rw [if_neg hv, if_neg hv]
  | trans hperm _ ih ih' => exact (ih h).trans (ih' (h.perm hperm))

/-- The environment goes before what was there. The induction is on the
variables. -/
theorem WellTyped.assignAll (h : WellTyped vars) {root : Setting}
    (hroot : Schema.settings.Fits root) :
    ∃ root', root.assignAll (vars.filterMap setting?) = some root' ∧
    Schema.settings.Fits root' ∧
      ∀ path, Schema.IsKey path → root'.leaf? path =
        (value? vars path).or (root.leaf? path) := by
  induction vars generalizing root with
  | nil => exact ⟨root, rfl, hroot, fun _ _ => rfl⟩
  | cons v vars ih =>
      cases hname : settingName? v.1 with
      | none =>
          obtain ⟨root', hassign, hfits, hleaf⟩ := ih h.tail hroot
          refine ⟨root', ?_, hfits, fun path hpath => ?_⟩
          · simpa [setting?, hname] using hassign
          · have hne : Text.lower v.1 ≠ nameOf path := by
              intro hlower
              have hsome := isSome_settingName?_of_lower hlower
              rw [hname] at hsome
              cases hsome
            rw [hleaf path hpath, value?_cons, if_neg hne]
      | some key =>
          obtain ⟨way, hsets⟩ :=
            h.sets v List.mem_cons_self (by rw [hname]; rfl)
          obtain ⟨key', mid, hname', hassign, hmid, hleaf⟩ := hsets.assign hroot
          obtain ⟨root', hassign', hfits, hleaf'⟩ := ih h.tail hmid
          refine ⟨root', ?_, hfits, fun path hpath => ?_⟩
          · rw [List.filterMap_cons]
            simp only [setting?, hname', Option.map_some,
              Setting.assignAll, hassign]
            exact hassign'
          · rw [hleaf' path hpath, hleaf, value?_cons, hsets.name]
            by_cases hway : path = way
            · subst hway
              rw [h.value?_eq_none hsets.name, if_pos rfl, if_pos rfl,
                Option.none_or]
            · have hne : nameOf way ≠ nameOf path :=
                fun heq => hway (nameOf_inj hpath hsets.isKey heq.symm)
              rw [if_neg hway, if_neg hne, Option.none_or]

/-- In whatever order the settings of variables are met, they are met as those
of the variables in some order. -/
theorem exists_perm_of_arrangeEntries (order : TableOrder)
    (h : WellTyped vars) :
    ∃ vars', vars.Perm vars' ∧
      Setting.arrangeEntries order (settings vars) =
        vars'.filterMap setting? := by
  have heach : Setting.arrangeEach order [] (vars.filterMap setting?) =
      vars.filterMap setting? := by
    rw [Setting.arrangeEach_eq_map, List.map_filterMap]
    refine List.filterMap_congr fun v _ => ?_
    unfold setting?
    cases settingName? v.1 <;> rfl
  rw [settings_eq_filterMap h.nodup_names, Setting.arrangeEntries, heach]
  exact exists_perm_filterMap (Setting.sortByRank_perm _ _)

end Variable

open Schema

/-- The names at the root of settings are names of paths already. -/
theorem parse_of_fits {origin : Option String}
    {entries : List (String × Setting)}
    (h : Schema.settings.Fits (.table origin entries)) :
    ∀ e ∈ entries, SettingPath.parse e.1 = SettingPath.ofName e.1 := by
  have hnames : ∀ name ∈ ["cache", "resolver", "logging"],
      SettingPath.parse name = SettingPath.ofName name := by
    decide +kernel
  exact fun e he => hnames e.1 (h.name_mem he)

theorem assignAll_eq_mergeAll {entries : List (String × Setting)}
    (h : ∀ e ∈ entries, SettingPath.parse e.1 = SettingPath.ofName e.1)
    (root : Setting) :
    root.assignAll entries = some (root.mergeAll entries) := by
  induction entries generalizing root with
  | nil => rfl
  | cons e rest ih =>
      obtain ⟨hname, hrest⟩ := List.forall_mem_cons.1 h
      rw [Setting.assignAll, hname]
      exact ih hrest (root.merge e.1 e.2)

/-- A document of settings is put into settings, and goes before what was
there. -/
theorem assignAll_of_fits {origin : Option String}
    {entries : List (String × Setting)} {root : Setting}
    (h : Schema.settings.Fits (.table origin entries))
    (hroot : Schema.settings.Fits root) :
    ∃ root', root.assignAll entries = some root' ∧ Schema.settings.Fits root' ∧
      ∀ path, root'.leaf? path = ((Setting.table none entries).leaf? path).or
        (root.leaf? path) := by
  have hmerge := ((Schema.fits_table_iff origin).1 h).mergeAll hroot
  exact ⟨_, assignAll_eq_mergeAll (parse_of_fits h) root, hmerge.1, hmerge.2⟩

/-- Layers can be put into any settings, and go before what was there with what
they tell about keys. -/
def Tells (layers : List (Except LoadFailure (List (String × Setting))))
    (leaf : List String → Option Scalar) : Prop :=
  ∀ tree, Schema.settings.Fits tree → ∃ tree',
    addLayers tree layers = .ok tree' ∧
    Schema.settings.Fits tree' ∧
    ∀ path, IsKey path → tree'.leaf? path = (leaf path).or (tree.leaf? path)

variable {layers layers' : List (Except LoadFailure (List (String × Setting)))}
  {leaf leaf' : List String → Option Scalar}

theorem tells_empty : Tells [] (Setting.table none []).leaf? := by
  intro tree htree
  refine ⟨tree, rfl, htree, fun path _ => ?_⟩
  rw [Setting.leaf?_empty, Option.none_or]

theorem tells_entries {entries : List (String × Setting)}
    (h : Schema.settings.Fits (.table none entries)) (order : TableOrder) :
    Tells [.ok (Setting.arrangeEntries order entries)]
      (Setting.table none entries).leaf? := by
  intro tree htree
  obtain ⟨tree', hassign, hfits, hleaf⟩ :=
    assignAll_of_fits (fits_arrangeEntries h order) htree
  refine ⟨tree', ?_, hfits, fun path _ => ?_⟩
  · simp only [addLayers, addLayer, hassign]
  · rw [hleaf, leaf?_arrangeEntries h]

theorem tells_variables {vars : List (String × String)}
    (h : Variable.WellTyped vars) (order : TableOrder) :
    Tells [.ok (Setting.arrangeEntries order (Variable.settings vars))]
      (Variable.value? vars) := by
  intro tree htree
  obtain ⟨vars', hperm, hentries⟩ :=
    Variable.exists_perm_of_arrangeEntries order h
  obtain ⟨tree', hassign, hfits, hleaf⟩ := (h.perm hperm).assignAll htree
  refine ⟨tree', ?_, hfits, fun path hpath => ?_⟩
  · simp only [addLayers, addLayer, hentries, hassign]
  · rw [hleaf path hpath, h.value?_perm hperm]

theorem tells_environment {env : Environment} {vars : List (String × String)}
    (hvars : env.texts? = some vars) (h : Variable.WellTyped vars)
    (loader : Loader) :
    Tells [loader.arrange .environment (environmentLayer env)]
      (Variable.value? vars) := by
  rw [environmentLayer, hvars]
  exact tells_variables h _

theorem addLayers_append (tree : Setting)
    (layers layers' : List (Except LoadFailure (List (String × Setting)))) :
    addLayers tree (layers ++ layers') =
      (addLayers tree layers).bind fun mid => addLayers mid layers' := by
  induction layers generalizing tree with
  | nil => rfl
  | cons layer layers ih =>
      rw [List.cons_append, addLayers, addLayers]
      cases addLayer tree layer with
      | error failure => rfl
      | ok mid => exact ih mid

/-- Of layers that are put together, the later ones go before the earlier
ones. -/
theorem Tells.append (h : Tells layers leaf) (h' : Tells layers' leaf') :
    Tells (layers ++ layers') fun path => (leaf' path).or (leaf path) := by
  intro tree htree
  obtain ⟨mid, hadd, hmid, hleaf⟩ := h tree htree
  obtain ⟨tree', hadd', hfits, hleaf'⟩ := h' mid hmid
  refine ⟨tree', ?_, hfits, fun path hpath => ?_⟩
  · rw [addLayers_append, hadd]
    exact hadd'
  · rw [hleaf' path hpath, hleaf path hpath, Option.or_assoc]

theorem fits_emptyTable : Schema.settings.Fits Setting.emptyTable :=
  (Schema.fits_table_iff none).2 (fitsAll_nil _)

theorem settle_of_fits {tree : Setting} (h : Schema.settings.Fits tree)
    (order : TableOrder) :
    ∃ tree', (tree.arrange order []).settle = some tree' ∧
    Schema.settings.Fits tree' ∧
      ∀ path, tree'.leaf? path = tree.leaf? path := by
  obtain ⟨origin, entries, rfl, hentries⟩ := h.eq_table
  obtain ⟨tree', hassign, hfits, hleaf⟩ :=
    assignAll_of_fits (fits_arrangeEntries h order) fits_emptyTable
  refine ⟨tree', hassign, hfits, fun path => ?_⟩
  rw [hleaf, Setting.emptyTable, Setting.leaf?_empty, Option.or_none,
    Setting.leaf?_origin none origin, leaf?_arrangeEntries h]

/-- Layers make settings, in which every value is what the layers tell, or else
the default. -/
theorem Tells.ofLayers (h : Tells layers leaf) (loader : Loader) :
    ∃ s, Settings.ofLayers loader layers = .ok s ∧ Schema.settings.Fits s.tree ∧
      ∀ path, IsKey path →
        s.tree.leaf? path =
          (leaf path).or (Settings.default.tree.leaf? path) := by
  obtain ⟨tree, hadd, hfits, hleaf⟩ := h _ fits_emptyTable
  obtain ⟨tree', hsettle, hfits', hleaf'⟩ :=
    settle_of_fits hfits (loader.order .gathered)
  obtain ⟨s, hs, hsfits, hsleaf⟩ :=
    Settings.ofSetting_reads _ (hfits'.arrange (loader.order .converted) [])
  refine ⟨s, ?_, hsfits, fun path hpath => ?_⟩
  · simp only [Settings.ofLayers, hadd, hsettle, hs]
  · rw [hsleaf, hfits'.leaf?_arrange, hleaf', hleaf path hpath,
      Setting.emptyTable, Setting.leaf?_empty, Option.or_none]

end FileDigest
