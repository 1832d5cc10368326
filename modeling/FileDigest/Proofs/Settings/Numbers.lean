import FileDigest.Proofs.Settings.Precedence
import FileDigest.Proofs.Settings.Relabel

/-!
# Sources with numbers of any size

Sources whose numbers are not in range do not fit the schema of settings, and
yet they are put together as if they did, since nobody looks at a number before
the tree is converted. Here they are put together with a zero, or a one, in the
place of every number. Which number stands at the end of a way is then told by
the places at which the tree has a one if that number, and no other, is marked
by it (`Scalar.eq_of_marked`, `TellsAll`). The two settings that are numbers
become words, or one of them that does not is the fault (`Settings.Loads`).
-/

namespace FileDigest

namespace Scalar

def isNumber : Scalar → Bool
  | integer _ => true
  | float _ => true
  | _ => false

/-- The word that a number becomes, or the integer that becomes none. -/
def word? : Scalar → Except Int UInt64
  | integer i =>
      if 0 ≤ i ∧ i < wordLimit then .ok (UInt64.ofNat i.toNat) else .error i
  | float x => .ok (Decimal.toWord x)
  | _ => .ok 0

def zeroed : Scalar → Scalar
  | integer _ => integer 0
  | float _ => integer 0
  | s => s

open Classical in
/-- A one in the place of a certain number, and a zero in the place of any
other. -/
noncomputable def marked (s t : Scalar) : Scalar :=
  if t.isNumber ∧ t = s then integer 1 else t.zeroed

theorem zeroed_of_isNumber {s : Scalar} (h : s.isNumber = true) :
    s.zeroed = integer 0 := by
  cases s with
  | integer i => rfl
  | float x => rfl
  | _ => cases h

theorem zeroed_of_not_isNumber {s : Scalar} (h : s.isNumber = false) :
    s.zeroed = s := by
  cases s with
  | integer i => cases h
  | float x => cases h
  | _ => rfl

theorem marked_self {s : Scalar} (h : s.isNumber = true) :
    marked s s = integer 1 :=
  if_pos ⟨h, rfl⟩

theorem marked_of_not_isNumber {t : Scalar} (h : t.isNumber = false)
    (s : Scalar) : marked s t = t := by
  unfold marked
  rw [if_neg (by simp [h]), zeroed_of_not_isNumber h]

theorem marked_nil (s : Scalar) : marked s nil = nil :=
  marked_of_not_isNumber rfl s

theorem isNumber_marked (s t : Scalar) :
    (marked s t).isNumber = t.isNumber := by
  cases h : t.isNumber with
  | false => rw [marked_of_not_isNumber h, h]
  | true =>
      unfold marked
      rw [zeroed_of_isNumber h]
      split <;> rfl

theorem eq_of_marked_self {s t : Scalar} (h : marked s t = integer 1) :
    t = s := by
  cases ht : t.isNumber with
  | false =>
      rw [marked_of_not_isNumber ht] at h
      rw [h] at ht
      cases ht
  | true =>
      by_contra hne
      unfold marked at h
      rw [if_neg fun hand => hne hand.2, zeroed_of_isNumber ht] at h
      cases h

/-- What cannot be told apart by marks is the same. -/
theorem eq_of_marked {s t : Scalar} (h : ∀ r, marked r s = marked r t) :
    s = t := by
  cases hs : s.isNumber with
  | true => exact (eq_of_marked_self ((h s).symm.trans (marked_self hs))).symm
  | false =>
      have ht : t.isNumber = false := by
        rw [← isNumber_marked s t, ← h s, isNumber_marked, hs]
      rw [← marked_of_not_isNumber hs s, h s, marked_of_not_isNumber ht]

theorem option_eq_of_marked {o o' : Option Scalar}
    (h : ∀ r, o.map (marked r) = o'.map (marked r)) : o = o' := by
  cases o with
  | none =>
      cases o' with
      | none => rfl
      | some t => cases h nil
  | some s =>
      cases o' with
      | none => cases h nil
      | some t =>
          exact congrArg some (eq_of_marked fun r => Option.some.inj (h r))

end Scalar

open Scalar

theorem Kind.has_marked (kind : Kind) (s t : Scalar) :
    kind.has (marked s t) = kind.has t.zeroed := by
  cases h : t.isNumber with
  | false => rw [marked_of_not_isNumber h, zeroed_of_not_isNumber h]
  | true =>
      unfold marked
      rw [zeroed_of_isNumber h]
      split
      · cases kind <;> decide
      · rfl

theorem Kind.has_zeroed {kind : Kind} (hkind : kind ≠ .integer) {s : Scalar}
    (h : kind.has s.zeroed = true) : kind.has s = true := by
  cases s with
  | integer i => cases kind <;> simp_all [has, zeroed]
  | float x => cases kind <;> simp_all [has, zeroed]
  | _ => exact h

namespace Schema

/-- Whether a tree fits is a question of the kinds of its values. -/
theorem Fits.relabel_congr {f g : Scalar → Scalar}
    (hfg : ∀ (kind : Kind) s, kind.has (f s) = true → kind.has (g s) = true)
    {schema : Schema} {v : Setting} (h : schema.Fits (v.relabel f)) :
    schema.Fits (v.relabel g) := by
  induction schema generalizing v with
  | never => cases v <;> exact h.elim
  | value kind =>
      cases v with
      | scalar origin s => exact hfg kind s h
      | _ => exact h.elim
  | record fields ih =>
      cases v with
      | table origin entries =>
          have hentries : FitsAll fields (Setting.relabelEntries f entries) := h
          rw [Setting.relabelEntries_eq_map] at hentries
          obtain ⟨hnodup, hfits⟩ := hentries
          show FitsAll fields (Setting.relabelEntries g entries)
          rw [Setting.relabelEntries_eq_map]
          rw [List.map_map] at hnodup
          refine ⟨by rwa [List.map_map], List.forall_mem_map.2 fun e he => ?_⟩
          obtain ⟨hlower, hfit⟩ := List.forall_mem_map.1 hfits e he
          exact ⟨hlower, ih e.1 hfit⟩
      | _ => exact h.elim

theorem Fits.marked {schema : Schema} {v : Setting}
    (h : schema.Fits (v.relabel zeroed)) (s : Scalar) :
    schema.Fits (v.relabel (Scalar.marked s)) :=
  h.relabel_congr fun kind t ht => (kind.has_marked s t).trans ht

theorem Fits.of_marked {schema : Schema} {v : Setting} {s : Scalar}
    (h : schema.Fits (v.relabel (Scalar.marked s))) :
    schema.Fits (v.relabel zeroed) :=
  h.relabel_congr fun kind t ht => (kind.has_marked s t).symm.trans ht

def Numberless : Schema → Prop
  | value kind => kind ≠ .integer
  | record fields => ∀ name, (fields name).Numberless
  | never => True

/-- A tree in which no number was exchanged fits as it is. -/
theorem Fits.of_zeroed {schema : Schema} (hschema : schema.Numberless)
    {v : Setting} (h : schema.Fits (v.relabel zeroed)) :
    schema.Fits v := by
  induction schema generalizing v with
  | never => cases v <;> exact h.elim
  | value kind =>
      cases v with
      | scalar origin s => exact kind.has_zeroed hschema h
      | _ => exact h.elim
  | record fields ih =>
      cases v with
      | table origin entries =>
          have hentries :
              FitsAll fields (Setting.relabelEntries zeroed entries) := h
          rw [Setting.relabelEntries_eq_map] at hentries
          obtain ⟨hnodup, hfits⟩ := hentries
          rw [List.map_map] at hnodup
          refine ⟨hnodup, fun e he => ?_⟩
          obtain ⟨hlower, hfit⟩ := List.forall_mem_map.1 hfits e he
          exact ⟨hlower, ih e.1 (hschema e.1) hfit⟩
      | _ => exact h.elim

theorem numberless_ofFields {fields : List (String × Schema)}
    (h : ∀ field ∈ fields, field.2.Numberless) :
    (ofFields fields).Numberless := by
  intro name
  show ((fields.lookup name).getD never).Numberless
  cases hlookup : fields.lookup name with
  | none => exact trivial
  | some sub =>
      obtain ⟨l₁, l₂, rfl, -⟩ := List.lookup_eq_some_iff.1 hlookup
      exact h (name, sub) (by simp)

theorem numberless_logging : logging.Numberless := by
  apply numberless_ofFields
  simp [Numberless]

end Schema

namespace Variable

def exchange (t : String → String) (v : String × String) : String × String :=
  (v.1, t v.2)

/-- The text of a zero in the place of that of a number. -/
def zeroedText (value : String) : String :=
  if (scalar value).isNumber then "0" else value

open Classical in
/-- The text of a one in the place of that of a certain number, and the text of
a zero in the place of that of any other. -/
noncomputable def markedText (s : Scalar) (value : String) : String :=
  if (scalar value).isNumber ∧ scalar value = s then "1" else zeroedText value

theorem scalar_zeroedText (value : String) : scalar (zeroedText value) =
    (scalar value).zeroed := by
  unfold zeroedText
  split
  · rename_i h
    rw [zeroed_of_isNumber h]
    rfl
  · rename_i h
    rw [zeroed_of_not_isNumber (Bool.not_eq_true _ ▸ h)]

theorem scalar_markedText (s : Scalar) (value : String) :
    scalar (markedText s value) = marked s (scalar value) := by
  unfold markedText marked
  split
  · rfl
  · exact scalar_zeroedText value

variable {t t' : String → String} {f : Scalar → Scalar}
  {vars : List (String × String)}

/-- Whether variables set what they may is a question of the kinds of their
values. -/
theorem WellTyped.exchange_congr
    (htt' : ∀ (kind : Kind) value, kind.has (scalar (t value)) = true →
      kind.has (scalar (t' value)) = true)
    (h : WellTyped (vars.map (exchange t))) :
    WellTyped (vars.map (exchange t')) := by
  refine ⟨List.forall_mem_map.2 fun v hv hsome => ?_,
    List.pairwise_map.2 (List.pairwise_map.1 h.distinct)⟩
  obtain ⟨way, hwords, hname, kind, hkind, hhas⟩ :=
    List.forall_mem_map.1 h.sets v hv hsome
  exact ⟨way, hwords, hname, kind, hkind, htt' kind v.2 hhas⟩

theorem WellTyped.marked (h : WellTyped (vars.map (exchange zeroedText)))
    (s : Scalar) : WellTyped (vars.map (exchange (markedText s))) := by
  refine h.exchange_congr fun kind value hhas => ?_
  rw [scalar_markedText, kind.has_marked, ← scalar_zeroedText]
  exact hhas

theorem settings_exchange (h : ∀ value, scalar (t value) = f (scalar value)) :
    settings (vars.map (exchange t)) = Setting.relabelEntries f
      (settings vars) := by
  induction vars using List.reverseRecOn with
  | nil => rfl
  | append_singleton vars v ih =>
      rw [List.map_append, List.map_singleton, settings_concat, settings_concat,
        ih, exchange, h]
      cases settingName? v.1 with
      | none => rfl
      | some key =>
          exact Setting.putEntry_relabel f key
            (.scalar (some origin) (scalar v.2)) (settings vars)

theorem value?_exchange (h : ∀ value, scalar (t value) = f (scalar value))
    (way : List String) :
    value? (vars.map (exchange t)) way = (value? vars way).map f := by
  induction vars with
  | nil => rfl
  | cons v vars ih =>
      rw [List.map_cons, value?_cons, value?_cons, ih, exchange, h]
      split <;> rfl

end Variable

open Schema

variable {layers layers' : List (Except LoadFailure (List (String × Setting)))}
  {leaf leaf' : List String → Option Scalar}

/-- With a one in the place of any number and a zero in the place of the others,
the layers tell what stands there. -/
def TellsAll (layers : List (Except LoadFailure (List (String × Setting))))
    (leaf : List String → Option Scalar) : Prop :=
  ∀ s, Tells (layers.map fun layer =>
    layer.map (Setting.relabelEntries (marked s)))
    fun path => (leaf path).map (marked s)

theorem TellsAll.append (h : TellsAll layers leaf)
    (h' : TellsAll layers' leaf') :
    TellsAll (layers ++ layers') fun path => (leaf' path).or (leaf path) := by
  intro s
  have happend := (h s).append (h' s)
  rw [List.map_append]
  simp only [Option.map_or]
  exact happend

theorem tellsAll_empty : TellsAll [] (Setting.table none []).leaf? := by
  intro s tree htree
  refine ⟨tree, rfl, htree, fun path _ => ?_⟩
  simp only [Setting.leaf?_empty, Option.map_none, Option.none_or]

theorem tellsAll_entries {entries : List (String × Setting)}
    (h : Schema.settings.Fits ((Setting.table none entries).relabel zeroed))
    (order : TableOrder) :
    TellsAll [.ok (Setting.arrangeEntries order entries)]
      (Setting.table none entries).leaf? := by
  intro s
  have htells := tells_entries (h.marked s) order
  rw [Setting.arrangeEntries_relabel] at htells
  simp only [← Setting.leaf?_relabel]
  exact htells

theorem tellsAll_environment {env : Environment} {vars : List (String × String)}
    (hvars : env.texts? = some vars)
    (h : Variable.WellTyped (vars.map (Variable.exchange Variable.zeroedText)))
    (loader : Loader) :
    TellsAll [loader.arrange .environment (environmentLayer env)]
      (Variable.value? vars) := by
  intro s
  have htells := tells_variables (h.marked s) (loader.order .environment)
  rw [Variable.settings_exchange (Variable.scalar_markedText s),
    funext (Variable.value?_exchange (Variable.scalar_markedText s)),
    Setting.arrangeEntries_relabel] at htells
  rw [environmentLayer, hvars]
  exact htells

theorem tellsAll_home {loader : Loader} {disk : Disk} {env : Environment}
    {entries : List (String × Setting)} (h : HomeSets loader disk env entries)
    (hfits : Schema.settings.Fits
      ((Setting.table none entries).relabel zeroed)) :
    TellsAll (homeLayers loader disk env)
      (Setting.table none entries).leaf? := by
  unfold homeLayers
  cases hglobal : globalFile env with
  | none =>
      obtain rfl : entries = [] := by simpa only [HomeSets, hglobal] using h
      exact tellsAll_empty
  | some path =>
      simp only [optionalFile_of_homeSets hglobal h]
      exact tellsAll_entries hfits _

theorem tellsAll_named {loader : Loader} {disk : Disk} {explicit : Option Path}
    {entries : List (String × Setting)}
    (h : NamedSets loader disk explicit entries)
    (hfits : Schema.settings.Fits
      ((Setting.table none entries).relabel zeroed)) :
    TellsAll (namedLayers loader disk explicit)
      (Setting.table none entries).leaf? := by
  cases explicit with
  | none =>
      obtain rfl : entries = [] := h
      exact tellsAll_empty
  | some path =>
      simp only [namedLayers, (requiredFile_of_namedSets h).2]
      exact tellsAll_entries hfits _

/-- The layers make a tree in which stands what they tell, and that fits but for
its numbers. -/
theorem TellsAll.tree (h : TellsAll layers leaf) (order : TableOrder) :
    ∃ mid tree, addLayers Setting.emptyTable layers = .ok mid ∧
      (mid.arrange order []).settle = some tree ∧
      Schema.settings.Fits (tree.relabel zeroed) ∧
      ∀ path, IsKey path → tree.leaf? path = leaf path := by
  have hmarked : ∀ s, ∃ mid tree,
      addLayers Setting.emptyTable layers = .ok mid ∧
      (mid.arrange order []).settle = some tree ∧
      Schema.settings.Fits (tree.relabel (marked s)) ∧
      ∀ path, IsKey path → (tree.leaf? path).map (marked s) =
        (leaf path).map (marked s) := by
    intro s
    obtain ⟨mid', hadd, hmid, hleaf⟩ := h s _ fits_emptyTable
    obtain ⟨tree', hsettle, htree, hleaf'⟩ := settle_of_fits hmid order
    have hrelabel := addLayers_relabel (marked_nil s) Setting.emptyTable layers
    rw [show Setting.emptyTable.relabel (marked s) = Setting.emptyTable from
      rfl, hadd] at hrelabel
    cases hmid' : addLayers Setting.emptyTable layers with
    | error failure =>
        rw [hmid'] at hrelabel
        cases hrelabel
    | ok mid =>
        rw [hmid'] at hrelabel
        obtain rfl : mid' = mid.relabel (marked s) := Except.ok.inj hrelabel
        rw [Setting.arrange_relabel, Setting.settle_relabel (marked_nil s)]
          at hsettle
        obtain ⟨tree, hsettle', rfl⟩ := Option.map_eq_some_iff.1 hsettle
        refine ⟨mid, tree, rfl, hsettle', htree, fun path hpath => ?_⟩
        rw [← Setting.leaf?_relabel, hleaf', hleaf path hpath,
          Setting.emptyTable, Setting.leaf?_empty, Option.or_none]
  obtain ⟨mid, tree, hadd, hsettle, htree, -⟩ := hmarked .nil
  refine ⟨mid, tree, hadd, hsettle, htree.of_marked, fun path hpath => ?_⟩
  refine option_eq_of_marked fun s => ?_
  obtain ⟨mid', tree', hadd', hsettle', -, hleaf⟩ := hmarked s
  obtain rfl : mid = mid' := Except.ok.inj (hadd.symm.trans hadd')
  obtain rfl : tree = tree' := Option.some.inj (hsettle.symm.trans hsettle')
  exact hleaf path hpath

/-- What becomes of the number that is given, or else of the default. -/
def numberOr (default : UInt64) (given : Option Scalar) : Except Int UInt64 :=
  given.elim (.ok default) word?

/-- A number that is a word is taken, and any other one is the fault of its
setting. -/
def Converts {α : Type} (number : Except Int UInt64) (key : String)
    (make : UInt64 → α) (answer : Except ConfigFault α) : Prop :=
  match number with
  | .ok n => answer = .ok (make n)
  | .error i =>
      ∃ origin,
        answer = .error (.wrongKind (.integer64 i) .unsigned (some key) origin)

namespace Setting

variable {schema : List (String × Schema)} {origin : Option String}
  {entries : List (String × Setting)} {name : String}

theorem eq_table_of_zeroed {v : Setting}
    (h : (Schema.ofFields schema).Fits (v.relabel zeroed)) :
    ∃ origin entries, v = table origin entries := by
  cases v with
  | table origin entries => exact ⟨origin, entries, rfl⟩
  | _ => exact h.elim

theorem eq_number_of_zeroed {v : Setting}
    (h : (Schema.value .integer).Fits (v.relabel zeroed)) :
    ∃ origin s, v = scalar origin s ∧ s.isNumber = true := by
  cases v with
  | scalar origin s =>
      refine ⟨origin, s, rfl, ?_⟩
      cases s with
      | integer i => rfl
      | float x => rfl
      | _ => cases h
  | _ => exact h.elim

/-- The first entry of a record is that of a field, and no other entry has its
name. -/
theorem exists_lookup_of_zeroed {v : Setting}
    (h : (Schema.ofFields schema).Fits
      ((table origin ((name, v) :: entries)).relabel zeroed)) :
    ∃ sub, schema.lookup name = some sub ∧ sub.Fits (v.relabel zeroed) ∧
      name ∉ entries.map Prod.fst ∧
      (Schema.ofFields schema).Fits
        ((table origin entries).relabel zeroed) := by
  have hall : Schema.FitsAll (fun name => (schema.lookup name).getD .never)
      ((name, v.relabel zeroed) :: relabelEntries zeroed entries) := h
  obtain ⟨sub, hsub, hv⟩ :=
    Schema.exists_lookup_of_fits (hall.2 _ List.mem_cons_self).2
  have hnotMem := (List.nodup_cons.1 hall.1).1
  rw [relabelEntries_eq_map, List.map_map] at hnotMem
  exact ⟨sub, hsub, hv, hnotMem, hall.tail⟩

theorem leaf?_arrange_of_zeroed {schema : Schema} {v : Setting}
    (h : schema.Fits (v.relabel zeroed)) (order : TableOrder)
    (place : List PathStep) (path : List String) :
    (v.arrange order place).leaf? path = v.leaf? path := by
  refine option_eq_of_marked fun s => ?_
  rw [← leaf?_relabel, ← arrange_relabel, (h.marked s).leaf?_arrange,
    leaf?_relabel]

theorem toUnsigned_number {s : Scalar} (hs : s.isNumber = true)
    (origin : Option String) :
    (scalar origin s).toUnsigned = match s.word? with
      | .ok n => .ok n
      | .error i =>
          .error (.wrongKind (.integer64 i) .unsigned none origin) := by
  cases s with
  | integer i =>
      simp only [toUnsigned, word?]
      split <;> rfl
  | float x => rfl
  | _ => cases hs

/-- A record of one number is made of the number that is given for it, or else
is the default. -/
theorem converts_toRecord {α : Type} {name : String} {v : Setting}
    (h : (Schema.ofFields [(name, .value .integer)]).Fits (v.relabel zeroed))
    (record : String) {put : UInt64 → α → α} {default : α} {n : UInt64}
    (hdefault : put n default = default) :
    Converts (numberOr n (v.leaf? [name])) name (put · default)
      (v.toRecord record [(name, .of toUnsigned put)] default) := by
  obtain ⟨origin, entries, rfl⟩ := eq_table_of_zeroed h
  have hname {key : String} {sub : Schema}
      (hsub : [(name, Schema.value .integer)].lookup key = some sub) :
      key = name ∧ sub = .value .integer := by
    rw [lookup_cons] at hsub
    split at hsub
    · exact ⟨‹_›, (Option.some.inj hsub).symm⟩
    · cases hsub
  cases entries with
  | nil => exact congrArg Except.ok hdefault.symm
  | cons e rest =>
      obtain ⟨key, w⟩ := e
      obtain ⟨sub, hsub, hfits, hnotMem, hrest⟩ := exists_lookup_of_zeroed h
      obtain ⟨rfl, rfl⟩ := hname hsub
      -- A second entry would have the name of the first one.
      obtain rfl : rest = [] := by
        cases rest with
        | nil => rfl
        | cons e' rest =>
            obtain ⟨sub', hsub', -⟩ := exists_lookup_of_zeroed hrest
            exact absurd (List.mem_cons.2 (Or.inl (hname hsub').1.symm)) hnotMem
      obtain ⟨source, s, rfl, hs⟩ := eq_number_of_zeroed hfits
      rw [leaf?_table_cons, lookup_cons, if_pos rfl, Option.bind_some]
      simp only [toRecord, fields, List.filterMap_cons, List.filterMap_nil,
        lookup_cons, if_true, Option.map_some, FieldReader.of,
        toUnsigned_number hs source]
      show Converts s.word? _ _ _
      cases s.word? with
      | ok n => rfl
      | error i =>
          exact ⟨source, by simp [changeEach, Except.map, ConfigFault.below,
            PathStep.joinKey]⟩

end Setting

open Setting

theorem CacheSettings.converts_ofSetting (v : Setting)
    (h : Schema.cache.Fits (v.relabel zeroed)) :
    Converts (numberOr default.maxEntries (v.leaf? ["max_entries"]))
      "max_entries" mk
      (ofSetting v) :=
  converts_toRecord h "CacheConfig" rfl

theorem ResolverSettings.converts_ofSetting (v : Setting)
    (h : Schema.resolver.Fits (v.relabel zeroed)) :
    Converts
      (numberOr default.largeFileThreshold (v.leaf? ["large_file_threshold"]))
      "large_file_threshold" mk (ofSetting v) :=
  converts_toRecord h "ResolverConfig" rfl

namespace Settings

/-- The answer is that a setting is a number but no word. -/
def Refuses (key : String) (i : Int) (answer : Except LoadFailure Settings) :
    Prop :=
  ∃ origin, answer =
    .error (.fault (.wrongKind (.integer64 i) .unsigned (some key) origin))

/-- Settings come of two numbers that are words, and else a fault of one that is
none. Which one it is, if neither is a word, depends on the order in which they
are met. -/
def Loads (cache threshold : Except Int UInt64)
    (answer : Except LoadFailure Settings) : Prop :=
  match cache, threshold with
  | .ok c, .ok t => ∃ logging, answer = .ok ⟨⟨c⟩, ⟨t⟩, logging⟩
  | .error i, .ok _ => Refuses "cache.max_entries" i answer
  | .ok _, .error i => Refuses "resolver.large_file_threshold" i answer
  | .error i, .error j =>
      Refuses "cache.max_entries" i answer ∨
        Refuses "resolver.large_file_threshold" j answer

theorem loads_of_cache {i : Int} {answer : Except LoadFailure Settings}
    (h : Refuses "cache.max_entries" i answer) (threshold : Except Int UInt64) :
    Loads (.error i) threshold answer := by
  cases threshold with
  | ok t => exact h
  | error j => exact Or.inl h

theorem loads_of_threshold {j : Int} {answer : Except LoadFailure Settings}
    (h : Refuses "resolver.large_file_threshold" j answer)
    (cache : Except Int UInt64) : Loads cache (.error j) answer := by
  cases cache with
  | ok c => exact h
  | error i => exact Or.inr h

section First

variable {α : Type} {convert : Setting → Except ConfigFault α}
  {put : α → Settings → Settings} {make : UInt64 → α} {name key : String}
  {v : Setting}

theorem changeEach_of_converts {n : UInt64}
    (h : Converts (.ok n) key make (convert v))
    (hread : readers.lookup name = some (.of convert put)) (s : Settings)
    (entries : List (String × Setting)) :
    changeEach s (changes readers ((name, v) :: entries)) =
      changeEach (put (make n) s) (changes readers entries) := by
  rw [Converts] at h
  rw [changes_cons hread, FieldReader.of, h]
  rfl

theorem refuses_of_converts {i : Int}
    (h : Converts (.error i) key make (convert v))
    (hread : readers.lookup name = some (.of convert put)) (s : Settings)
    (entries : List (String × Setting)) :
    Refuses (PathStep.joinKey key (.child name)) i
      ((changeEach s (changes readers ((name, v) :: entries))).mapError
        .fault) := by
  obtain ⟨origin, horigin⟩ := h
  rw [changes_cons hread, FieldReader.of, horigin]
  exact ⟨origin, rfl⟩

end First

/-- The numbers of a table are taken in the order of its entries, up to the
first one that is no word. While a field is not met yet, it has its default. The
induction is on the entries. -/
theorem loads_changeEach {entries : List (String × Setting)}
    (h : Schema.settings.Fits ((table none entries).relabel zeroed))
    (s : Settings)
    (hcache : "cache" ∈ entries.map Prod.fst → s.cache = CacheSettings.default)
    (hresolver : "resolver" ∈ entries.map Prod.fst →
      s.resolver = ResolverSettings.default) :
    Loads (numberOr s.cache.maxEntries
      ((table none entries).leaf? ["cache", "max_entries"]))
      (numberOr s.resolver.largeFileThreshold
        ((table none entries).leaf? ["resolver", "large_file_threshold"]))
      ((changeEach s (changes readers entries)).mapError .fault) := by
  induction entries generalizing s with
  | nil => exact ⟨s.logging, rfl⟩
  | cons e entries ih =>
      obtain ⟨name, v⟩ := e
      obtain ⟨sub, hsub, hv, hnotMem, hrest⟩ := exists_lookup_of_zeroed h
      have hleaf (other key : String) :
          (table none ((name, v) :: entries)).leaf? [other, key] =
            if other = name then v.leaf? [key]
            else (table none entries).leaf? [other, key] := by
        rw [leaf?_table_cons, lookup_cons]
        split <;> rfl
      have hcache' (hmem : "cache" ∈ entries.map Prod.fst) :=
        hcache (List.mem_cons_of_mem name hmem)
      have hresolver' (hmem : "resolver" ∈ entries.map Prod.fst) :=
        hresolver (List.mem_cons_of_mem name hmem)
      have hmem : (name, sub) ∈
          [("cache", Schema.cache), ("resolver", Schema.resolver),
            ("logging", Schema.logging)] :=
        mem_of_lookup hsub
      simp only [List.mem_cons, List.not_mem_nil, or_false, Prod.mk.injEq]
        at hmem
      rw [hleaf, hleaf]
      rcases hmem with ⟨rfl, rfl⟩ | ⟨rfl, rfl⟩ | ⟨rfl, rfl⟩
      · have hread : readers.lookup "cache" = some
            (.of CacheSettings.ofSetting fun c s => { s with cache := c }) :=
          rfl
        rw [if_pos rfl, if_neg (by decide), hcache List.mem_cons_self]
        have hconverts := CacheSettings.converts_ofSetting v hv
        cases hnumber : numberOr CacheSettings.default.maxEntries
          (v.leaf? ["max_entries"]) with
        | error i =>
            rw [hnumber] at hconverts
            exact loads_of_cache
              (refuses_of_converts hconverts hread s entries) _
        | ok c =>
            rw [hnumber] at hconverts
            rw [changeEach_of_converts hconverts hread]
            have hchange := ih hrest { s with cache := ⟨c⟩ } (absurd · hnotMem)
              hresolver'
            rwa [Schema.leaf?_of_notMem hnotMem] at hchange
      · have hread : readers.lookup "resolver" = some
            (.of ResolverSettings.ofSetting fun r s =>
              { s with resolver := r }) :=
          rfl
        rw [if_neg (by decide), if_pos rfl, hresolver List.mem_cons_self]
        have hconverts := ResolverSettings.converts_ofSetting v hv
        cases hnumber : numberOr ResolverSettings.default.largeFileThreshold
            (v.leaf? ["large_file_threshold"]) with
        | error i =>
            rw [hnumber] at hconverts
            exact loads_of_threshold
              (refuses_of_converts hconverts hread s entries) _
        | ok t =>
            rw [hnumber] at hconverts
            rw [changeEach_of_converts hconverts hread]
            have hchange := ih hrest { s with resolver := ⟨t⟩ } hcache'
              (absurd · hnotMem)
            rwa [Schema.leaf?_of_notMem hnotMem] at hchange
      · rw [if_neg (by decide), if_neg (by decide)]
        obtain ⟨logging, hlogging, -⟩ :=
          LogSettings.ofSetting_reads v (hv.of_zeroed Schema.numberless_logging)
        rw [changes_cons rfl, FieldReader.of, hlogging]
        exact ih hrest { s with logging } hcache' hresolver'

/-- A tree that fits but for its numbers is converted as these two are. -/
theorem loads_ofSetting {v : Setting}
    (h : Schema.settings.Fits (v.relabel zeroed)) :
    Loads (numberOr CacheSettings.default.maxEntries
      (v.leaf? ["cache", "max_entries"]))
      (numberOr ResolverSettings.default.largeFileThreshold
        (v.leaf? ["resolver", "large_file_threshold"]))
      ((ofSetting v).mapError .fault) := by
  obtain ⟨origin, entries, rfl⟩ := eq_table_of_zeroed h
  rw [leaf?_origin origin none, leaf?_origin origin none]
  exact loads_changeEach h default (fun _ => rfl) fun _ => rfl

theorem ofLayers_eq_ofSetting {loader : Loader} {mid tree : Setting}
    (hadd : addLayers emptyTable layers = .ok mid)
    (hsettle : (mid.arrange (loader.order .gathered) []).settle = some tree) :
    ofLayers loader layers =
      (ofSetting (tree.arrange (loader.order .converted) [])).mapError
        .fault := by
  simp only [ofLayers, hadd, hsettle]
  cases ofSetting (tree.arrange (loader.order .converted) []) <;> rfl

/-- What becomes of the numbers that a way to a value leads to. -/
def LoadsFrom (leaf : List String → Option Scalar)
    (answer : Except LoadFailure Settings) : Prop :=
  Loads
    (numberOr CacheSettings.default.maxEntries (leaf ["cache", "max_entries"]))
    (numberOr ResolverSettings.default.largeFileThreshold
      (leaf ["resolver", "large_file_threshold"]))
    answer

theorem loadsFrom_ofLayers (h : TellsAll layers leaf) (loader : Loader) :
    LoadsFrom leaf (ofLayers loader layers) := by
  obtain ⟨mid, tree, hadd, hsettle, hfits, hleaf⟩ :=
    h.tree (loader.order .gathered)
  have harranged : Schema.settings.Fits
      ((tree.arrange (loader.order .converted) []).relabel zeroed) := by
    rw [← arrange_relabel]
    exact hfits.arrange _ []
  rw [ofLayers_eq_ofSetting hadd hsettle, LoadsFrom,
    ← hleaf ["cache", "max_entries"] rfl,
    ← hleaf ["resolver", "large_file_threshold"] rfl,
    ← leaf?_arrange_of_zeroed hfits (loader.order .converted) [],
    ← leaf?_arrange_of_zeroed hfits (loader.order .converted) []]
  exact loads_ofSetting harranged

variable {loader : Loader} {disk : Disk} {env : Environment}
  {vars : List (String × String)} {home named : List (String × Setting)}

theorem load_loadsFrom {explicit : Option Path} (hvars : env.texts? = some vars)
    (henv :
      Variable.WellTyped (vars.map (Variable.exchange Variable.zeroedText)))
    (hhome : HomeSets loader disk env home)
    (hhomeFits : Schema.settings.Fits
      ((Setting.table none home).relabel zeroed))
    (hnamed : NamedSets loader disk explicit named)
    (hnamedFits : Schema.settings.Fits
      ((Setting.table none named).relabel zeroed)) :
    LoadsFrom (fun path => ((Variable.value? vars path).or
      ((Setting.table none named).leaf? path)).or
        ((Setting.table none home).leaf? path))
      (load loader disk env explicit) := by
  rw [load_eq_ofLayers env hnamed]
  exact loadsFrom_ofLayers ((tellsAll_home hhome hhomeFits).append
    ((tellsAll_named hnamed hnamedFits).append
      (tellsAll_environment hvars henv loader))) loader

theorem loadFromFile_loadsFrom {path : Path} (hvars : env.texts? = some vars)
    (henv :
      Variable.WellTyped (vars.map (Variable.exchange Variable.zeroedText)))
    (hnamed : NamedSets loader disk (some path) named)
    (hnamedFits : Schema.settings.Fits
      ((Setting.table none named).relabel zeroed)) :
    LoadsFrom (fun path =>
      (Variable.value? vars path).or ((Setting.table none named).leaf? path))
      (loadFromFile loader disk env path) := by
  unfold loadFromFile
  rw [if_pos (requiredFile_of_namedSets hnamed).1]
  exact loadsFrom_ofLayers
    ((tellsAll_named hnamed hnamedFits).append
      (tellsAll_environment hvars henv loader)) loader

end Settings

end FileDigest
