import FileDigest.Proofs.Settings.Schema
import FileDigest.Settings.Conversion

/-!
# Settings as trees

What settings say can be read off a tree of the same form as the one that they
were converted from, `Settings.tree`. A tree of the settings' schema is
converted without a fault, and at the end of every way the settings say what the
tree says there, or else what the defaults say (`Settings.ofSetting_reads`). A
field takes its part of the tree (`Setting.Takes`) and leaves the others alone,
so fields can be met in any order (`Setting.changeEach_reads`).
-/

namespace FileDigest

namespace Schema

def ofFields (fields : List (String × Schema)) : Schema :=
  record fun name => (fields.lookup name).getD never

def cache : Schema :=
  ofFields [("max_entries", value .integer)]

def resolver : Schema :=
  ofFields [("large_file_threshold", value .integer)]

/-- Any name can have a level. -/
def logging : Schema :=
  ofFields [("enabled", value .truth), ("level", value .text),
    ("format", value .text), ("output", value .text), ("color", value .truth),
    ("modules", record fun _ => value .text)]

def settings : Schema :=
  ofFields [("cache", cache), ("resolver", resolver), ("logging", logging)]

theorem exists_lookup_of_fits {fields : List (String × Schema)}
    {e : String × Setting} (h : ((fields.lookup e.1).getD never).Fits e.2) :
    ∃ sub, fields.lookup e.1 = some sub ∧ sub.Fits e.2 := by
  cases hname : fields.lookup e.1 with
  | none =>
      rw [hname, Option.getD_none] at h
      cases hv : e.2 <;> rw [hv] at h <;> exact h.elim
  | some sub =>
      rw [hname, Option.getD_some] at h
      exact ⟨sub, rfl, h⟩

theorem Fits.name_mem {fields : List (String × Schema)} {origin : Option String}
    {entries : List (String × Setting)}
    (h : (ofFields fields).Fits (.table origin entries)) {e : String × Setting}
    (he : e ∈ entries) : e.1 ∈ fields.map Prod.fst := by
  obtain ⟨sub, hlookup, -⟩ := exists_lookup_of_fits (h.2 e he).2
  obtain ⟨l₁, l₂, rfl, -⟩ := List.lookup_eq_some_iff.1 hlookup
  simp

end Schema

def wordTree (n : UInt64) : Setting := .scalar none (.integer n.toNat)

def truthTree (b : Bool) : Setting := .scalar none (.bool b)

def textTree (s : String) : Setting := .scalar none (.text s)

def textsTree (texts : List (String × String)) : Setting :=
  .table none (texts.map fun e => (e.1, textTree e.2))

def CacheSettings.tree (s : CacheSettings) : Setting :=
  .table none [("max_entries", wordTree s.maxEntries)]

def ResolverSettings.tree (s : ResolverSettings) : Setting :=
  .table none [("large_file_threshold", wordTree s.largeFileThreshold)]

def LogSettings.tree (s : LogSettings) : Setting :=
  .table none [("enabled", truthTree s.enabled), ("level", textTree s.level),
    ("format", textTree s.format), ("output", textTree s.output),
    ("color", truthTree s.color), ("modules", textsTree s.modules)]

/-- The tree that says what the settings are. -/
def Settings.tree (s : Settings) : Setting :=
  .table none [("cache", s.cache.tree), ("resolver", s.resolver.tree),
    ("logging", s.logging.tree)]

namespace Setting

/-- A value is converted to something of the schema that says what the value
says, or else what the default says. -/
def Reads {α : Type} (schema : Schema) (tree : α → Setting) (default : α)
    (answer : Except ConfigFault α) (leaf : List String → Option Scalar) :
    Prop :=
  ∃ a, answer = .ok a ∧ schema.Fits (tree a) ∧
    ∀ path, (tree a).leaf? path = (leaf path).or ((tree default).leaf? path)

/-- Under the name of a field stands what its value says, or else what the
default says, and all other fields are left as they are. -/
def Takes {α : Type} (tree : α → Setting) (default : α) (name : String)
    (sub : Schema) (read : FieldReader α) : Prop :=
  ∀ v, sub.Fits v → ∃ change t, read v = .ok change ∧ sub.Fits t ∧
    (∀ rest,
      t.leaf? rest = (v.leaf? rest).or ((tree default).leaf? (name :: rest))) ∧
    ∀ a, tree (change a) = (tree a).put name t

theorem takes_of {α β : Type} {tree : α → Setting} {default : α} {name : String}
    {sub : Schema} {convert : Setting → Except ConfigFault β} {put : β → α → α}
    {subtree : β → Setting} {subdefault : β}
    (hconvert : ∀ v, sub.Fits v →
      Reads sub subtree subdefault (convert v) v.leaf?)
    (hput : ∀ b a, tree (put b a) = (tree a).put name (subtree b))
    (hdefault : ∀ rest, (tree default).leaf? (name :: rest) =
      (subtree subdefault).leaf? rest) :
    Takes tree default name sub (.of convert put) := by
  intro v hv
  obtain ⟨b, hb, hfits, hleaf⟩ := hconvert v hv
  refine ⟨put b, subtree b, ?_, hfits, fun rest => ?_, hput b⟩
  · rw [FieldReader.of, hb]
    rfl
  · rw [hleaf, hdefault]

def TakesEach {α : Type} (tree : α → Setting) (default : α)
    (fields : List (String × Schema))
    (readers : List (String × FieldReader α)) : Prop :=
  List.Forall₂ (fun field reader => reader.1 = field.1 ∧
    Takes tree default field.1 field.2 reader.2) fields readers

section

variable {α : Type} {tree : α → Setting} {default : α}
  {schema : List (String × Schema)} {readers : List (String × FieldReader α)}
  {entries : List (String × Setting)} {v : Setting}

theorem TakesEach.lookup (h : TakesEach tree default schema readers)
    {name : String} {sub : Schema} (hname : schema.lookup name = some sub) :
    ∃ read, readers.lookup name = some read ∧
    Takes tree default name sub read := by
  induction h with
  | nil => cases hname
  | @cons field reader schema readers hfield _ ih =>
      obtain ⟨key, sub'⟩ := field
      obtain ⟨key', read⟩ := reader
      obtain ⟨rfl, htakes⟩ := hfield
      rw [lookup_cons] at hname ⊢
      by_cases hkey : name = key'
      · rw [if_pos hkey] at hname ⊢
        cases hname
        exact ⟨read, rfl, hkey ▸ htakes⟩
      · rw [if_neg hkey] at hname ⊢
        exact ih hname

def changes (readers : List (String × FieldReader α))
    (entries : List (String × Setting)) :
    List (PathStep × Except ConfigFault (α → α)) :=
  entries.filterMap fun e => (readers.lookup e.1).map fun read =>
    (.child e.1, read e.2)

theorem changes_cons {name : String} {read : FieldReader α}
    (h : readers.lookup name = some read) (v : Setting)
    (entries : List (String × Setting)) :
    changes readers ((name, v) :: entries) = (.child name, read v) ::
      changes readers entries := by
  simp only [changes, List.filterMap_cons, h, Option.map_some]

/-- The entries of a table go before what the record said, whatever their order
is: while an entry is not met yet, its field has the default. The induction is
on the entries. -/
theorem changeEach_reads (hreaders : TakesEach tree default schema readers)
    (hentries : Schema.FitsAll (fun name => (schema.lookup name).getD .never)
      entries) (a : α)
    (ha : (Schema.ofFields schema).Fits (tree a))
    (hunmet : ∀ name ∈ entries.map Prod.fst, ∀ rest,
      (tree a).leaf? (name :: rest) = (tree default).leaf? (name :: rest)) :
    ∃ b, changeEach a (changes readers entries) = .ok b ∧
    (Schema.ofFields schema).Fits (tree b) ∧
      ∀ path, (tree b).leaf? path = ((table none entries).leaf? path).or
        ((tree a).leaf? path) := by
  induction entries generalizing a with
  | nil =>
      refine ⟨a, rfl, ha, fun path => ?_⟩
      rw [leaf?_empty, Option.none_or]
  | cons e entries ih =>
      obtain ⟨name, v⟩ := e
      obtain ⟨hlower, hv⟩ := hentries.2 (name, v) List.mem_cons_self
      obtain ⟨sub, hsub, hv⟩ := Schema.exists_lookup_of_fits hv
      obtain ⟨read, hread, htakes⟩ := hreaders.lookup hsub
      obtain ⟨change, t, hchange, ht, hleaf, hput⟩ := htakes v hv
      have hnotMem : name ∉ entries.map Prod.fst :=
        (List.nodup_cons.1 hentries.1).1
      have hfield : ((schema.lookup name).getD .never).Fits t := by
        rwa [hsub, Option.getD_some]
      have hchanged : (Schema.ofFields schema).Fits (tree (change a)) := by
        rw [hput]
        exact Schema.Fits.put ha hlower hfield
      have hleaf' : ∀ path, (tree (change a)).leaf? path =
          ((table none [(name, v)]).leaf? path).or ((tree a).leaf? path) := by
        rw [hput]
        refine Schema.Fits.leaf?_put_or ha fun rest => ?_
        rw [hleaf, hunmet name List.mem_cons_self]
      obtain ⟨b, hb, hfits, hb'⟩ :=
        ih hentries.tail (change a) hchanged fun name' hname' rest => by
        have hne : name' ≠ name := by
          rintro rfl
          exact hnotMem hname'
        rw [hleaf', leaf?_table_cons, lookup_cons, if_neg hne,
          hunmet name' (List.mem_cons_of_mem name hname')]
        rfl
      refine ⟨b, ?_, hfits, fun path => ?_⟩
      · rw [changes_cons hread, hchange]
        exact hb
      · rw [hb', hleaf', ← Option.or_assoc, Schema.leaf?_or_singleton hnotMem]

theorem toRecord_reads (record : String)
    (hreaders : TakesEach tree default schema readers)
    (hdefault : (Schema.ofFields schema).Fits (tree default))
    (h : (Schema.ofFields schema).Fits v) :
    Reads (Schema.ofFields schema) tree default
      (v.toRecord record readers default) v.leaf? := by
  obtain ⟨origin, entries, rfl, hentries⟩ := h.eq_table
  obtain ⟨b, hb, hfits, hleaf⟩ :=
    changeEach_reads hreaders hentries default hdefault fun _ _ _ => rfl
  refine ⟨b, hb, hfits, fun path => ?_⟩
  rw [hleaf, leaf?_origin none origin]

end

variable {origin : Option String}

theorem toUnsigned_reads (default : UInt64) (v : Setting)
    (h : (Schema.value .integer).Fits v) :
    Reads (.value .integer) wordTree default v.toUnsigned v.leaf? := by
  obtain ⟨origin, s, rfl, hs⟩ := h.eq_scalar
  cases s with
  | integer i =>
      have hrange : 0 ≤ i ∧ i < signedLimit := by simpa [Kind.has] using hs
      have hsigned : signedLimit ≤ wordLimit := by decide
      have hword : i < wordLimit := by omega
      have hsize : i.toNat < UInt64.size := by
        have : wordLimit = UInt64.size := rfl
        omega
      have hback : ((UInt64.ofNat i.toNat).toNat : Int) = i := by
        rw [UInt64.toNat_ofNat_of_lt' hsize]
        exact Int.toNat_of_nonneg hrange.1
      refine ⟨UInt64.ofNat i.toNat, if_pos ⟨hrange.1, hword⟩, ?_,
        fun path => ?_⟩
      · rw [wordTree, hback]
        exact hs
      · rw [wordTree, hback]
        cases path <;> rfl
  | _ => cases hs

theorem toBool_reads (default : Bool) (v : Setting)
    (h : (Schema.value .truth).Fits v) :
    Reads (.value .truth) truthTree default v.toBool v.leaf? := by
  obtain ⟨origin, s, rfl, hs⟩ := h.eq_scalar
  cases s with
  | bool b =>
      refine ⟨b, rfl, rfl, fun path => ?_⟩
      cases path <;> rfl
  | _ => cases hs

theorem toText_reads (default : String) (v : Setting)
    (h : (Schema.value .text).Fits v) :
    Reads (.value .text) textTree default v.toText v.leaf? := by
  obtain ⟨origin, s, rfl, hs⟩ := h.eq_scalar
  cases s with
  | text t =>
      refine ⟨t, rfl, rfl, fun path => ?_⟩
      cases path <;> rfl
  | _ => cases hs

theorem entryTexts_of_fits {entries : List (String × Setting)}
    (h : ∀ e ∈ entries, (Schema.value .text).Fits e.2) :
    ∃ texts, entryTexts entries = .ok texts ∧ texts.map Prod.fst =
      entries.map Prod.fst ∧
      ∀ path, (textsTree texts).leaf? path =
        (table origin entries).leaf? path := by
  induction entries with
  | nil => exact ⟨[], rfl, rfl, fun path => by cases path <;> rfl⟩
  | cons e rest ih =>
      obtain ⟨name, v⟩ := e
      obtain ⟨hv, hrest⟩ := List.forall_mem_cons.1 h
      obtain ⟨origin', s, rfl, hs⟩ := hv.eq_scalar
      obtain ⟨texts, htexts, hnames, hleaf⟩ := ih hrest
      cases s with
      | text t =>
          refine ⟨(name, t) :: texts, ?_, ?_, fun path => ?_⟩
          · simp only [entryTexts, toText, htexts]
          · rw [List.map_cons, List.map_cons, hnames]
          · cases path with
            | nil => rfl
            | cons name' path =>
                have hpath := hleaf (name' :: path)
                simp only [textsTree, leaf?_table_cons] at hpath
                simp only [textsTree, leaf?_table_cons,
                  List.map_cons, lookup_cons]
                by_cases hname : name' = name
                · rw [if_pos hname, if_pos hname]
                  cases path <;> rfl
                · rw [if_neg hname, if_neg hname, hpath]
      | _ => cases hs

theorem toTexts_reads (v : Setting)
    (h : (Schema.record fun _ => .value .text).Fits v) :
    Reads (.record fun _ => .value .text) textsTree [] v.toTexts v.leaf? := by
  obtain ⟨origin, entries, rfl, hentries⟩ := h.eq_table
  obtain ⟨texts, htexts, hnames, hleaf⟩ := entryTexts_of_fits fun e he =>
    (hentries.2 e he).2
  have hkeys : (texts.map fun e => (e.1, textTree e.2)).map Prod.fst =
      entries.map Prod.fst := by
    rw [← hnames, List.map_map]
    rfl
  refine ⟨texts, htexts, ⟨hkeys ▸ hentries.1, fun e he => ?_⟩, fun path => ?_⟩
  · have hkey : e.1 ∈ entries.map Prod.fst := hkeys ▸ List.mem_map_of_mem he
    obtain ⟨e', he', hname⟩ := List.mem_map.1 hkey
    obtain ⟨text, -, rfl⟩ := List.mem_map.1 he
    exact ⟨hname ▸ (hentries.2 e' he').1, rfl⟩
  · rw [hleaf]
    cases path with
    | nil => rfl
    | cons name rest => exact Option.or_none.symm

end Setting

open Setting

theorem CacheSettings.ofSetting_reads (v : Setting) (h : Schema.cache.Fits v) :
    Reads Schema.cache CacheSettings.tree default (ofSetting v) v.leaf? := by
  have hreaders : TakesEach CacheSettings.tree default
      [("max_entries", .value .integer)] readers :=
    .cons ⟨rfl, takes_of (toUnsigned_reads default.maxEntries) (fun _ _ => rfl)
      fun _ => rfl⟩ .nil
  exact toRecord_reads _ hreaders (by decide +kernel) h

theorem ResolverSettings.ofSetting_reads (v : Setting)
    (h : Schema.resolver.Fits v) :
    Reads Schema.resolver ResolverSettings.tree default
      (ofSetting v) v.leaf? := by
  have hreaders : TakesEach ResolverSettings.tree default
      [("large_file_threshold", .value .integer)] readers :=
    .cons ⟨rfl, takes_of (toUnsigned_reads default.largeFileThreshold)
      (fun _ _ => rfl) fun _ => rfl⟩ .nil
  exact toRecord_reads _ hreaders (by decide +kernel) h

theorem LogSettings.ofSetting_reads (v : Setting) (h : Schema.logging.Fits v) :
    Reads Schema.logging LogSettings.tree default (ofSetting v) v.leaf? := by
  have hreaders : TakesEach LogSettings.tree default
      [("enabled", .value .truth), ("level", .value .text),
        ("format", .value .text), ("output", .value .text),
        ("color", .value .truth),
        ("modules", .record fun _ => .value .text)] readers :=
    .cons ⟨rfl, takes_of (toBool_reads default.enabled) (fun _ _ => rfl)
      fun _ => rfl⟩ <|
    .cons ⟨rfl, takes_of (toText_reads default.level) (fun _ _ => rfl) fun _ =>
      rfl⟩ <|
    .cons ⟨rfl, takes_of (toText_reads default.format) (fun _ _ => rfl) fun _ =>
      rfl⟩ <|
    .cons ⟨rfl, takes_of (toText_reads default.output) (fun _ _ => rfl) fun _ =>
      rfl⟩ <|
    .cons ⟨rfl, takes_of (toBool_reads default.color) (fun _ _ => rfl) fun _ =>
      rfl⟩ <|
    .cons ⟨rfl, takes_of toTexts_reads (fun _ _ => rfl) fun _ => rfl⟩ .nil
  exact toRecord_reads _ hreaders (by decide +kernel) h

/-- A tree of the schema is converted, and the settings say what the tree says,
or else what the defaults say. -/
theorem Settings.ofSetting_reads (v : Setting) (h : Schema.settings.Fits v) :
    Reads Schema.settings Settings.tree default (ofSetting v) v.leaf? := by
  have hreaders : TakesEach Settings.tree default
      [("cache", Schema.cache), ("resolver", Schema.resolver),
        ("logging", Schema.logging)]
      readers :=
    .cons ⟨rfl, takes_of CacheSettings.ofSetting_reads (fun _ _ => rfl) fun _ =>
      rfl⟩ <|
    .cons ⟨rfl, takes_of ResolverSettings.ofSetting_reads (fun _ _ => rfl)
      fun _ => rfl⟩ <|
    .cons ⟨rfl, takes_of LogSettings.ofSetting_reads (fun _ _ => rfl) fun _ =>
      rfl⟩ .nil
  exact toRecord_reads _ hreaders (by decide +kernel) h

theorem leaf?_textsTree (texts : List (String × String)) (name : String) :
    (textsTree texts).leaf? [name] = (texts.lookup name).map .text := by
  induction texts with
  | nil => rfl
  | cons e rest ih =>
      obtain ⟨key, text⟩ := e
      simp only [textsTree, leaf?_table_cons] at ih
      simp only [textsTree, leaf?_table_cons, List.map_cons, lookup_cons]
      by_cases hname : name = key
      · rw [if_pos hname, if_pos hname]
        rfl
      · rw [if_neg hname, if_neg hname, ih]

theorem Settings.leaf?_module (s : Settings) (name : String) :
    s.tree.leaf? ["logging", "modules", name] =
      (s.logging.modules.lookup name).map .text :=
  leaf?_textsTree s.logging.modules name

theorem Settings.nodup_modules_of_fits {s : Settings}
    (h : Schema.settings.Fits s.tree) :
    (s.logging.modules.map Prod.fst).Nodup := by
  have hlogging : Schema.logging.Fits s.logging.tree :=
    (h.2 ("logging", s.logging.tree) (by simp)).2
  have hmodules : (Schema.record fun _ => .value .text).Fits
      (textsTree s.logging.modules) :=
    (hlogging.2 ("modules", textsTree s.logging.modules) (by simp)).2
  have hnodup := hmodules.1
  rw [List.map_map] at hnodup
  exact hnodup

end FileDigest
