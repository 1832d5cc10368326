import FileDigest.Proofs.Lists
import FileDigest.Settings.Setting
import FileDigest.WordLimit

/-!
# Merging trees of one shape

A schema says which names a tree of settings may have at each place and of which
kind its values are. In a tree that fits a schema a value stands where another
tree of the schema has a value, and a table where the other one has a table, so
nothing is lost when one of them is merged into the other: at the end of every
way stands what the tree that was merged in has there, or else what was there
before. That is `Schema.FitsAll.mergeAll`; the induction is on the schema.
-/

namespace FileDigest

inductive Kind where
  | integer
  | truth
  | text
deriving DecidableEq

/-- The integers of the kind are those that are not negative and fit into 64
bits with a sign. -/
def Kind.has : Kind → Scalar → Bool
  | integer, .integer i => 0 ≤ i ∧ i < signedLimit
  | truth, .bool _ => true
  | text, .text _ => true
  | _, _ => false

inductive Schema where
  | never
  | value (kind : Kind)
  | record (fields : String → Schema)

/-- The value without parts at the end of a way down tables. -/
def Setting.leaf? : Setting → List String → Option Scalar
  | scalar _ s, [] => some s
  | _, [] => none
  | v, name :: rest => (v.under? name).bind fun w => w.leaf? rest

/-- The tree in which nothing stands but a value at the end of a way. -/
def Setting.single (v : Setting) : List String → Setting
  | [] => v
  | name :: rest => table none [(name, v.single rest)]

namespace Schema

/-- The tree has the names and the kinds of values that the schema gives it, no
name twice, and all names in lower case. -/
def Fits : Schema → Setting → Prop
  | value kind, .scalar _ s => kind.has s = true
  | record fields, .table _ entries =>
      (entries.map Prod.fst).Nodup ∧ ∀ e ∈ entries, Text.lower e.1 = e.1 ∧
        (fields e.1).Fits e.2
  | _, _ => False

instance decidableFits : ∀ (schema : Schema) (v : Setting),
    Decidable (schema.Fits v)
  | value kind, .scalar _ s => inferInstanceAs (Decidable (kind.has s = true))
  | record fields, .table _ entries =>
      have : ∀ e : String × Setting, Decidable ((fields e.1).Fits e.2) :=
        fun e => decidableFits (fields e.1) e.2
      inferInstanceAs (Decidable ((entries.map Prod.fst).Nodup ∧
        ∀ e ∈ entries, Text.lower e.1 = e.1 ∧ (fields e.1).Fits e.2))
  | never, _ => inferInstanceAs (Decidable False)
  | value _, .table _ _ => inferInstanceAs (Decidable False)
  | value _, .array _ _ => inferInstanceAs (Decidable False)
  | record _, .scalar _ _ => inferInstanceAs (Decidable False)
  | record _, .array _ _ => inferInstanceAs (Decidable False)

def kind? : Schema → List String → Option Kind
  | value kind, [] => some kind
  | record fields, name :: rest => (fields name).kind? rest
  | _, _ => none

end Schema

namespace Setting

@[simp] theorem leaf?_empty (origin : Option String) (path : List String) :
    (table origin []).leaf? path = none := by
  cases path <;> rfl

theorem leaf?_origin (origin origin' : Option String)
    (entries : List (String × Setting)) (path : List String) :
    (table origin entries).leaf? path = (table origin' entries).leaf? path := by
  cases path <;> rfl

theorem leaf?_scalar_cons (origin : Option String) (s : Scalar) (name : String)
    (rest : List String) :
    (scalar origin s).leaf? (name :: rest) = none := rfl

theorem leaf?_table_cons (origin : Option String)
    (entries : List (String × Setting)) (name : String) (rest : List String) :
    (table origin entries).leaf? (name :: rest) =
      (entries.lookup name).bind fun w => w.leaf? rest := rfl

theorem names_putEntry (key : String) (v : Setting)
    (entries : List (String × Setting)) :
    (putEntry key v entries).map Prod.fst =
      if key ∈ entries.map Prod.fst then entries.map Prod.fst
      else entries.map Prod.fst ++ [key] := by
  induction entries with
  | nil => simp
  | cons e rest ih =>
      obtain ⟨k, w⟩ := e
      by_cases hk : k = key
      · simp [putEntry, hk]
      · simp only [putEntry, if_neg hk, List.map_cons, List.mem_cons, ih,
          Ne.symm hk, false_or]
        split <;> rfl

theorem mem_putEntry {key : String} {v : Setting}
    {entries : List (String × Setting)} {e : String × Setting}
    (h : e ∈ putEntry key v entries) : e = (key, v) ∨ e ∈ entries := by
  induction entries with
  | nil => exact Or.inl (List.mem_singleton.1 h)
  | cons e' rest ih =>
      obtain ⟨k, w⟩ := e'
      by_cases hk : k = key
      · rw [putEntry, if_pos hk] at h
        rcases List.mem_cons.1 h with h | h
        · exact Or.inl h
        · exact Or.inr (List.mem_cons_of_mem _ h)
      · rw [putEntry, if_neg hk] at h
        rcases List.mem_cons.1 h with h | h
        · exact Or.inr (h ▸ List.mem_cons_self)
        · rcases ih h with h | h
          · exact Or.inl h
          · exact Or.inr (List.mem_cons_of_mem _ h)

theorem leaf?_put_table (origin : Option String)
    (entries : List (String × Setting)) (key : String) (w : Setting)
    (name : String) (rest : List String) :
    ((table origin entries).put key w).leaf? (name :: rest) =
      if name = key then w.leaf? rest
        else (table origin entries).leaf? (name :: rest) := by
  rw [put, leaf?_table_cons]
  by_cases h : name = key
  · rw [if_pos h, h, lookup_putEntry_self, Option.bind_some]
  · rw [if_neg h, lookup_putEntry_of_ne h, leaf?_table_cons]

end Setting

namespace Schema

open Setting

variable {fields : String → Schema} {t v : Setting}
  {entries : List (String × Setting)} {key : String}

def FitsAll (fields : String → Schema) (entries : List (String × Setting)) :
    Prop :=
  (entries.map Prod.fst).Nodup ∧ ∀ e ∈ entries, Text.lower e.1 = e.1 ∧
    (fields e.1).Fits e.2

theorem fits_table_iff (origin : Option String) :
    (record fields).Fits (table origin entries) ↔
    FitsAll fields entries := Iff.rfl

theorem fitsAll_nil (fields : String → Schema) : FitsAll fields [] :=
  ⟨List.nodup_nil, fun _ he => by cases he⟩

theorem Fits.eq_table (h : (record fields).Fits t) :
    ∃ origin entries, t = table origin entries ∧ FitsAll fields entries := by
  cases t with
  | table origin entries => exact ⟨origin, entries, rfl, h⟩
  | _ => exact h.elim

theorem Fits.eq_scalar {kind : Kind} (h : (value kind).Fits t) :
    ∃ origin s, t = scalar origin s ∧ kind.has s = true := by
  cases t with
  | scalar origin s => exact ⟨origin, s, rfl, h⟩
  | _ => exact h.elim

theorem FitsAll.of_lookup (h : FitsAll fields entries)
    (hv : entries.lookup key = some v) : (fields key).Fits v := by
  obtain ⟨l₁, l₂, rfl, -⟩ := List.lookup_eq_some_iff.1 hv
  exact (h.2 (key, v) (by simp)).2

theorem FitsAll.tail {e : String × Setting}
    (h : FitsAll fields (e :: entries)) : FitsAll fields entries :=
  ⟨(List.nodup_cons.1 h.1).2, fun e' he' => h.2 e' (List.mem_cons_of_mem _ he')⟩

theorem FitsAll.putEntry (h : FitsAll fields entries)
    (hkey : Text.lower key = key) (hv : (fields key).Fits v) :
    FitsAll fields (Setting.putEntry key v entries) := by
  refine ⟨?_, ?_⟩
  · rw [names_putEntry]
    by_cases hmem : key ∈ entries.map Prod.fst
    · rw [if_pos hmem]
      exact h.1
    · rw [if_neg hmem, List.nodup_append]
      refine ⟨h.1, List.nodup_singleton key, ?_⟩
      rintro a ha b hb rfl
      exact hmem (List.mem_singleton.1 hb ▸ ha)
  · intro e he
    rcases mem_putEntry he with rfl | he
    · exact ⟨hkey, hv⟩
    · exact h.2 e he

theorem Fits.put (h : (record fields).Fits t) (hkey : Text.lower key = key)
    (hv : (fields key).Fits v) :
    (record fields).Fits (t.put key v) := by
  obtain ⟨origin, entries, rfl, hentries⟩ := h.eq_table
  exact hentries.putEntry hkey hv

/-- Another tree of the schema can be merged in, and goes before what was
there. -/
def Merges : Schema → Prop
  | record fields => ∀ (t : Setting) (entries : List (String × Setting)),
    (record fields).Fits t → FitsAll fields entries →
      (record fields).Fits (t.mergeAll entries) ∧
        ∀ path, (t.mergeAll entries).leaf? path =
          ((table none entries).leaf? path).or (t.leaf? path)
  | _ => True

/-- What a table has under a name where it may have a table, or else an empty
one. -/
theorem Fits.under {sub : String → Schema} (h : (record fields).Fits t)
    (hsub : fields key = record sub) :
    (record sub).Fits ((t.under? key).getD emptyTable) ∧
      ∀ path, ((t.under? key).getD emptyTable).leaf? path =
        t.leaf? (key :: path) := by
  obtain ⟨origin, entries, rfl, hentries⟩ := h.eq_table
  have hunder : (table origin entries).under? key = entries.lookup key := rfl
  rw [hunder]
  cases hv : entries.lookup key with
  | none =>
      refine ⟨fitsAll_nil sub, fun path => ?_⟩
      rw [leaf?_table_cons, hv]
      cases path <;> rfl
  | some v =>
      refine ⟨hsub ▸ hentries.of_lookup hv, fun path => ?_⟩
      rw [leaf?_table_cons, hv]
      rfl

theorem leaf?_put (h : (record fields).Fits t) (w : Setting)
    (path : List String) :
    (t.put key w).leaf? path =
      match path with
      | [] => none
      | name :: rest =>
          if name = key then w.leaf? rest else t.leaf? (name :: rest) := by
  obtain ⟨origin, entries, rfl, -⟩ := h.eq_table
  cases path with
  | nil => rfl
  | cons name rest => exact leaf?_put_table origin entries key w name rest

theorem leaf?_singleton (key : String) (v : Setting) (path : List String) :
    (table none [(key, v)]).leaf? path =
      match path with
      | [] => none
      | name :: rest => if name = key then v.leaf? rest else none := by
  cases path with
  | nil => rfl
  | cons name rest =>
      rw [leaf?_table_cons, lookup_cons]
      by_cases hname : name = key <;> simp [hname]

theorem leaf?_of_notMem (h : key ∉ entries.map Prod.fst)
    (origin : Option String) (rest : List String) :
    (table origin entries).leaf? (key :: rest) = none := by
  have hnone : entries.lookup key = none := by
    apply List.lookup_eq_none_iff.2
    intro e he
    have hne : key ≠ e.1 := fun heq => h (List.mem_map.2 ⟨e, he, heq.symm⟩)
    simpa using hne
  rw [leaf?_table_cons, hnone, Option.bind_none]

theorem leaf?_or_singleton (h : key ∉ entries.map Prod.fst) (v : Setting)
    (path : List String) :
    ((table none entries).leaf? path).or ((table none [(key, v)]).leaf? path) =
      (table none ((key, v) :: entries)).leaf? path := by
  cases path with
  | nil => rfl
  | cons name rest =>
      rw [leaf?_table_cons none [(key, v)],
        leaf?_table_cons none ((key, v) :: entries), lookup_cons, lookup_cons]
      by_cases hname : name = key
      · rw [hname, leaf?_of_notMem h, Option.none_or, if_pos rfl, if_pos rfl]
      · rw [if_neg hname, if_neg hname]
        exact Option.or_none

/-- Nothing stands below a name where the schema has values. -/
theorem Fits.leaf?_value {kind : Kind} (h : (record fields).Fits t)
    (hvalue : fields key = value kind) (name : String) (rest : List String) :
    t.leaf? (key :: name :: rest) = none := by
  obtain ⟨origin, entries, rfl, hentries⟩ := h.eq_table
  rw [leaf?_table_cons]
  cases hv : entries.lookup key with
  | none => rfl
  | some v =>
      obtain ⟨origin', s, rfl, -⟩ :=
        Fits.eq_scalar (hvalue ▸ hentries.of_lookup hv)
      rfl

/-- Under a name stands what was merged there, and elsewhere what was there
before. -/
theorem Fits.leaf?_put_or (h : (record fields).Fits t) {w : Setting}
    (hw : ∀ rest, w.leaf? rest = (v.leaf? rest).or (t.leaf? (key :: rest)))
    (path : List String) :
    (t.put key w).leaf? path = ((table none [(key, v)]).leaf? path).or
      (t.leaf? path) := by
  rw [leaf?_put h, leaf?_singleton]
  cases path with
  | nil =>
      obtain ⟨origin, entries, rfl, -⟩ := h.eq_table
      rfl
  | cons name rest =>
      by_cases hname : name = key
      · simp only [hname, if_true]
        exact hw rest
      · simp [hname]

theorem Fits.merge (ih : (fields key).Merges) (h : (record fields).Fits t)
    (hkey : Text.lower key = key) (hv : (fields key).Fits v) :
    (record fields).Fits (t.merge key v) ∧
      ∀ path, (t.merge key v).leaf? path =
        ((table none [(key, v)]).leaf? path).or (t.leaf? path) := by
  cases hfield : fields key with
  | never =>
      rw [hfield] at hv
      cases v <;> exact hv.elim
  | value kind =>
      obtain ⟨origin, s, rfl, -⟩ := Fits.eq_scalar (hfield ▸ hv)
      rw [Setting.merge, hkey]
      refine ⟨h.put hkey hv, h.leaf?_put_or fun rest => ?_⟩
      cases rest with
      | nil => rfl
      | cons name rest =>
          rw [leaf?_scalar_cons, h.leaf?_value hfield, Option.or_none]
  | record sub =>
      rw [hfield] at ih
      obtain ⟨origin, entries, rfl, hentries⟩ := Fits.eq_table (hfield ▸ hv)
      obtain ⟨hunder, hleaf⟩ := h.under hfield
      obtain ⟨hfits, hmerged⟩ := ih _ entries hunder hentries
      rw [Setting.merge, hkey]
      refine ⟨h.put hkey (hfield ▸ hfits), h.leaf?_put_or fun rest => ?_⟩
      rw [hmerged, hleaf, leaf?_origin none origin]

theorem merges (schema : Schema) : schema.Merges := by
  induction schema with
  | never => trivial
  | value kind => trivial
  | record fields ih =>
      intro t entries ht hentries
      induction entries generalizing t with
      | nil =>
          refine ⟨ht, fun path => ?_⟩
          rw [leaf?_empty, Option.none_or, mergeAll_nil]
      | cons e rest ihrest =>
          obtain ⟨key, v⟩ := e
          obtain ⟨hkey, hv⟩ := hentries.2 (key, v) List.mem_cons_self
          obtain ⟨hfits, hleaf⟩ := Fits.merge (ih key) ht hkey hv
          obtain ⟨hfits', hleaf'⟩ := ihrest (t.merge key v) hfits hentries.tail
          refine ⟨hfits', fun path => ?_⟩
          have hnotMem : key ∉ rest.map Prod.fst :=
            (List.nodup_cons.1 hentries.1).1
          rw [mergeAll_cons, hleaf', hleaf, ← Option.or_assoc,
            leaf?_or_singleton hnotMem]

/-- A tree of the schema that is merged into another one goes before it at the
end of every way, and leaves everything else. -/
theorem FitsAll.mergeAll (hentries : FitsAll fields entries)
    (h : (record fields).Fits t) :
    (record fields).Fits (t.mergeAll entries) ∧
      ∀ path, (t.mergeAll entries).leaf? path =
        ((table none entries).leaf? path).or (t.leaf? path) :=
  merges (record fields) t entries h hentries

theorem leaf?_single (origin : Option String) (s : Scalar)
    (way path : List String) :
    ((scalar origin s).single way).leaf? path = if path = way then some s
      else none := by
  induction way generalizing path with
  | nil => cases path <;> rfl
  | cons name way ih =>
      rw [single, leaf?_singleton]
      cases path with
      | nil => rfl
      | cons name' rest =>
          by_cases hname : name' = name
          · simp [hname, ih]
          · simp [hname]

theorem fits_single {schema : Schema} {way : List String} {kind : Kind}
    (hkind : schema.kind? way = some kind)
    (hlower : ∀ name ∈ way, Text.lower name = name) (origin : Option String)
    {s : Scalar} (hs : kind.has s = true) :
    schema.Fits ((scalar origin s).single way) := by
  induction way generalizing schema with
  | nil =>
      cases schema with
      | value kind' =>
          cases hkind
          exact hs
      | _ => cases hkind
  | cons name way ih =>
      cases schema with
      | record fields =>
          refine ⟨by simp, fun e he => ?_⟩
          rw [List.mem_singleton.1 he]
          exact ⟨hlower name List.mem_cons_self,
            ih hkind fun name' hname' =>
              hlower name' (List.mem_cons_of_mem _ hname')⟩
      | _ => cases hkind

end Schema

end FileDigest
