import FileDigest.Proofs.Settings.Schema
import FileDigest.Settings.Order
import Mathlib.Data.List.Sort

/-!
# What no order changes

The entries of a table can be met in any order, and ranks give every order that
there is (`Setting.exists_sortByRank_eq`). In a tree that fits a schema no name
stands twice in a table, so the tree still fits and says the same when it is
arranged (`Schema.Fits.arrange`, `Schema.Fits.leaf?_arrange`).
-/

namespace FileDigest

namespace Setting

variable {α : Type} {rank : String → Nat} {e : String × α}
  {entries entries' : List (String × α)}

theorem pairwise_insertByRank
    (h : entries.Pairwise fun a b => rank a.1 ≤ rank b.1) :
    (insertByRank rank e entries).Pairwise fun a b => rank a.1 ≤ rank b.1 := by
  induction entries with
  | nil => exact List.pairwise_singleton _ e
  | cons e' rest ih =>
      obtain ⟨hfirst, hrest⟩ := List.pairwise_cons.1 h
      rw [insertByRank]
      split
      · rename_i hle
        exact List.pairwise_cons.2 ⟨List.forall_mem_cons.2
          ⟨hle, fun b hb => hle.trans (hfirst b hb)⟩, h⟩
      · rename_i hlt
        refine List.pairwise_cons.2 ⟨fun b hb => ?_, ih hrest⟩
        rcases List.mem_cons.1
          ((insertByRank_perm rank e rest).mem_iff.1 hb) with rfl | hb
        · exact (Nat.lt_of_not_le hlt).le
        · exact hfirst b hb

theorem pairwise_sortByRank (rank : String → Nat)
    (entries : List (String × α)) :
    (sortByRank rank entries).Pairwise fun a b => rank a.1 ≤ rank b.1 := by
  induction entries with
  | nil => exact List.Pairwise.nil
  | cons e rest ih => exact pairwise_insertByRank ih

/-- Whatever the order of the entries of a table is, some ranks give it. -/
theorem exists_sortByRank_eq (h : entries'.Perm entries)
    (hnodup : (entries.map Prod.fst).Nodup) :
    ∃ rank, sortByRank rank entries = entries' := by
  have hnodup' : (entries'.map Prod.fst).Nodup :=
    (h.map Prod.fst).nodup_iff.2 hnodup
  have hranked : entries'.Pairwise fun a b =>
      (entries'.map Prod.fst).idxOf a.1 ≤
        (entries'.map Prod.fst).idxOf b.1 := by
    rw [List.pairwise_iff_getElem]
    intro i j hi hj hij
    have hidx (k : Nat) (hk : k < entries'.length) :
        (entries'.map Prod.fst).idxOf entries'[k].1 = k := by
      have hidx := hnodup'.idxOf_getElem k (by rwa [List.length_map])
      rwa [List.getElem_map] at hidx
    rw [hidx i hi, hidx j hj]
    exact hij.le
  refine ⟨fun name => (entries'.map Prod.fst).idxOf name, ?_⟩
  refine List.Perm.eq_of_pairwise ?_ (pairwise_sortByRank _ _) hranked
    ((sortByRank_perm _ entries).trans h.symm)
  intro a b ha hb hle hle'
  have ha' := h.symm.mem_iff.1 ((sortByRank_perm _ entries).mem_iff.1 ha)
  have hname : a.1 = b.1 := by
    refine (List.idxOf_inj (List.mem_map_of_mem ha')).1
      (Nat.le_antisymm hle hle')
  exact Prod.ext hname (Option.some.inj ((lookup_of_mem hnodup' ha').symm.trans
    (hname ▸ lookup_of_mem hnodup' hb)))

end Setting

namespace Schema

open Setting

variable {fields : String → Schema} {entries entries' : List (String × Setting)}

theorem FitsAll.perm (h : FitsAll fields entries)
    (hperm : entries'.Perm entries) : FitsAll fields entries' :=
  ⟨(hperm.map Prod.fst).nodup_iff.2 h.1, fun e he => h.2 e (hperm.mem_iff.1 he)⟩

theorem Fits.arrange {schema : Schema} {v : Setting} (h : schema.Fits v)
    (order : TableOrder) (place : List PathStep) :
    schema.Fits (v.arrange order place) := by
  induction schema generalizing v place with
  | never => cases v <;> exact h.elim
  | value kind =>
      obtain ⟨origin, s, rfl, hs⟩ := h.eq_scalar
      exact hs
  | record fields ih =>
      obtain ⟨origin, entries, rfl, hentries⟩ := h.eq_table
      have heach : FitsAll fields (arrangeEach order place entries) := by
        rw [arrangeEach_eq_map]
        refine ⟨by rw [List.map_map]; exact hentries.1,
          List.forall_mem_map.2 fun e he => ?_⟩
        obtain ⟨hlower, hfits⟩ := hentries.2 e he
        exact ⟨hlower, ih e.1 hfits _⟩
      exact heach.perm (sortByRank_perm _ _)

/-- At the end of every way stands what stood there before. -/
theorem Fits.leaf?_arrange {schema : Schema} {v : Setting} (h : schema.Fits v)
    (order : TableOrder) (place : List PathStep) (path : List String) :
    (v.arrange order place).leaf? path = v.leaf? path := by
  induction schema generalizing v place path with
  | never => cases v <;> exact h.elim
  | value kind =>
      obtain ⟨origin, s, rfl, -⟩ := h.eq_scalar
      rfl
  | record fields ih =>
      obtain ⟨origin, entries, rfl, hentries⟩ := h.eq_table
      cases path with
      | nil => rfl
      | cons name rest =>
          have hnodup :
              ((sortByRank (order place) (arrangeEach order place entries)).map
              Prod.fst).Nodup :=
            (h.arrange order place).1
          rw [Setting.arrange, leaf?_table_cons, leaf?_table_cons,
            lookup_perm (sortByRank_perm _ _) hnodup, arrangeEach_eq_map,
            lookup_map_snd fun name (w : Setting) =>
              w.arrange order (.child name :: place)]
          cases hv : entries.lookup name with
          | none => rfl
          | some w => exact ih name (hentries.of_lookup hv) _ rest

theorem fits_arrangeEntries {origin : Option String}
    (h : (record fields).Fits (table origin entries)) (order : TableOrder) :
    (record fields).Fits (table origin (arrangeEntries order entries)) :=
  h.arrange order []

theorem leaf?_arrangeEntries {origin : Option String}
    (h : (record fields).Fits (table origin entries)) (order : TableOrder)
    (path : List String) :
    (table origin (arrangeEntries order entries)).leaf? path =
      (table origin entries).leaf? path :=
  h.leaf?_arrange order [] path

end Schema

end FileDigest
