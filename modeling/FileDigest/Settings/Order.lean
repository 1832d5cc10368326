import FileDigest.Settings.SettingPath

/-!
# Tables in any order

A table is a map, and nothing fixes the order in which its entries are met. It
may differ from one run to the next, between two tables, and for one table
between two occasions. Such an order gives ranks to the names at every place in
a tree; entries of smaller rank are met first. A whole tree is arranged before
it is gone through, which leaves its values as they are.
-/

namespace FileDigest

/-- The ranks of the names at every place. The steps to a place stand last one
first. -/
abbrev TableOrder := List PathStep → String → Nat

namespace Setting

section

variable {α β : Type} (rank : String → Nat)

/-- The entries with one more, in front of the first one that does not come
before it. -/
def insertByRank (e : String × α) : List (String × α) → List (String × α)
  | [] => [e]
  | e' :: rest =>
      if rank e.1 ≤ rank e'.1 then e :: e' :: rest
      else e' :: insertByRank e rest

def sortByRank : List (String × α) → List (String × α)
  | [] => []
  | e :: rest => insertByRank rank e (sortByRank rest)

theorem insertByRank_perm (e : String × α) (entries : List (String × α)) :
    (insertByRank rank e entries).Perm (e :: entries) := by
  induction entries with
  | nil => exact List.Perm.refl _
  | cons e' rest ih =>
      rw [insertByRank]
      split
      · exact List.Perm.refl _
      · exact (ih.cons e').trans (List.Perm.swap e e' rest)

theorem sortByRank_perm (entries : List (String × α)) :
    (sortByRank rank entries).Perm entries := by
  induction entries with
  | nil => exact List.Perm.refl _
  | cons e rest ih => exact (insertByRank_perm rank e _).trans (ih.cons e)

theorem insertByRank_map (f : α → β) (e : String × α)
    (entries : List (String × α)) :
    insertByRank rank (e.1, f e.2) (entries.map fun e => (e.1, f e.2)) =
      (insertByRank rank e entries).map fun e => (e.1, f e.2) := by
  induction entries with
  | nil => rfl
  | cons e' rest ih =>
      rw [List.map_cons, insertByRank, insertByRank, ih]
      split <;> rfl

theorem sortByRank_map (f : α → β) (entries : List (String × α)) :
    sortByRank rank (entries.map fun e => (e.1, f e.2)) =
      (sortByRank rank entries).map fun e => (e.1, f e.2) := by
  induction entries with
  | nil => rfl
  | cons e rest ih =>
      rw [List.map_cons, sortByRank, ih, insertByRank_map, sortByRank]

end

mutual

/-- The tree with the entries of every table in order. -/
def arrange (order : TableOrder) (place : List PathStep) : Setting → Setting
  | scalar origin s => scalar origin s
  | table origin entries =>
      table origin (sortByRank (order place) (arrangeEach order place entries))
  | array origin items => array origin (arrangeItems order place 0 items)

/-- The entries as they are, with the trees below them arranged. -/
def arrangeEach (order : TableOrder) (place : List PathStep) :
    List (String × Setting) → List (String × Setting)
  | [] => []
  | (name, v) :: rest =>
      (name, arrange order (.child name :: place) v) ::
        arrangeEach order place rest

def arrangeItems (order : TableOrder) (place : List PathStep) :
    Nat → List Setting → List Setting
  | _, [] => []
  | i, v :: rest =>
      arrange order (.item i :: place) v ::
        arrangeItems order place (i + 1) rest

end

/-- The entries of the table at the root in order, with the trees below them
arranged. -/
def arrangeEntries (order : TableOrder) (entries : List (String × Setting)) :
    List (String × Setting) :=
  sortByRank (order []) (arrangeEach order [] entries)

theorem arrangeEach_eq_map (order : TableOrder) (place : List PathStep)
    (entries : List (String × Setting)) :
    arrangeEach order place entries =
      entries.map fun e => (e.1, e.2.arrange order (.child e.1 :: place)) := by
  induction entries with
  | nil => rfl
  | cons e rest ih => rw [arrangeEach, ih, List.map_cons]

theorem names_arrangeEntries_perm (order : TableOrder)
    (entries : List (String × Setting)) :
    ((arrangeEntries order entries).map Prod.fst).Perm
      (entries.map Prod.fst) := by
  have h :=
    (sortByRank_perm (order []) (arrangeEach order [] entries)).map Prod.fst
  rw [arrangeEach_eq_map, List.map_map] at h
  rw [arrangeEntries, arrangeEach_eq_map]
  exact h

end Setting

end FileDigest
