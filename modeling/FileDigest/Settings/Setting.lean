import FileDigest.Text.Lower

/-!
# Trees of settings

Before settings are read into their types they are a tree that all sources add
to. A value remembers where it comes from, so that a fault can say so; what only
came about by putting sources together comes from nowhere.

A table is merged into a table entry by entry, and any other value takes the
place of what was there. Keys of tables are in lower case.
-/

namespace FileDigest

inductive Scalar where
  | nil
  | bool (b : Bool)
  | integer (i : Int)
  | float (x : Float)
  | text (s : String)

inductive Setting where
  | scalar (origin : Option String) (s : Scalar)
  | table (origin : Option String) (entries : List (String × Setting))
  | array (origin : Option String) (items : List Setting)

namespace Setting

def emptyTable : Setting := table none []

def nothing : Setting := scalar none .nil

/-- The entries with a value under a key, in the place of one that is there. -/
def putEntry (key : String) (v : Setting) : List (String × Setting) →
    List (String × Setting)
  | [] => [(key, v)]
  | (k, w) :: rest =>
      if k = key then (key, v) :: rest else (k, w) :: putEntry key v rest

def under? (v : Setting) (key : String) : Option Setting :=
  match v with
  | table _ entries => entries.lookup key
  | _ => none

/-- The value with another one under a key; what is no table becomes one. -/
def put (v : Setting) (key : String) (w : Setting) : Setting :=
  match v with
  | table origin entries => table origin (putEntry key w entries)
  | _ => table none [(key, w)]

mutual

def merge (target : Setting) (key : String) : Setting → Setting
  | table _ entries =>
      let k := Text.lower key
      target.put k (mergeAll ((target.under? k).getD emptyTable) entries)
  | scalar origin s => target.put (Text.lower key) (scalar origin s)
  | array origin items => target.put (Text.lower key) (array origin items)

def mergeAll (target : Setting) : List (String × Setting) → Setting
  | [] => target
  | (key, v) :: rest => mergeAll (target.merge key v) rest

end

@[simp] theorem putEntry_nil (key : String) (v : Setting) :
    putEntry key v [] = [(key, v)] := rfl

@[simp] theorem mergeAll_nil (target : Setting) :
    target.mergeAll [] = target := rfl

theorem mergeAll_cons (target : Setting) (key : String) (v : Setting)
    (rest : List (String × Setting)) :
    target.mergeAll ((key, v) :: rest) =
      (target.merge key v).mergeAll rest := rfl

theorem lookup_putEntry_self (key : String) (v : Setting)
    (entries : List (String × Setting)) :
    (putEntry key v entries).lookup key = some v := by
  induction entries with
  | nil => simp
  | cons e rest ih =>
      obtain ⟨k, w⟩ := e
      by_cases h : k = key
      · simp [putEntry, h]
      · have h' : (key == k) = false := by simp [Ne.symm h]
        simp [putEntry, h, List.lookup_cons, h', ih]

theorem lookup_putEntry_of_ne {key other : String}
    (h : other ≠ key) (v : Setting) (entries : List (String × Setting)) :
    (putEntry key v entries).lookup other = entries.lookup other := by
  induction entries with
  | nil =>
      have h' : (other == key) = false := by simp [h]
      simp [List.lookup_cons, h']
  | cons e rest ih =>
      obtain ⟨k, w⟩ := e
      by_cases hk : k = key
      · have h' : (other == key) = false := by simp [h]
        simp [putEntry, hk, List.lookup_cons, h']
      · simp only [putEntry, if_neg hk, List.lookup_cons, ih]

end Setting

end FileDigest
