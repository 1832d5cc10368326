import FileDigest.Toml.Value

/-!
# Defining tables

A document defines its tables piecemeal: by headers, by dotted keys and by the
elements of arrays of tables. A table that was only passed through on the way to
another one can still be defined, once, and then moves to the end of the table
that holds it; one that a dotted key made can only be filled by dotted keys from
the same place; a value is never extended, and no key is given twice.
-/

namespace FileDigest.Toml

/-- An entry of a table under construction. -/
inductive Item where
  | value (v : Value)
  /-- A table: whether it was only passed through so far, whether a dotted key
  made it, and its entries. -/
  | table (implicit : Bool) (dotted : Bool) (entries : List (String × Item))
  /-- An array of tables, the latest last. -/
  | tables (elements : List (List (String × Item)))

abbrev Entries := List (String × Item)

def Entries.replace (entries : Entries) (key : String)
    (item : Item) : Entries :=
  entries.map fun e => if e.1 = key then (key, item) else e

def Entries.moveToEnd (entries : Entries) (key : String)
    (item : Item) : Entries :=
  entries.filter (fun e => e.1 ≠ key) ++ [(key, item)]

/-- Changes the table at the end of a way, given whether a dotted key made it.
Tables that are missing on the way are made. A dotted way does not pass through
a table that has been defined. -/
def descend (byKey : Bool) (f : Bool → Entries → Option Entries) :
    List String → Bool → Entries → Option Entries
  | [], dotted, entries => f dotted entries
  | key :: rest, _, entries =>
      match entries.lookup key with
      | none =>
          (descend byKey f rest byKey []).map fun sub =>
            entries ++ [(key, .table true byKey sub)]
      | some (.value _) => none
      | some (.tables elements) =>
          match elements.getLast? with
          | none => none
          | some last =>
              (descend byKey f rest false last).map fun sub =>
                Entries.replace entries key
                  (.tables (elements.dropLast ++ [sub]))
      | some (.table implicit dotted sub) =>
          if byKey && !implicit then none
          else
            (descend byKey f rest dotted sub).map fun sub =>
              Entries.replace entries key (.table implicit dotted sub)

def assign (way : List String) (key : String) (v : Value) (entries : Entries) :
    Option Entries :=
  descend true (fun dotted sub =>
    if dotted = way.isEmpty then none
    else if (sub.lookup key).isSome then none
    else some (sub ++ [(key, .value v)])) way false entries

def openTable (way : List String) (key : String) (root : Entries) :
    Option Entries :=
  descend false (fun _ sub =>
    match sub.lookup key with
    | none => some (sub ++ [(key, .table false false [])])
    | some (.table true false kept) =>
        some (Entries.moveToEnd sub key (.table false false kept))
    | some _ => none) way false root

def openElement (way : List String) (key : String) (root : Entries) :
    Option Entries :=
  descend false (fun _ sub =>
    match sub.lookup key with
    | none => some (sub ++ [(key, .tables [[]])])
    | some (.tables elements) =>
        some (Entries.replace sub key (.tables (elements ++ [[]])))
    | some _ => none) way false root

/-- Gives a key a value in the table that was begun last. -/
def assignIn (current : List String) (way : List String)
    (key : String) (v : Value) (root : Entries) : Option Entries :=
  descend false (fun _ sub => assign way key v sub) current false root

mutual

def Item.toValue : Item → Value
  | .value v => v
  | .table _ _ entries => .table (entriesToValues entries)
  | .tables elements => .array (elementsToValues elements)

def entriesToValues : List (String × Item) → List (String × Value)
  | [] => []
  | (key, item) :: rest => (key, item.toValue) :: entriesToValues rest

def elementsToValues : List (List (String × Item)) → List Value
  | [] => []
  | entries :: rest => .table (entriesToValues entries) :: elementsToValues rest

end

end FileDigest.Toml
