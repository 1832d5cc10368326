import FileDigest.Decimal.Reader
import FileDigest.Settings.Setting

/-!
# Paths to settings

The name of a setting may say where in the tree it belongs: names separated by
dots lead down tables, and a number between brackets leads to an item of an
array, counted from the end when it is negative. A name that has not this form
stands for itself.

What is missing on the way is made, and what has the wrong form is replaced: a
table or an array from nowhere, with items that are nothing up to the one that
is meant. Only an item before the first one, or one so far behind the last that
no memory could hold the array, cannot be made.
-/

namespace FileDigest

inductive PathStep where
  | child (name : String)
  | item (index : Int)
deriving DecidableEq, Repr

structure SettingPath where
  way : List PathStep
  last : PathStep
deriving DecidableEq, Repr

namespace SettingPath

def isNameChar (c : Char) : Bool :=
  ('a' ≤ c && c ≤ 'z') || ('A' ≤ c && c ≤ 'Z') || ('0' ≤ c && c ≤ '9') ||
    c = ' ' || c = '_' || c = '-'

def readName (cs : List Char) : Option (String × List Char) :=
  let name := cs.takeWhile isNameChar
  if name.isEmpty then none
  else some (String.ofList name, cs.dropWhile isNameChar)

def isBlank (c : Char) : Bool :=
  c = ' ' || c = '\t'

/-- The number of an item and the closing bracket, where the opening one has
been read. -/
def readIndex (cs : List Char) : Option (Int × List Char) :=
  let cs := cs.dropWhile isBlank
  let (sign, body) :=
    match cs with
    | '-' :: rest => (['-'], rest)
    | _ => ([], cs)
  let digits := body.takeWhile Decimal.isDigit
  match Decimal.signed? (sign ++ digits),
    (body.dropWhile Decimal.isDigit).dropWhile isBlank with
  | some i, ']' :: rest => some (i, rest)
  | _, _ => none

def readSteps : Nat → List Char → Option (List PathStep)
  | _, [] => some []
  | 0, _ => none
  | bound + 1, '.' :: rest =>
      match readName rest with
      | some (name, rest) => (readSteps bound rest).map (.child name :: ·)
      | none => none
  | bound + 1, '[' :: rest =>
      match readIndex rest with
      | some (i, rest) => (readSteps bound rest).map (.item i :: ·)
      | none => none
  | _, _ => none

/-- The path that consists of one name, whatever the name is. -/
def ofName (name : String) : SettingPath := ⟨[], .child name⟩

def ofSteps (name : String) (steps : List PathStep) : SettingPath :=
  match steps.getLast? with
  | none => ofName name
  | some last => ⟨.child name :: steps.dropLast, last⟩

def parse? (s : String) : Option SettingPath :=
  let cs := s.toList
  match readName cs with
  | some (name, rest) => (readSteps cs.length rest).map (ofSteps name)
  | none => none

def parse (s : String) : SettingPath :=
  (parse? s).getD (ofName s)

example : parse "cache.max_entries" =
    ⟨[.child "cache"], .child "max_entries"⟩ := by
  decide +kernel

example : parse "cache[ -1 ].x" =
    ⟨[.child "cache", .item (-1)], .child "x"⟩ := by
  decide +kernel

example : parse "cache." = ofName "cache." ∧ parse "é" = ofName "é" := by
  decide +kernel

end SettingPath

namespace Setting

/-- The items of an array; what is no array has none. -/
def items : Setting → List Setting
  | array _ items => items
  | _ => []

/-- More items than any memory could hold. -/
def itemLimit : Nat :=
  Nat.pow 2 56

def position? (index : Int) (length : Nat) : Option Nat :=
  if (itemLimit : Int) ≤ index then none
  else if 0 ≤ index then some index.toNat
  else if index.natAbs ≤ length then some (length - index.natAbs)
  else none

/-- The array with another item at a position; what is no array becomes one. -/
def setItem (v : Setting) (position : Nat) (w : Setting) : Setting :=
  let origin :=
    match v with
    | array origin _ => origin
    | _ => none
  let padded :=
    v.items ++ List.replicate (position + 1 - v.items.length) nothing
  array origin (padded.set position w)

def alterStep (f : Setting → Option Setting) : PathStep → Setting →
    Option Setting
  | .child name, v =>
      let k := Text.lower name
      (f ((v.under? k).getD nothing)).map (v.put k)
  | .item index, v =>
      match position? index v.items.length with
      | some position =>
          (f ((v.items[position]?).getD nothing)).map (v.setItem position)
      | none => none

def alterAt (f : Setting → Option Setting) : List PathStep → Setting →
    Option Setting
  | [], v => f v
  | step :: rest, v => alterStep (alterAt f rest) step v

/-- Puts a value where a step leads: into a table it is merged, in an array it
takes the place of an item. -/
def assignStep (w : Setting) : PathStep → Setting → Option Setting
  | .child name, v => some (v.merge name w)
  | .item index, v =>
      (position? index v.items.length).map fun position => v.setItem position w

/-- The tree with a value at a path, or nothing when an item is meant that no
array can have. -/
def assign (root : Setting) (path : SettingPath) (w : Setting) :
    Option Setting :=
  alterAt (assignStep w path.last) path.way root

/-- The tree with values of several names, each at the path that its name stands
for. -/
def assignAll (root : Setting) : List (String × Setting) → Option Setting
  | [] => some root
  | (name, w) :: rest =>
      match root.assign (SettingPath.parse name) w with
      | some root => root.assignAll rest
      | none => none

def entries : Setting → List (String × Setting)
  | table _ entries => entries
  | _ => []

/-- The tree in which the names at the root have been read as paths once more. A
name that was kept as it is has become lower-case, and in lower case it may be a
path: the sign of the kelvin has become a plain letter. -/
def settle (root : Setting) : Option Setting :=
  emptyTable.assignAll root.entries

@[simp] theorem assignAll_nil (root : Setting) :
    root.assignAll [] = some root := rfl

theorem assignAll_append (root : Setting) (xs ys : List (String × Setting)) :
    root.assignAll (xs ++ ys) = (root.assignAll xs).bind fun mid =>
      mid.assignAll ys := by
  induction xs generalizing root with
  | nil => rfl
  | cons e xs ih =>
      obtain ⟨name, w⟩ := e
      cases h : root.assign (SettingPath.parse name) w with
      | none => simp [assignAll, h]
      | some mid => simp [assignAll, h, ih]

end Setting

end FileDigest
