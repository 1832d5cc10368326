import FileDigest.Bytes.Basic

/-!
# Folding byte strings by exclusive or

Two byte strings are combined byte by byte where they overlap, and the longer
one keeps its tail: the shorter string counts as continued by zero bytes. The
order and the grouping of a fold do not matter, and the empty string changes
nothing.

`combine` is the recursion on both strings, `combineInto` the update of an
accumulator that keeps its own bytes beyond the overlap, and `combineAll` the
fold from the empty accumulator.
-/

namespace FileDigest.Bytes

/-- Exclusive or where the strings overlap, then the tail of the longer one. -/
def combine : Bytes → Bytes → Bytes
  | [], ys => ys
  | x :: xs, [] => x :: xs
  | x :: xs, y :: ys => (x ^^^ y) :: combine xs ys

@[simp] theorem nil_combine (ys : Bytes) : combine [] ys = ys := rfl

@[simp] theorem combine_nil (xs : Bytes) : combine xs [] = xs := by
  cases xs <;> rfl

@[simp] theorem cons_combine_cons (x y : UInt8) (xs ys : Bytes) :
    combine (x :: xs) (y :: ys) = (x ^^^ y) :: combine xs ys := rfl

theorem length_combine (xs ys : Bytes) :
    (combine xs ys).length = max xs.length ys.length := by
  induction xs generalizing ys with
  | nil => simp
  | cons x xs ih =>
      cases ys with
      | nil => simp
      | cons y ys => simp [ih]

/-- The accumulator after folding in one more string: its overlap with the
string is changed, its own tail is kept, and the tail of a longer string is
appended. -/
def combineInto (acc rhs : Bytes) : Bytes :=
  List.zipWith (· ^^^ ·) acc rhs ++ acc.drop rhs.length ++ rhs.drop acc.length

def combineAll (items : List Bytes) : Bytes :=
  items.foldl combineInto []

@[simp] theorem combineAll_nil : combineAll [] = [] := rfl

def combineSteps (acc : Bytes) : List Bytes → List Bytes
  | [] => []
  | rhs :: rest =>
      combineInto acc rhs :: combineSteps (combineInto acc rhs) rest

end FileDigest.Bytes
