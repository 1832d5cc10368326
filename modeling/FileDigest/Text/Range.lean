/-!
# Ranges of code points

A property of characters is a list of inclusive ranges of code points.
-/

namespace FileDigest.Text

def inRanges (ranges : List (Nat × Nat)) (n : Nat) : Bool :=
  ranges.any fun (first, last) => first ≤ n && n ≤ last

@[simp] theorem inRanges_nil (n : Nat) : inRanges [] n = false := rfl

end FileDigest.Text
