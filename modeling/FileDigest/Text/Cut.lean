/-!
# Cutting a text at a byte

A position that was found by counting bytes cuts a text in two, unless it lies
inside a character or beyond the end.
-/

namespace FileDigest.Text

def byteSize : List Char → Nat
  | [] => 0
  | c :: rest => c.utf8Size + byteSize rest

/-- What stands before and after a byte position, or nothing where it is no
place to cut. -/
def cut? : Nat → List Char → Option (List Char × List Char)
  | 0, cs => some ([], cs)
  | _ + 1, [] => none
  | n + 1, c :: rest =>
      if c.utf8Size ≤ n + 1 then
        (cut? (n + 1 - c.utf8Size) rest).map fun (before, after) =>
          (c :: before, after)
      else none

@[simp] theorem byteSize_nil : byteSize [] = 0 := rfl

@[simp] theorem byteSize_cons (c : Char) (cs : List Char) :
    byteSize (c :: cs) = c.utf8Size + byteSize cs := rfl

@[simp] theorem byteSize_append (cs ds : List Char) :
    byteSize (cs ++ ds) = byteSize cs + byteSize ds := by
  induction cs with
  | nil => simp
  | cons c rest ih => simp [ih, Nat.add_assoc]

@[simp] theorem cut?_zero (cs : List Char) : cut? 0 cs = some ([], cs) := by
  cases cs <;> rfl

theorem cut?_byteSize_append (cs ds : List Char) :
    cut? (byteSize cs) (cs ++ ds) = some (cs, ds) := by
  induction cs with
  | nil => simp
  | cons c rest ih =>
      have hc : 0 < c.utf8Size := Char.utf8Size_pos c
      obtain ⟨n, hn⟩ : ∃ n, byteSize (c :: rest) = n + 1 :=
        ⟨byteSize (c :: rest) - 1, by simp; omega⟩
      have hsize : n + 1 = c.utf8Size + byteSize rest := by simpa using hn.symm
      have hrest : n + 1 - c.utf8Size = byteSize rest := by omega
      rw [hn, List.cons_append, cut?, if_pos (by omega), hrest, ih]
      rfl

end FileDigest.Text
