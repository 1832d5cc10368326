/-!
# Entries in order of use

A list of entries with the most recently used one in front. Using an entry moves
it to the front; putting in a new one makes room at the end. Keys are compared
by the equality test of their type, which need not be equality of values.
-/

namespace FileDigest.Recency

variable {κ ν : Type} [BEq κ]

def find? (k : κ) (entries : List (κ × ν)) : Option ν :=
  (entries.find? fun e => e.1 == k).map (·.2)

def erase (k : κ) (entries : List (κ × ν)) : List (κ × ν) :=
  entries.filter fun e => !(e.1 == k)

/-- The entries with a value under a key, now the most recently used one. -/
def put (k : κ) (v : ν) (entries : List (κ × ν)) : List (κ × ν) :=
  (k, v) :: erase k entries

def has (k : κ) (entries : List (κ × ν)) : Bool :=
  (find? k entries).isSome

@[simp] theorem find?_nil (k : κ) : find? k ([] : List (κ × ν)) = none := rfl

@[simp] theorem erase_nil (k : κ) : erase k ([] : List (κ × ν)) = [] := rfl

theorem find?_cons (k : κ) (e : κ × ν) (entries : List (κ × ν)) :
    find? k (e :: entries) = if e.1 == k then some e.2
      else find? k entries := by
  cases h : e.1 == k <;> simp [find?, h]

theorem length_erase_le (k : κ) (entries : List (κ × ν)) :
    (erase k entries).length ≤ entries.length :=
  List.length_filter_le _ _

end FileDigest.Recency
