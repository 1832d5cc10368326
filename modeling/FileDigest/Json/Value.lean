/-!
# JSON values

The value of a JSON text as far as it can be told without knowing what the text
is for. A number is kept by its digits, since what it is worth hangs on the type
that is wanted. A string whose escapes leave half of a surrogate pair stands for
no text; it is harmless where nobody asks for its content. An object keeps its
members in order and may repeat a name.
-/

namespace FileDigest.Json

structure Numeral where
  negative : Bool
  whole : List Char
  /-- The digits after the point, none where there is no point. -/
  fraction : List Char
  exponent : Option (Bool × List Char)
deriving DecidableEq, Repr

/-- The text of a string, or nothing for a string that stands for none. -/
abbrev Text := Option String

inductive Value where
  | null
  | bool (b : Bool)
  | number (n : Numeral)
  | text (t : Text)
  | array (items : List Value)
  | object (members : List (Text × Value))

end FileDigest.Json
