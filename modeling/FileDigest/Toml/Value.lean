/-!
# TOML values

The value of a TOML document. A date or a time is kept as its text in the usual
form, with a T between date and time and no zeros at the end of a fraction of a
second. Tables keep their entries in the order in which they were defined.
-/

namespace FileDigest.Toml

inductive Value where
  | text (s : String)
  | integer (i : Int)
  | float (x : Float)
  | bool (b : Bool)
  | dateTime (s : String)
  | array (items : List Value)
  | table (entries : List (String × Value))

end FileDigest.Toml
