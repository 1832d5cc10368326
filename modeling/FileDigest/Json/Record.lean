import FileDigest.Json.Number

/-!
# Records in JSON

A record is an object with a member for each field, in any order, or an array of
the fields in their order. A member of another name is passed over, a field that
is given twice makes the object no record, and so does an array with more items
than there are fields. A field that is left out is absent; whether it has a
value of its own then is for the reader of the record to say.
-/

namespace FileDigest.Json

/-- The members of an object for the names of the fields, in the order of the
names; nothing if one is given twice or if a name stands for no text. -/
def membersByName (members : List (Text × Value)) (names : List String) :
    Option (List (Option Value)) :=
  if members.any fun m => m.1.isNone then none
  else
    names.mapM fun name =>
      match members.filter fun m => m.1 == some name with
      | [] => some none
      | [m] => some (some m.2)
      | _ => none

def fields? (names : List String) : Value → Option (List (Option Value))
  | .object members => membersByName members names
  | .array items =>
      if names.length < items.length then none
      else some
        (items.map some ++ List.replicate (names.length - items.length) none)
  | _ => none

def Value.unsigned? : Value → Option UInt64
  | .number n => n.unsigned?
  | _ => none

def Value.bool? : Value → Option Bool
  | .bool b => some b
  | _ => none

def Value.text? : Value → Option String
  | .text t => t
  | _ => none

/-- Pairs of which a later one takes the place of an earlier one with the same
name. -/
def lastOfEach (pairs : List (String × String)) : List (String × String) :=
  pairs.foldl (fun kept pair =>
    kept.filter (fun p => p.1 ≠ pair.1) ++ [pair]) []

def textMember? : Text × Value → Option (String × String)
  | (some name, .text (some t)) => some (name, t)
  | _ => none

/-- A value that must be an object of texts. A name that is given twice has its
last value. -/
def Value.texts? : Value → Option (List (String × String))
  | .object members => (members.mapM textMember?).map lastOfEach
  | _ => none

def required {α : Type} (reader : Value → Option α) (field : Option Value) :
    Option α :=
  field.bind reader

def optional {α : Type} (default : α) (reader : Value → Option α) :
    Option Value → Option α
  | none => some default
  | some v => reader v

end FileDigest.Json
