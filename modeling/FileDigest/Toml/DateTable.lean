import FileDigest.Toml.Scalar

/-!
# Dates in the form of tables

A table whose first key is the date key stands for the date, the time or both
that the text under the key spells. Whatever else such a table holds does not
count, and under the key nothing but such a text is allowed. In any other place
the date key is a key like all others.
-/

namespace FileDigest.Toml

/-- The key of a table that stands for a date. -/
def dateKey : String := "$__toml_private_datetime"

def underDateKey? : List (String × Value) → Option Value
  | [] => none
  | (key, v) :: _ => if key = dateKey then some v else none

def Value.spelledDate? : Value → Option Value
  | .text s => (spelledDateTime? s).map .dateTime
  | _ => none

mutual

/-- The value with dates for the tables that stand for dates. -/
def Value.withDates? : Value → Option Value
  | .array items => (itemsWithDates? items).map .array
  | .table entries =>
      match underDateKey? entries with
      | some v => v.spelledDate?
      | none => (entriesWithDates? entries).map .table
  | v => some v

def itemsWithDates? : List Value → Option (List Value)
  | [] => some []
  | v :: rest =>
      match v.withDates?, itemsWithDates? rest with
      | some v, some rest => some (v :: rest)
      | _, _ => none

def entriesWithDates? : List (String × Value) → Option (List (String × Value))
  | [] => some []
  | (key, v) :: rest =>
      match v.withDates?, entriesWithDates? rest with
      | some v, some rest => some ((key, v) :: rest)
      | _, _ => none

end

end FileDigest.Toml
