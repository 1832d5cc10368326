import FileDigest.Decimal.Nearest
import FileDigest.Toml.Text
import FileDigest.Toml.Value

/-!
# Numbers, dates and times of TOML

A number, a date and a time begin alike, so they are tried in turn: date or
time, then a number with a fraction or an exponent, then an integer. Underscores
may stand between two digits, a leading zero only alone or after a mark of the
base. Integers must fit 64 bits. A date must be one of the calendar, and a
second of 60 is allowed.
-/

namespace FileDigest.Toml

/-- The digits in front that may be separated by single underscores, without the
underscores. -/
def readDigits (isDigit : Char → Bool) : List Char → List Char × List Char
  | [] => ([], [])
  | [c] => if isDigit c then ([c], []) else ([], [c])
  | c :: '_' :: d :: rest =>
      if isDigit c then
        if isDigit d then
          let (digits, left) := readDigits isDigit (d :: rest)
          (c :: digits, left)
        else ([c], '_' :: d :: rest)
      else ([], c :: '_' :: d :: rest)
  | c :: rest =>
      if isDigit c then
        let (digits, left) := readDigits isDigit rest
        (c :: digits, left)
      else ([], c :: rest)

/-- An optional sign: whether it is a minus, and whether there is one. -/
def readSign : List Char → Bool × List Char
  | '+' :: rest => (false, rest)
  | '-' :: rest => (true, rest)
  | cs => (false, cs)

/-- The digits of a decimal integer: a zero alone, or digits of which the first
is none. -/
def readWhole : List Char → Option (List Char × List Char)
  | '0' :: rest => some (['0'], rest)
  | cs =>
      let (digits, left) := readDigits Decimal.isDigit cs
      if digits.isEmpty then none else some (digits, left)

def readPlaces (cs : List Char) : Option (List Char × List Char) :=
  let (digits, left) := readDigits Decimal.isDigit cs
  if digits.isEmpty then none else some (digits, left)

def readExponent : List Char → Option ((Bool × List Char) × List Char)
  | c :: rest =>
      if c = 'e' ∨ c = 'E' then
        let (negative, rest) := readSign rest
        (readPlaces rest).map fun (digits, left) => ((negative, digits), left)
      else none
  | [] => none

def exponentValue : Option (Bool × List Char) → Int
  | none => 0
  | some (negative, digits) =>
      if negative then -(Decimal.ofDigits digits : Int)
      else Decimal.ofDigits digits

/-- A number with a fraction, an exponent or both. One that is too large is
refused, but only on the positive side. -/
def readFloat (cs : List Char) : Option (Option Float × List Char) :=
  let (negative, rest) := readSign cs
  match readWhole rest with
  | none => none
  | some (whole, rest) =>
      let number (places : List Char) (exponent : Option (Bool × List Char)) :
          Option Float :=
        let x :=
          Decimal.nearestPower negative (Decimal.ofDigits (whole ++ places))
            (exponentValue exponent - places.length)
        if x.isInf && !negative then none else some x
      match rest with
      | '.' :: more =>
          match readPlaces more with
          | none => none
          | some (places, left) =>
              match readExponent left with
              | some (exponent, left) =>
                  some (number places (some exponent), left)
              | none => some (number places none, left)
      | rest =>
          match readExponent rest with
          | some (exponent, left) => some (number [] (some exponent), left)
          | none => none

def readSpecial (negative : Bool) : List Char → Option (Float × List Char)
  | 'i' :: 'n' :: 'f' :: rest =>
      some (Float.ofBits (if negative then 0xfff0000000000000
        else 0x7ff0000000000000), rest)
  | 'n' :: 'a' :: 'n' :: rest =>
      some (Float.ofBits (if negative then 0xfff8000000000000
        else 0x7ff8000000000000), rest)
  | _ => none

/-- The number of digits in a base, if it fits 63 bits. -/
def inBase? (base : Nat) (digits : List Char) : Option Int :=
  let n := digits.foldl (fun n c => n * base + (Text.hexValue? c).getD 0) 0
  if n < signedLimit then some n else none

def readInBase (base : Nat) (cs : List Char) :
    Option (Option Int × List Char) :=
  let isDigit (c : Char) : Bool :=
    match Text.hexValue? c with
    | some v => v < base
    | none => false
  let (digits, left) := readDigits isDigit cs
  if digits.isEmpty then none else some (inBase? base digits, left)

def readInteger : List Char → Option (Option Int × List Char)
  | '0' :: 'x' :: rest => readInBase 16 rest
  | '0' :: 'o' :: rest => readInBase 8 rest
  | '0' :: 'b' :: rest => readInBase 2 rest
  | cs =>
      let (negative, rest) := readSign cs
      (readWhole rest).map fun (digits, left) =>
        let n := Decimal.ofDigits digits
        let i : Int := if negative then -n else n
        (if -signedLimit ≤ i ∧ i < signedLimit then some i else none, left)

def readFixed (count : Nat) (cs : List Char) : Option (Nat × List Char) :=
  let digits := cs.take count
  if digits.length = count ∧ digits.all Decimal.isDigit then
    some (Decimal.ofDigits digits, cs.drop count)
  else none

def readTwo (low high : Nat) (cs : List Char) : Option (Nat × List Char) :=
  match readFixed 2 cs with
  | some (n, left) => if low ≤ n ∧ n ≤ high then some (n, left) else none
  | none => none

def expect (c : Char) : List Char → Option (List Char)
  | d :: rest => if c = d then some rest else none
  | [] => none

def daysIn (year month : Nat) : Nat :=
  if month = 2 then
    if year % 4 = 0 ∧ (year % 100 ≠ 0 ∨ year % 400 = 0) then 29 else 28
  else if month = 4 ∨ month = 6 ∨ month = 9 ∨ month = 11 then 30
  else 31

def padded (width n : Nat) : List Char :=
  let digits := Nat.toDigits 10 n
  List.replicate (width - digits.length) '0' ++ digits

def readDate (cs : List Char) : Option (List Char × List Char) := do
  let (year, cs) ← readFixed 4 cs
  let cs ← expect '-' cs
  let (month, cs) ← readTwo 1 12 cs
  let cs ← expect '-' cs
  let (day, cs) ← readTwo 1 31 cs
  if daysIn year month < day then none
  else return (padded 4 year ++ '-' :: padded 2 month ++ '-' ::
    padded 2 day, cs)

/-- The fraction of a second as its text: at most nine digits, none of them a
zero at the end. -/
def readSecondFraction : List Char → List Char × List Char
  | '.' :: rest =>
      let digits := rest.takeWhile Decimal.isDigit
      let kept := ((digits.take 9).reverse.dropWhile (· = '0')).reverse
      if digits.isEmpty then ([], '.' :: rest)
      else (if kept.isEmpty then [] else '.' :: kept,
        rest.dropWhile Decimal.isDigit)
  | cs => ([], cs)

def readTime (cs : List Char) : Option (List Char × List Char) := do
  let (hour, cs) ← readTwo 0 23 cs
  let cs ← expect ':' cs
  let (minute, cs) ← readTwo 0 59 cs
  let cs ← expect ':' cs
  let (second, cs) ← readTwo 0 60 cs
  let (fraction, cs) := readSecondFraction cs
  return (padded 2 hour ++ ':' :: padded 2 minute ++ ':' ::
    padded 2 second ++ fraction, cs)

def readOffset : List Char → Option (List Char × List Char)
  | 'Z' :: rest => some (['Z'], rest)
  | 'z' :: rest => some (['Z'], rest)
  | sign :: rest =>
      if sign = '+' ∨ sign = '-' then do
        let (hour, cs) ← readTwo 0 23 rest
        let cs ← expect ':' cs
        let (minute, cs) ← readTwo 0 59 cs
        let shown := if hour = 0 ∧ minute = 0 then '+' else sign
        return (shown :: padded 2 hour ++ ':' :: padded 2 minute, cs)
      else none
  | [] => none

def readDateTime (cs : List Char) : Option (List Char × List Char) :=
  match readDate cs with
  | some (date, rest) =>
      match rest with
      | mark :: more =>
          if mark = 'T' ∨ mark = 't' ∨ mark = ' ' then
            match readTime more with
            | some (time, left) =>
                match readOffset left with
                | some (offset, left) =>
                    some (date ++ 'T' :: time ++ offset, left)
                | none => some (date ++ 'T' :: time, left)
            | none => some (date, rest)
          else some (date, rest)
      | [] => some (date, rest)
  | none => readTime cs

/-- The date, time or both that a whole text spells, in the usual form. -/
def spelledDateTime? (s : String) : Option String :=
  match readDateTime s.toList with
  | some (t, []) => some (String.ofList t)
  | _ => none

example : spelledDateTime? "1979-05-27t07:32:00.50-00:00" =
    some "1979-05-27T07:32:00.5+00:00" := by
  decide +kernel

example : spelledDateTime? "1979-05-27T" = none ∧
    spelledDateTime? "07:32:00Z" = none := by
  decide +kernel

def readNumeric (cs : List Char) : Option (Value × List Char) :=
  match readDateTime cs with
  | some (t, left) => some (.dateTime (String.ofList t), left)
  | none =>
      match readFloat cs with
      | some (x, left) => x.map fun x => (.float x, left)
      | none =>
          let (negative, rest) := readSign cs
          match readSpecial negative rest with
          | some (x, left) => some (.float x, left)
          | none =>
              match readInteger cs with
              | some (i, left) => i.map fun i => (.integer i, left)
              | none => none

def readScalar (cs : List Char) : Option (Value × List Char) :=
  match cs with
  | '"' :: _ =>
      (readString true cs).map fun (s, left) => (.text (String.ofList s), left)
  | '\'' :: _ =>
      (readString true cs).map fun (s, left) => (.text (String.ofList s), left)
  | 't' :: 'r' :: 'u' :: 'e' :: rest => some (.bool true, rest)
  | 'f' :: 'a' :: 'l' :: 's' :: 'e' :: rest => some (.bool false, rest)
  | _ => readNumeric cs

end FileDigest.Toml
