import FileDigest.Json.Value
import FileDigest.Decimal.Reader
import FileDigest.Text.Hexadecimal

/-!
# Reading JSON

Every reader takes the characters from where it starts and gives what it read
with the characters that are left, or nothing when the text does not go on as it
must. The readers of arrays and objects ask for a further element after every
comma, so no comma is left over.

The readers of nested values count down a bound on the depth and the number of
elements, which `read?` takes from the length of the text; every count below
that consumes a character.
-/

namespace FileDigest.Json

def isBlank (c : Char) : Bool :=
  c = ' ' || c = '\t' || c = '\n' || c = '\r'

def skipBlanks (cs : List Char) : List Char :=
  cs.dropWhile isBlank

@[simp] theorem skipBlanks_nil : skipBlanks [] = [] := rfl

theorem skipBlanks_cons_of_isBlank {c : Char} (h : isBlank c = true)
    (cs : List Char) : skipBlanks (c :: cs) = skipBlanks cs := by
  simp [skipBlanks, h]

theorem skipBlanks_cons_of_not_isBlank {c : Char} (h : isBlank c = false)
    (cs : List Char) : skipBlanks (c :: cs) = c :: cs := by
  simp [skipBlanks, h]

/-- A part of a string: a character, or a code unit that an escape gives by its
number. -/
inductive Unit16 where
  | char (c : Char)
  | unit (n : Nat)
deriving DecidableEq, Repr

def shortEscape? (c : Char) : Option Char :=
  if c = '"' then some '"'
  else if c = '\\' then some '\\'
  else if c = '/' then some '/'
  else if c = 'b' then some '\x08'
  else if c = 'f' then some '\x0c'
  else if c = 'n' then some '\n'
  else if c = 'r' then some '\r'
  else if c = 't' then some '\t'
  else none

def stringParts : List Char → Option (List Unit16 × List Char)
  | [] => none
  | '"' :: rest => some ([], rest)
  | '\\' :: 'u' :: a :: b :: c :: d :: rest =>
      match Text.hexValue? a, Text.hexValue? b, Text.hexValue? c,
        Text.hexValue? d with
      | some a, some b, some c, some d =>
          (stringParts rest).map fun (parts, left) =>
            (.unit (a * 4096 + b * 256 + c * 16 + d) :: parts, left)
      | _, _, _, _ => none
  | '\\' :: e :: rest =>
      match shortEscape? e with
      | some c =>
          (stringParts rest).map fun (parts, left) => (.char c :: parts, left)
      | none => none
  | c :: rest =>
      if c = '\\' ∨ c < ' ' then none
      else (stringParts rest).map fun (parts, left) => (.char c :: parts, left)

/-- The characters of the parts of a string. Two halves of a surrogate pair make
one character, and a half by itself none. -/
def assemble : List Unit16 → Option (List Char)
  | [] => some []
  | .char c :: rest => (assemble rest).map (c :: ·)
  | .unit n :: rest =>
      if 0xd800 ≤ n ∧ n < 0xdc00 then
        match rest with
        | .unit m :: rest' =>
            if 0xdc00 ≤ m ∧ m < 0xe000 then
              (assemble rest').map
                (Char.ofNat
                  (0x10000 + (n - 0xd800) * 0x400 + (m - 0xdc00)) :: ·)
            else none
        | _ => none
      else if 0xdc00 ≤ n ∧ n < 0xe000 then none
      else (assemble rest).map (Char.ofNat n :: ·)

def readString (cs : List Char) : Option (Text × List Char) :=
  (stringParts cs).map fun (parts, left) =>
    ((assemble parts).map String.ofList, left)

def takeDigits (cs : List Char) : List Char × List Char :=
  (cs.takeWhile Decimal.isDigit, cs.dropWhile Decimal.isDigit)

def readFraction : List Char → Option (List Char × List Char)
  | '.' :: rest =>
      let (digits, left) := takeDigits rest
      if digits.isEmpty then none else some (digits, left)
  | cs => some ([], cs)

def readExponentDigits (negative : Bool) (cs : List Char) :
    Option (Option (Bool × List Char) × List Char) :=
  let (digits, left) := takeDigits cs
  if digits.isEmpty then none else some (some (negative, digits), left)

def readExponent : List Char → Option (Option (Bool × List Char) × List Char)
  | c :: rest =>
      if c = 'e' ∨ c = 'E' then
        match rest with
        | '+' :: rest => readExponentDigits false rest
        | '-' :: rest => readExponentDigits true rest
        | rest => readExponentDigits false rest
      else some (none, c :: rest)
  | [] => some (none, [])

def readNumber (cs : List Char) : Option (Numeral × List Char) :=
  let (negative, cs) :=
    match cs with
    | '-' :: rest => (true, rest)
    | _ => (false, cs)
  let (whole, rest) := takeDigits cs
  if whole.isEmpty ∨ (whole.head? = some '0' ∧ whole ≠ ['0']) then none
  else
    match readFraction rest with
    | none => none
    | some (fraction, rest) =>
        match readExponent rest with
        | none => none
        | some (exponent, rest) =>
            some (⟨negative, whole, fraction, exponent⟩, rest)

mutual

def readValue : Nat → List Char → Option (Value × List Char)
  | 0, _ => none
  | bound + 1, cs =>
      match skipBlanks cs with
      | 'n' :: 'u' :: 'l' :: 'l' :: rest => some (.null, rest)
      | 't' :: 'r' :: 'u' :: 'e' :: rest => some (.bool true, rest)
      | 'f' :: 'a' :: 'l' :: 's' :: 'e' :: rest => some (.bool false, rest)
      | '"' :: rest => (readString rest).map fun (t, left) => (.text t, left)
      | '[' :: rest =>
          match skipBlanks rest with
          | ']' :: rest => some (.array [], rest)
          | rest =>
              (readItems bound rest).map fun (items, left) =>
                (.array items, left)
      | '\x7b' :: rest =>
          match skipBlanks rest with
          | '\x7d' :: rest => some (.object [], rest)
          | rest =>
              (readMembers bound rest).map fun (members, left) =>
                (.object members, left)
      | rest => (readNumber rest).map fun (n, left) => (.number n, left)

def readItems : Nat → List Char → Option (List Value × List Char)
  | 0, _ => none
  | bound + 1, cs =>
      match readValue bound cs with
      | none => none
      | some (item, rest) =>
          match skipBlanks rest with
          | ']' :: rest => some ([item], rest)
          | ',' :: rest =>
              (readItems bound rest).map fun (items, left) =>
                (item :: items, left)
          | _ => none

def readMembers : Nat → List Char → Option (List (Text × Value) × List Char)
  | 0, _ => none
  | bound + 1, cs =>
      match skipBlanks cs with
      | '"' :: rest =>
          match readString rest with
          | none => none
          | some (name, rest) =>
              match skipBlanks rest with
              | ':' :: rest =>
                  match readValue bound rest with
                  | none => none
                  | some (value, rest) =>
                      match skipBlanks rest with
                      | '\x7d' :: rest => some ([(name, value)], rest)
                      | ',' :: rest =>
                          (readMembers bound rest).map fun (members, left) =>
                            ((name, value) :: members, left)
                      | _ => none
              | _ => none
      | _ => none

end

def read? (s : String) : Option Value :=
  let cs := s.toList
  match readValue (2 * cs.length + 2) cs with
  | some (v, rest) => if (skipBlanks rest).isEmpty then some v else none
  | none => none

end FileDigest.Json
