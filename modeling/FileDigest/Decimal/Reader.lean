import FileDigest.WordLimit

/-!
# Decimal numerals

A run of decimal digits stands for a number. A signed numeral may have one sign
in front, an unsigned one a plus; both are refused when they do not fit 64 bits.
-/

namespace FileDigest.Decimal

def isDigit (c : Char) : Bool :=
  '0' ≤ c && c ≤ '9'

def digitValue (c : Char) : Nat :=
  c.toNat - 48

def ofDigits (cs : List Char) : Nat :=
  cs.foldl (fun n c => n * 10 + digitValue c) 0

def natural? (cs : List Char) : Option Nat :=
  if !cs.isEmpty && cs.all isDigit then some (ofDigits cs) else none

def unsigned? (cs : List Char) : Option UInt64 :=
  let body :=
    match cs with
    | '+' :: rest => rest
    | _ => cs
  match natural? body with
  | some n => if n < wordLimit then some (UInt64.ofNat n) else none
  | none => none

def signed? (cs : List Char) : Option Int :=
  let number :=
    match cs with
    | '+' :: rest => (natural? rest).map Int.ofNat
    | '-' :: rest => (natural? rest).map fun n => -Int.ofNat n
    | _ => (natural? cs).map Int.ofNat
  match number with
  | some i => if -signedLimit ≤ i ∧ i < signedLimit then some i else none
  | none => none

@[simp] theorem ofDigits_nil : ofDigits [] = 0 := rfl

example : unsigned? "+10".toList = some 10 ∧
    unsigned? "18446744073709551616".toList = none := by
  decide +kernel

example : signed? "-9223372036854775808".toList = some (-9223372036854775808)
    ∧ signed? "9223372036854775808".toList = none ∧
    signed? "-".toList = none := by
  decide +kernel

end FileDigest.Decimal
