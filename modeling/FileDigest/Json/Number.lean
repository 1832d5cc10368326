import FileDigest.Decimal.Nearest
import FileDigest.Json.Value

/-!
# What a JSON number is worth

Where an unsigned number of 64 bits is wanted, only a run of digits that fits is
one. Where any number will do, an integer that fits 64 signed bits is an
integer, and every other number is a double.

A double is found in one pass over the digits. They are gathered into a whole
number of 64 bits as long as they fit; digits of the whole part that do not fit
any more count as powers of ten, and digits of the fraction that do not fit end
the gathering. The whole number is then multiplied or divided by a power of ten,
once, in the arithmetic of doubles. The result is not always the nearest double,
but it is what readers of this kind agree on. A number beyond the largest double
is refused.
-/

namespace FileDigest.Json

inductive Number where
  | integer (i : Int)
  | float (x : Float)

def fitsDigit (n : Nat) (c : Char) : Bool :=
  n * 10 + Decimal.digitValue c < wordLimit

/-- Gathers the digits of the whole part; the second component counts those that
did not fit. -/
def gatherWhole : Nat → List Char → Nat × Nat
  | n, [] => (n, 0)
  | n, c :: rest =>
      if fitsDigit n c then gatherWhole (n * 10 + Decimal.digitValue c) rest
      else (n, rest.length + 1)

def gatherFraction : Nat → List Char → Nat × Nat
  | n, [] => (n, 0)
  | n, c :: rest =>
      if fitsDigit n c then
        let (m, k) := gatherFraction (n * 10 + Decimal.digitValue c) rest
        (m, k + 1)
      else (n, 0)

def powerOfTen (k : Nat) : Float :=
  Decimal.nearest false (Nat.pow 10 k) 1

/-- The double `x * 10 ^ e`, computed in doubles, or nothing when it is too
large. A very small power is divided out in two parts; after a few of these
nothing is left. -/
def scaleFloat (x : Float) (e : Int) : Nat → Option Float
  | 0 => some x
  | parts + 1 =>
      if e.natAbs ≤ 308 then
        if 0 ≤ e then
          let y := x * powerOfTen e.natAbs
          if y.isInf then none else some y
        else some (x / powerOfTen e.natAbs)
      else if x == 0.0 then some x
      else if 0 ≤ e then none
      else scaleFloat (x / powerOfTen 308) (e + 308) parts

def exponentLimit : Nat := 2147483647

namespace Numeral

def float? (n : Numeral) : Option Float :=
  let (gathered, dropped) := gatherWhole 0 n.whole
  let (gathered, placed) := gatherFraction gathered n.fraction
  let e : Int := (dropped : Int) - placed
  let magnitude : Option Float :=
    match n.exponent with
    | none => scaleFloat (UInt64.ofNat gathered).toFloat e 4
    | some (negative, digits) =>
        let size := Decimal.ofDigits digits
        if exponentLimit < size then
          if gathered ≠ 0 ∧ negative = false then none else some 0.0
        else
          let e := if negative then e - size else e + size
          scaleFloat (UInt64.ofNat gathered).toFloat e 4
  magnitude.map fun x => if n.negative then -x else x

def isWhole (n : Numeral) : Bool :=
  n.fraction.isEmpty && n.exponent.isNone

def unsigned? (n : Numeral) : Option UInt64 :=
  if n.isWhole && !n.negative then
    let value := Decimal.ofDigits n.whole
    if value < wordLimit then some (UInt64.ofNat value) else none
  else none

/-- The number as a document holds it, or nothing when it is too large. A
negative zero is a double, since no integer is one. -/
def number? (n : Numeral) : Option Number :=
  let value := Decimal.ofDigits n.whole
  if n.isWhole && !n.negative && value < signedLimit then some (.integer value)
  else if n.isWhole && n.negative && 0 < value && value ≤ signedLimit
    then some (.integer (-value))
  else n.float?.map .float

end Numeral

end FileDigest.Json
