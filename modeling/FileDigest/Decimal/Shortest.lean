import FileDigest.Decimal.Double
import FileDigest.Decimal.Nearest

/-!
# The shortest decimal of a double

A double is shown with the fewest decimal digits that still read back as the
same double, and of those with the digits nearest to its value. The digits are
always written out in positional notation, without an exponent, and a whole
number without a point.

The search is exact. A double stands for `m * 2 ^ q`; the reals that round to it
form an interval, closed when `m` is even. For one digit, two digits and so on,
the two neighbours of the value on that decimal grid are tested against the
interval.
-/

namespace FileDigest.Decimal

/-- A fraction whose denominator is common to a value and the ends of its
interval. -/
structure Interval where
  low : Nat
  value : Nat
  high : Nat
  den : Nat
  closed : Bool

/-- The reals that round to `m * 2 ^ q`, over a common denominator. -/
def Interval.ofMantissa (m : Nat) (q : Int) (narrow : Bool) : Interval :=
  let up := Nat.pow 2 q.toNat
  let den := 4 * Nat.pow 2 (-q).toNat
  { low := (4 * m - (if narrow then 1 else 2)) * up
    value := 4 * m * up
    high := (4 * m + 2) * up
    den
    closed := m % 2 = 0 }

def Interval.has (i : Interval) (n den' : Nat) : Bool :=
  let x := n * i.den
  if i.closed then i.low * den' ≤ x && x ≤ i.high * den'
  else i.low * den' < x && x < i.high * den'

/-- The least `p` with `value < 10 ^ p * den`, where it is known that `p` is at
least `least`. -/
def decimalPoint (value den : Nat) : Nat → Int → Int
  | 0, p => p
  | fuel + 1, p =>
      let below := if 0 ≤ p then value < Nat.pow 10 p.toNat * den
        else value * Nat.pow 10 (-p).toNat < den
      if below then p else decimalPoint value den fuel (p + 1)

/-- The digits of the shortest member of an interval on the grids of `k`, `k +
1`, … digits, as a number and the power of ten that it is multiplied by. -/
def shortestFrom (i : Interval) (p : Int) : Nat → Nat → Nat × Int
  | 0, _ => (0, 0)
  | fuel + 1, k =>
      let e := p - k
      -- The value and the grid over one denominator: `value / step` with `step
      -- = 10 ^ e`.
      let num := if 0 ≤ e then i.value else i.value * Nat.pow 10 (-e).toNat
      let step := if 0 ≤ e then i.den * Nat.pow 10 e.toNat else i.den
      let below := num / step
      let inside (n : Nat) : Bool :=
        if 0 ≤ e then i.has (n * Nat.pow 10 e.toNat) 1
        else i.has n (Nat.pow 10 (-e).toNat)
      let nearerBelow := 2 * (num % step) < step
      match inside below, inside (below + 1) with
      | true, true => (if nearerBelow then below else below + 1, e)
      | true, false => (below, e)
      | false, true => (below + 1, e)
      | false, false => shortestFrom i p fuel (k + 1)

def positional (n : Nat) (e : Int) : List Char :=
  let digits := Nat.toDigits 10 n
  if 0 ≤ e then digits ++ List.replicate e.toNat '0'
  else
    let places := (-e).toNat
    let padded := List.replicate (places + 1 - digits.length) '0' ++ digits
    let whole := padded.take (padded.length - places)
    let part :=
      (padded.drop (padded.length - places)).reverse.dropWhile (· = '0')
    if part.isEmpty then whole else whole ++ '.' :: part.reverse

def shortestPositive (bits : UInt64) : List Char :=
  let (m, q, narrow) := mantissaExponent bits
  let i := Interval.ofMantissa m q narrow
  -- A double has at most 309 digits before the point and 323 zeros after it.
  let p := decimalPoint i.value i.den 640 (-325)
  let (n, e) := shortestFrom i p 18 1
  positional n e

def floatText (x : Float) : String :=
  let bits := x.toBits
  let negative := bits >>> 63 = 1
  let magnitude := bits &&& 0x7fffffffffffffff
  if 0x7ff0000000000000 < magnitude then "NaN"
  else
    let body :=
      if magnitude = 0x7ff0000000000000 then "inf".toList
      else if magnitude = 0 then ['0']
      else shortestPositive magnitude
    String.ofList (if negative then '-' :: body else body)

end FileDigest.Decimal
