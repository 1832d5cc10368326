import FileDigest.Decimal.Reader

/-!
# The double nearest to a fraction

A fraction is rounded to the nearest double by exact arithmetic: the quotient is
scaled so that it has 53 bits, or fewer where the smallest exponent stops it,
and a remainder of exactly half goes to the even neighbour. Beyond the largest
double the result is infinite.

`float?` reads a decimal fraction with an optional exponent in this way.
-/

namespace FileDigest.Decimal

def roundHalfEven (num den : Nat) : Nat :=
  let q := num / den
  let r := num % den
  if 2 * r < den then q
  else if den < 2 * r then q + 1
  else if q % 2 = 0 then q else q + 1

/-- The power of two by which `num / den` is divided before it is rounded: at
least the smallest exponent of a double, and otherwise such that 53 bits are
left. -/
def scaleOf (num den : Nat) : Int :=
  let guess : Int := (num.log2 : Int) - (den.log2 : Int) - 53
  let fits (e : Int) : Bool :=
    if 0 ≤ e then num < Nat.pow 2 53 * (den * Nat.pow 2 e.toNat)
    else num * Nat.pow 2 (-e).toNat < Nat.pow 2 53 * den
  let e := if fits guess then guess else if fits (guess + 1) then guess + 1
    else guess + 2
  max e (-1074)

def nearestBits (num den : Nat) : UInt64 :=
  if num = 0 then 0
  else
    let e := scaleOf num den
    let m :=
      if 0 ≤ e then roundHalfEven num (den * Nat.pow 2 e.toNat)
      else roundHalfEven (num * Nat.pow 2 (-e).toNat) den
    -- A mantissa that rounds up to 2^53 carries into the exponent field by
    -- itself.
    let bits : Nat := if m < Nat.pow 2 52 then m
      else (e + 1074).toNat * Nat.pow 2 52 + m
    if 0x7ff0000000000000 ≤ bits then 0x7ff0000000000000 else UInt64.ofNat bits

def nearest (negative : Bool) (num den : Nat) : Float :=
  let bits := nearestBits num den
  Float.ofBits (if negative then bits ||| 0x8000000000000000 else bits)

/-- The double nearest to `m * 10 ^ e`. An exponent that puts the value beyond
every double is not raised to its power. -/
def nearestPower (negative : Bool) (m : Nat) (e : Int) : Float :=
  let magnitude : Int := (Nat.toDigits 10 m).length + e
  if m = 0 ∨ magnitude < -330 then nearest negative 0 1
  else if 310 < magnitude then nearest negative (Nat.pow 2 1100) 1
  else if 0 ≤ e then nearest negative (m * Nat.pow 10 e.toNat) 1
  else nearest negative m (Nat.pow 10 (-e).toNat)

def exponent? : List Char → Option Int
  | '+' :: rest => (natural? rest).map Int.ofNat
  | '-' :: rest => (natural? rest).map fun n => -Int.ofNat n
  | rest => (natural? rest).map Int.ofNat

def fraction? (negative : Bool) (cs : List Char) : Option Float :=
  let whole := cs.takeWhile isDigit
  let rest := cs.dropWhile isDigit
  let (part, rest) :=
    match rest with
    | '.' :: more => (more.takeWhile isDigit, more.dropWhile isDigit)
    | _ => ([], rest)
  if whole.isEmpty && part.isEmpty then none
  else
    let e? : Option Int :=
      match rest with
      | [] => some 0
      | c :: more => if c = 'e' ∨ c = 'E' then exponent? more else none
    e?.map fun e => nearestPower negative (ofDigits (whole ++ part))
      (e - part.length)

/-- The double of a text: a decimal fraction, or one of the words for infinity
and for a value that is no number, with an optional sign. -/
def float? (cs : List Char) : Option Float :=
  let (negative, body) :=
    match cs with
    | '+' :: rest => (false, rest)
    | '-' :: rest => (true, rest)
    | _ => (false, cs)
  let word := String.ofList (body.map Char.toLower)
  if word = "inf" ∨ word = "infinity" then
    some (Float.ofBits (if negative then 0xfff0000000000000
      else 0x7ff0000000000000))
  else if word = "nan" then
    some (Float.ofBits (if negative then 0xfff8000000000000
      else 0x7ff8000000000000))
  else fraction? negative body

example : nearestBits 1 10 = 0x3fb999999999999a ∧ nearestBits 5 2 =
    0x4004000000000000 := by
  decide +kernel

end FileDigest.Decimal
