import FileDigest.WordLimit

/-!
# What a double stands for

The bits of a positive finite double hold a mantissa and an exponent, and the
double is exactly `m * 2 ^ q`. From these the nearest whole number is found
without any further rounding.
-/

namespace FileDigest.Decimal

/-- The mantissa and the exponent of a positive finite double, and whether the
gap below it is half the gap above. -/
def mantissaExponent (bits : UInt64) : Nat × Int × Bool :=
  let field := (bits >>> 52).toNat % 2048
  let low := bits.toNat % Nat.pow 2 52
  if field = 0 then (low, -1074, false)
  else (low + Nat.pow 2 52, (field : Int) - 1075, low = 0 ∧ 1 < field)

/-- The whole number nearest to `m * 2 ^ q`, where a half goes up. -/
def roundHalfUp (m : Nat) (q : Int) : Nat :=
  let den := Nat.pow 2 (-q).toNat
  (2 * m * Nat.pow 2 q.toNat + den) / (2 * den)

/-- The word of 64 bits nearest to a double, where a half goes away from zero.
What is too small or no number becomes zero, and what is too large the greatest
word. -/
def toWord (x : Float) : UInt64 :=
  let bits := x.toBits
  if 0x8000000000000000 ≤ bits ∨ 0x7ff0000000000000 < bits then 0
  else if bits = 0x7ff0000000000000 then UInt64.ofNat (wordLimit - 1)
  else
    let (m, q, _) := mantissaExponent bits
    UInt64.ofNat (min (roundHalfUp m q) (wordLimit - 1))

theorem roundHalfUp_zero (m : Nat) : roundHalfUp m 0 = m := by
  show (2 * m * 1 + 1) / (2 * 1) = m
  omega

example : toWord 2.5 = 3 ∧ toWord 2.4 = 2 ∧ toWord (-1.5) = 0 ∧
    toWord 0.5 = 1 := by decide +kernel

example : toWord 1e30 = 18446744073709551615 ∧ toWord 1e3 = 1000 := by
  decide +kernel

end FileDigest.Decimal
