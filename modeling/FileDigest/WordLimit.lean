/-!
# Words of 64 bits

Powers are written with `Nat.pow` here and in the modules below, so that what a
power means does not hang on the instances in scope where it is written.
-/

namespace FileDigest

def wordLimit : Nat :=
  18446744073709551616

/-- How many of the words of 64 bits with a sign are not negative. -/
def signedLimit : Nat :=
  9223372036854775808

theorem wordLimit_eq : wordLimit = Nat.pow 256 8 := by decide +kernel

end FileDigest
