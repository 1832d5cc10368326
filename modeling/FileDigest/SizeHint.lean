/-!
# Size hints

What a caller knows about the size of a file before its content is read. A
negative number is the usual mark of a caller that does not know.
-/

namespace FileDigest

inductive SizeHint where
  | known (bytes : UInt64)
  | unknown
deriving DecidableEq, Repr

namespace SizeHint

/-- The hint of a number in which a negative value stands for an unknown size. A
number is taken modulo 64 bits. -/
def ofInt (n : Int) : SizeHint :=
  if n < 0 then unknown else known (UInt64.ofNat n.toNat)

def text : SizeHint → String
  | known n => toString n.toNat ++ " bytes"
  | unknown => "unknown size"

@[simp] theorem ofInt_ofNat (n : Nat) : ofInt n = known (UInt64.ofNat n) := by
  simp [ofInt]

end SizeHint

end FileDigest
