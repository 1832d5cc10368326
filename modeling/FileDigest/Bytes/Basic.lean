import FileDigest.WordLimit

/-!
# Byte strings

Digests, path names and file contents are byte strings of any length. They are
kept as lists, so that every fold over them is a recursion on the data. A number
becomes a byte string in little-endian order and a fixed width, and a byte
string is shown to people as pairs of hexadecimal digits.
-/

namespace FileDigest

abbrev Bytes := List UInt8

namespace Bytes

/-- The `width` low bytes of a number, the least significant first. -/
def littleEndian : Nat → Nat → Bytes
  | 0, _ => []
  | width + 1, n => UInt8.ofNat (n % 256) :: littleEndian width (n / 256)

@[simp] theorem littleEndian_zero (n : Nat) : littleEndian 0 n = [] := rfl

theorem littleEndian_succ (width n : Nat) :
    littleEndian (width + 1) n = UInt8.ofNat (n % 256) :: littleEndian width
      (n / 256) := rfl

@[simp] theorem length_littleEndian (width n : Nat) :
    (littleEndian width n).length = width := by
  induction width generalizing n with
  | zero => rfl
  | succ width ih => simp [littleEndian_succ, ih]

theorem littleEndian_inj {width m n : Nat} (hm : m < Nat.pow 256 width)
    (hn : n < Nat.pow 256 width)
    (h : littleEndian width m = littleEndian width n) : m = n := by
  induction width generalizing m n with
  | zero => simp at hm hn; omega
  | succ width ih =>
      simp only [littleEndian_succ, List.cons.injEq] at h
      have hhead : m % 256 = n % 256 := by
        have := congrArg UInt8.toNat h.1
        simpa [UInt8.toNat_ofNat] using this
      have hm' : m / 256 < Nat.pow 256 width := by
        rw [Nat.div_lt_iff_lt_mul (by decide)]
        exact hm
      have hn' : n / 256 < Nat.pow 256 width := by
        rw [Nat.div_lt_iff_lt_mul (by decide)]
        exact hn
      have htail := ih hm' hn' h.2
      omega

def hexDigit (n : Nat) : Char :=
  if n < 10 then Char.ofNat (48 + n) else Char.ofNat (87 + n)

def hexChars : Bytes → List Char
  | [] => []
  | b :: rest =>
      hexDigit (b.toNat / 16) :: hexDigit (b.toNat % 16) :: hexChars rest

def hex (b : Bytes) : String :=
  String.ofList (hexChars b)

@[simp] theorem hexChars_nil : hexChars [] = [] := rfl

/-- The bytes as an array, for code that reads them by position. -/
def toArray (b : Bytes) : ByteArray :=
  ⟨List.toArray b⟩

end Bytes

end FileDigest
