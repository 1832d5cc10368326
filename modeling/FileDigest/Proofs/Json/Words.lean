import FileDigest.Proofs.Json.Numbers
import Mathlib.Data.Rat.Cast.Lemmas

/-!
# Words among the numbers of JSON

A numeral stands for a rational number (`Numeral.toRat`), and many numerals
stand for one and the same. Where a word of 64 bits is wanted, only one of them
will do, the digits of the word and nothing else (`unsigned?_eq_some_iff`). So
what stands for no word is refused, and so are `1.0`, `1e0` and `-0`.
-/

namespace FileDigest.Json

open Decimal

namespace Numeral

/-- The power of ten that the exponent of a numeral stands for. -/
def scale (n : Numeral) : Int :=
  match n.exponent with
  | none => 0
  | some (true, digits) => -ofDigits digits
  | some (false, digits) => ofDigits digits

def toRat (n : Numeral) : ℚ :=
  (if n.negative then -1 else 1) * ofDigits (n.whole ++ n.fraction) *
    10 ^ (n.scale - n.fraction.length)

def ofNat (k : Nat) : Numeral :=
  ⟨false, Nat.toDigits 10 k, [], none⟩

theorem toRat_ofNat (k : Nat) : (ofNat k).toRat = k := by
  simp [toRat, ofNat, scale, ofDigits_toDigits]

theorem writesNumber_ofNat (k : Nat) :
    WritesNumber (ofNat k) (Nat.toDigits 10 k) := by
  have htext : (Written.ofNat k).text = Nat.toDigits 10 k := List.append_nil _
  rw [← htext]
  exact (Written.ofNat k).writesNumber_text

/-- A word is written in its digits and in no other way. -/
theorem unsigned?_eq_some_iff {n : Numeral} {cs : List Char}
    (h : WritesNumber n cs) {w : UInt64} : n.unsigned? = some w ↔
    n = ofNat w.toNat := by
  constructor
  · intro hread
    obtain ⟨n, hexponent⟩ := h
    rename_i exponent cs
    unfold unsigned? isWhole at hread
    dsimp only at hread
    split at hread
    · rename_i hplain
      simp only [Bool.and_eq_true, List.isEmpty_iff, Option.isNone_iff_eq_none,
        Bool.not_eq_true'] at hplain
      obtain ⟨⟨hplaces, rfl⟩, hnegative⟩ := hplain
      split at hread
      · rename_i hlt
        obtain rfl := Option.some.inj hread
        rw [UInt64.toNat_ofNat_of_lt' hlt, ofNat, n.toDigits_whole,
          hplaces, hnegative]
      · cases hread
    · cases hread
  · rintro rfl
    have hlt : w.toNat < wordLimit := w.toNat_lt
    simp [unsigned?, isWhole, ofNat, ofDigits_toDigits, hlt]

end Numeral

end FileDigest.Json
