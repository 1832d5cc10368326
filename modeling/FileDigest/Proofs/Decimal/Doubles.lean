import FileDigest.Decimal.Double
import Mathlib

/-!
# The bits of doubles

A positive finite double has a mantissa and an exponent (`Canonical`), and its
bits are put together from them (`bitsOf`). From these bits the mantissa and the
exponent are unpacked again (`unpack_bits`). Bits which are not those of no
number are kept when a double is made of them (`toBits_ofBits`), and so the word
nearest to the double can be told (`toWord_ofBits`).

Mathlib is imported whole, as no smaller part of it brings `pack_unpack` and its
companions along.
-/

open Float.Model Float.Model.UnpackedFloat

namespace FileDigest.Decimal

theorem toNat_packComponents (s : Sign) (e : BitVec 11) (m : BitVec 52) :
    (packComponents Format.binary64 s e m).toNat =
      s.toBitVec.toNat * 2 ^ 63 + e.toNat * 2 ^ 52 + m.toNat := by
  show (s.toBitVec ++ e ++ m).toNat = _
  rw [BitVec.toNat_append, ← Nat.shiftLeft_add_eq_or_of_lt m.isLt,
    BitVec.toNat_append, ← Nat.shiftLeft_add_eq_or_of_lt e.isLt,
    Nat.shiftLeft_eq, Nat.shiftLeft_eq]
  omega

theorem toNat_unpackMantissa (b : BitVec 64) :
    (@unpackMantissa Format.binary64 b).toNat = b.toNat % 2 ^ 52 := by
  simp [unpackMantissa]

theorem toNat_unpackExponent (b : BitVec 64) :
    (@unpackExponent Format.binary64 b).toNat = b.toNat / 2 ^ 52 % 2 ^ 11 := by
  simp [unpackExponent, Nat.shiftRight_eq_div_pow]

theorem toNat_unpackSign (b : BitVec 64) :
    (@unpackSign Format.binary64 b).toNat = b.toNat / 2 ^ 63 := by
  simp [unpackSign, Nat.shiftRight_eq_div_pow]
  have := b.isLt
  omega

/-- The mantissa and the exponent are those of a positive double. -/
structure Canonical (m : Nat) (e : Int) : Prop where
  pos : 0 < m
  lt : m < 2 ^ 53
  least : -1074 ≤ e
  normal : 2 ^ 52 ≤ m ∨ e = -1074

def bitsOf (m : Nat) (e : Int) : Nat :=
  if m < 2 ^ 52 then m else (e + 1074).toNat * 2 ^ 52 + m

def infinityBits : Nat := 2047 * 2 ^ 52

variable {m : Nat} {e : Int}

theorem toNat_packedInfinity (s : Sign) :
    (packedInfinity Format.binary64 s).toNat = s.toBitVec.toNat * 2 ^ 63 +
      infinityBits := by
  cases s <;> decide

theorem finite_congr (s : Sign) {m m' : Nat} {e e' : Int}
    (hm : m = m') (he : e = e') (hpos : 0 < m) (hpos' : 0 < m') :
    UnpackedFloat.finite s m e hpos = .finite s m' e' hpos' := by
  subst hm he
  rfl

theorem pack_finite (s : Sign) (hpos : 0 < m) :
    UnpackedFloat.pack Format.binary64 (.finite s m e hpos) =
      if 2048 ≤ (e + 1075).toNat + 1 then packedInfinity Format.binary64 s
      else if m.log2 + 1 = 53 then
        packComponents Format.binary64 s (BitVec.ofNat 11 (e + 1075).toNat)
          (BitVec.ofNat 52 m)
      else packComponents Format.binary64 s 0#11 (BitVec.ofNat 52 m) := by
  have hbias : e + (1023 : Nat) + (52 : Nat) = e + 1075 := by omega
  rw [← hbias]
  rfl

theorem toNat_pack (s : Sign) (h : Canonical m e) (hmax : e ≤ 971) :
    (UnpackedFloat.pack Format.binary64 (.finite s m e h.pos)).toNat =
      s.toBitVec.toNat * 2 ^ 63 + bitsOf m e := by
  obtain ⟨hpos, hlt, hleast, hnormal⟩ := h
  have hlog := (Nat.log2_lt (Nat.ne_of_gt hpos)).2 hlt
  rw [pack_finite, if_neg (by omega)]
  unfold bitsOf
  by_cases hsub : m < 2 ^ 52
  · have hlow := (Nat.log2_lt (Nat.ne_of_gt hpos)).2 hsub
    rw [if_neg (by omega), if_pos hsub, toNat_packComponents,
      BitVec.toNat_ofNat, BitVec.toNat_ofNat]
    omega
  · have hhigh := (Nat.le_log2 (Nat.ne_of_gt hpos)).2 (Nat.le_of_not_lt hsub)
    rw [if_pos (by omega), if_neg hsub, toNat_packComponents,
      BitVec.toNat_ofNat, BitVec.toNat_ofNat]
    omega

theorem toNat_pack_overflow (s : Sign) (hpos : 0 < m) (hmax : 971 < e) :
    (UnpackedFloat.pack Format.binary64 (.finite s m e hpos)).toNat =
      s.toBitVec.toNat * 2 ^ 63 + infinityBits := by
  rw [pack_finite, if_pos (by omega), toNat_packedInfinity]

theorem bitsOf_lt (h : Canonical m e) (hmax : e ≤ 971) :
    bitsOf m e < infinityBits := by
  obtain ⟨-, hlt, -, -⟩ := h
  unfold bitsOf infinityBits
  split <;> omega

theorem ofBitVec_unpackSign {b : BitVec 64} (s : Sign) {n : Nat}
    (hn : n < 2 ^ 63) (hb : b.toNat = s.toBitVec.toNat * 2 ^ 63 + n) :
    Sign.ofBitVec (@unpackSign Format.binary64 b) = s := by
  have hbit : @unpackSign Format.binary64 b = s.toBitVec := by
    apply BitVec.eq_of_toNat_eq
    rw [toNat_unpackSign, hb]
    omega
  rw [hbit, Sign.ofBitVec_toBitVec]

theorem unpackExponent_eq_iff {b : BitVec 64} (field : BitVec 11) :
    @unpackExponent Format.binary64 b = field ↔ b.toNat / 2 ^ 52 % 2 ^ 11 =
      field.toNat := by
  rw [← toNat_unpackExponent]
  exact BitVec.toNat_inj.symm

theorem unpack_subnormal {b : BitVec 64}
    (hexponent : b.toNat / 2 ^ 52 % 2 ^ 11 = 0) (hpos : 0 < b.toNat % 2 ^ 52) :
    UnpackedFloat.unpack Format.binary64 b =
      .finite (Sign.ofBitVec (@unpackSign Format.binary64 b)) (b.toNat % 2 ^ 52)
        (-1074) hpos := by
  have hzero : @unpackExponent Format.binary64 b = 0#11 :=
    (unpackExponent_eq_iff _).2 hexponent
  have hmantissa := toNat_unpackMantissa b
  rw [UnpackedFloat.unpack]
  simp only [hzero]
  rw [if_neg (by decide), if_pos (by decide), dif_neg]
  · exact finite_congr _ hmantissa rfl _ _
  · intro heq
    rw [heq] at hmantissa
    exact Nat.ne_of_lt hpos hmantissa

theorem unpack_normal {b : BitVec 64}
    (hexponent : b.toNat / 2 ^ 52 % 2 ^ 11 ≠ 0)
    (hfinite : b.toNat / 2 ^ 52 % 2 ^ 11 ≠ 2047) :
    UnpackedFloat.unpack Format.binary64 b =
      .finite (Sign.ofBitVec (@unpackSign Format.binary64 b))
        (2 ^ 52 + b.toNat % 2 ^ 52)
        ((b.toNat / 2 ^ 52 % 2 ^ 11 : Nat) - 1075) (by omega) := by
  rw [UnpackedFloat.unpack]
  dsimp only
  rw [if_neg (mt (unpackExponent_eq_iff _).1 hfinite),
    if_neg (mt (unpackExponent_eq_iff _).1 hexponent)]
  refine finite_congr _ ?_ ?_ _ _
  · rw [BitVec.toNat_append, ← Nat.shiftLeft_add_eq_or_of_lt (BitVec.isLt _),
      toNat_unpackMantissa]
    rfl
  · rw [toNat_unpackExponent]
    rfl

theorem unpack_bits {b : BitVec 64} (s : Sign) (h : Canonical m e)
    (hmax : e ≤ 971) (hb : b.toNat = s.toBitVec.toNat * 2 ^ 63 + bitsOf m e) :
    UnpackedFloat.unpack Format.binary64 b = .finite s m e h.pos := by
  have hbits := bitsOf_lt h hmax
  have hsign := ofBitVec_unpackSign s (hbits.trans (by decide)) hb
  obtain ⟨hpos, hlt, hleast, hnormal⟩ := h
  unfold infinityBits at hbits
  by_cases hsub : m < 2 ^ 52
  · have hself : bitsOf m e = m := if_pos hsub
    rw [unpack_subnormal (by omega) (by omega), hsign]
    exact finite_congr s (by omega) (by omega) _ _
  · have hfields : bitsOf m e = (e + 1074).toNat * 2 ^ 52 + m := if_neg hsub
    rw [unpack_normal (by omega) (by omega), hsign]
    exact finite_congr s (by omega) (by omega) _ _

def HasParts (x : Float) (s : Sign) (m : Nat) (e : Int) : Prop :=
  x.toBits.toNat = s.toBitVec.toNat * 2 ^ 63 + bitsOf m e

variable {x : Float} {s : Sign}

theorem HasParts.unpack (hx : HasParts x s m e) (h : Canonical m e)
    (hmax : e ≤ 971) : x.toModel.unpack = .finite s m e h.pos :=
  unpack_bits s h hmax hx

/-- All bits below those of an infinite double are those of a positive double,
or zero. -/
theorem exists_bitsOf {n : Nat} (hpos : 0 < n) (hlt : n < infinityBits) :
    ∃ m e, Canonical m e ∧ e ≤ 971 ∧ bitsOf m e = n := by
  unfold infinityBits at hlt
  by_cases hsub : n < 2 ^ 52
  · exact ⟨n, -1074, ⟨hpos, by omega, le_rfl, Or.inr rfl⟩, by
      omega, if_pos hsub⟩
  · refine ⟨n % 2 ^ 52 + 2 ^ 52, (n / 2 ^ 52 : Nat) - 1075,
      ⟨by omega, by omega, by omega, ?_⟩, by omega, ?_⟩
    · exact Or.inl (by omega)
    · rw [bitsOf, if_neg (by omega)]
      omega

/-- Bits that are not those of no number are kept. -/
theorem toBits_ofBits {b : UInt64} (h : b.toNat % 2 ^ 63 ≤ infinityBits) :
    (Float.ofBits b).toBits = b := by
  have hnan : ¬@isNaNBits Format.binary64 b.toBitVec = true := by
    intro hnan
    obtain ⟨hexponent, hmantissa⟩ := of_decide_eq_true hnan
    replace hexponent : b.toNat / 2 ^ 52 % 2 ^ 11 = 2047 := by
      rw [← UInt64.toNat_toBitVec, ← toNat_unpackExponent, hexponent]
      rfl
    apply hmantissa
    apply BitVec.eq_of_toNat_eq
    rw [toNat_unpackMantissa, UInt64.toNat_toBitVec]
    unfold infinityBits at h
    show b.toNat % 2 ^ 52 = 0
    omega
  apply UInt64.toBitVec_inj.1
  show UnpackedFloat.pack Format.binary64
    (UnpackedFloat.unpack Format.binary64 b.toBitVec) = b.toBitVec
  rw [pack_unpack, if_neg hnan]

theorem mantissaExponent_bitsOf {bits : UInt64} (h : Canonical m e)
    (hmax : e ≤ 971) (hb : bits.toNat = bitsOf m e) :
    ∃ narrow, mantissaExponent bits = (m, e, narrow) := by
  have hlt := bitsOf_lt h hmax
  obtain ⟨hpos, hlt, hleast, hnormal⟩ := h
  have hfield : (bits >>> 52).toNat % 2048 = bitsOf m e / 2 ^ 52 := by
    rw [UInt64.toNat_shiftRight, hb, Nat.shiftRight_eq_div_pow]
    unfold infinityBits at *
    show bitsOf m e / 2 ^ 52 % 2048 = _
    omega
  have hpower : Nat.pow 2 52 = 2 ^ 52 := rfl
  unfold mantissaExponent
  dsimp only
  rw [hfield, hpower, hb]
  unfold bitsOf
  by_cases hsub : m < 2 ^ 52
  · simp only [if_pos hsub]
    rw [if_pos (by omega)]
    exact ⟨false, by rw [Nat.mod_eq_of_lt hsub, show e = -1074 by omega]⟩
  · simp only [if_neg hsub]
    rw [if_neg (by omega)]
    refine ⟨_, Prod.ext ?_ (Prod.ext ?_ rfl)⟩
    · show ((e + 1074).toNat * 2 ^ 52 + m) % 2 ^ 52 + 2 ^ 52 = m
      omega
    · show ((((e + 1074).toNat * 2 ^ 52 + m) / 2 ^ 52 : Nat) : Int) - 1075 = e
      omega

/-- A positive double is rounded as its mantissa and its exponent say. -/
theorem toWord_of_hasParts (hx : HasParts x .positive m e) (h : Canonical m e)
    (hmax : e ≤ 971) :
    toWord x = UInt64.ofNat (min (roundHalfUp m e) (wordLimit - 1)) := by
  have hlt := bitsOf_lt h hmax
  have hbits : x.toBits.toNat = bitsOf m e := by
    simpa [HasParts, Sign.toBitVec] using hx
  obtain ⟨narrow, hmantissa⟩ := mantissaExponent_bitsOf h hmax hbits
  unfold infinityBits at hlt
  have hnot : ¬(0x8000000000000000 ≤ x.toBits ∨ 0x7ff0000000000000 <
      x.toBits) := by
    rw [UInt64.le_iff_toNat_le, UInt64.lt_iff_toNat_lt, hbits]
    show ¬(9223372036854775808 ≤ bitsOf m e ∨ 9218868437227405312 < bitsOf m e)
    omega
  have hfinite : x.toBits ≠ 0x7ff0000000000000 := by
    intro heq
    rw [heq] at hbits
    replace hbits : 9218868437227405312 = bitsOf m e := hbits
    omega
  unfold toWord
  dsimp only
  rw [if_neg hnot, if_neg hfinite, hmantissa]

theorem toWord_of_negative {x : Float} (h : 2 ^ 63 ≤ x.toBits.toNat) :
    toWord x = 0 := by
  unfold toWord
  dsimp only
  rw [if_pos (Or.inl _)]
  exact UInt64.le_iff_toNat_le.2 h

theorem roundHalfUp_zero_left (e : Int) : roundHalfUp 0 e = 0 := by
  have hden : 0 < Nat.pow 2 (-e).toNat := Nat.pow_pos (by decide)
  unfold roundHalfUp
  dsimp only
  rw [Nat.mul_zero, Nat.zero_mul, Nat.zero_add]
  exact Nat.div_eq_of_lt (by omega)

theorem roundHalfUp_of_nonneg (m : Nat) {e : Int} (he : 0 ≤ e) :
    roundHalfUp m e = m * 2 ^ e.toNat := by
  unfold roundHalfUp
  rw [show (-e).toNat = 0 by omega]
  show (2 * m * 2 ^ e.toNat + 1) / (2 * 1) = m * 2 ^ e.toNat
  rw [Nat.mul_assoc]
  omega

theorem roundHalfUp_two_mul (m : Nat) (e : Int) :
    roundHalfUp (2 * m) e = roundHalfUp m (e + 1) := by
  rcases Int.lt_or_le e 0 with hneg | hpos
  · obtain ⟨k, rfl⟩ : ∃ k : Nat, e = -((k : Int) + 1) :=
      ⟨(-e - 1).toNat, by omega⟩
    unfold roundHalfUp
    rw [show (-(-((k : Int) + 1))).toNat = k + 1 by omega,
      show (-((k : Int) + 1)).toNat = 0 by omega,
      show (-(-((k : Int) + 1) + 1)).toNat = k by omega,
      show (-((k : Int) + 1) + 1).toNat = 0 by omega]
    show (2 * (2 * m) * 1 + 2 ^ k * 2) / (2 * (2 ^ k * 2)) =
      (2 * m * 1 + 2 ^ k) / (2 * 2 ^ k)
    rw [Nat.mul_one, Nat.mul_one,
      ← Nat.mul_div_mul_left (2 * m + 2 ^ k) _ (show 0 < 2 by decide)]
    congr 1 <;> ring
  · rw [roundHalfUp_of_nonneg _ hpos, roundHalfUp_of_nonneg _ (by omega),
      show (e + 1).toNat = e.toNat + 1 by omega, Nat.pow_succ]
    ring

theorem bitsOf_carry (hleast : -1074 ≤ e) :
    bitsOf (2 ^ 53) e = bitsOf (2 ^ 52) (e + 1) := by
  rw [bitsOf, bitsOf, if_neg (by decide), if_neg (by decide)]
  omega

theorem infinityBits_le_bitsOf (hm : 2 ^ 52 ≤ m) (he : 971 < e) :
    infinityBits ≤ bitsOf m e := by
  rw [bitsOf, if_neg (by omega), infinityBits]
  omega

theorem toWord_zero : toWord (Float.ofBits 0) = 0 := by
  decide +kernel

theorem toWord_infinity : toWord (Float.ofBits 0x7ff0000000000000) =
    UInt64.ofNat (wordLimit - 1) :=
  rfl

/-- The whole number nearest to a double that is given by its bits, where a
mantissa may be one too large. -/
theorem toWord_ofBits (hle : m ≤ 2 ^ 53) (hleast : -1074 ≤ e)
    (hnormal : 2 ^ 52 ≤ m ∨ e = -1074) :
    toWord (Float.ofBits (UInt64.ofNat (min (bitsOf m e) infinityBits))) =
      UInt64.ofNat (min (roundHalfUp m e) (wordLimit - 1)) := by
  have hcanonical : ∀ m e, Canonical m e →
      toWord (Float.ofBits (UInt64.ofNat (min (bitsOf m e) infinityBits))) =
        UInt64.ofNat (min (roundHalfUp m e) (wordLimit - 1)) := by
    intro m e h
    rcases Int.lt_or_le 971 e with hoverflow | hmax
    · have hm : 2 ^ 52 ≤ m := h.normal.resolve_right (by omega)
      have hlarge : wordLimit - 1 ≤ roundHalfUp m e := by
        rw [roundHalfUp_of_nonneg m (by omega)]
        calc wordLimit - 1 ≤ 2 ^ 52 * 2 ^ 12 := by decide
          _ ≤ m * 2 ^ e.toNat :=
            Nat.mul_le_mul hm (Nat.pow_le_pow_right (by decide) (by omega))
      rw [Nat.min_eq_right (infinityBits_le_bitsOf hm hoverflow),
        Nat.min_eq_right hlarge]
      exact toWord_infinity
    · have hlt := bitsOf_lt h hmax
      have hb : (UInt64.ofNat (bitsOf m e)).toNat = bitsOf m e := by
        refine UInt64.toNat_ofNat_of_lt' (hlt.trans ?_)
        decide
      have hparts : HasParts (Float.ofBits (UInt64.ofNat (bitsOf m e)))
          .positive m e := by
        unfold HasParts
        rw [toBits_ofBits (by rw [hb]; omega), hb]
        exact (Nat.zero_add _).symm
      rw [Nat.min_eq_left hlt.le, toWord_of_hasParts hparts h hmax]
  rcases Nat.eq_zero_or_pos m with rfl | hpos
  · obtain rfl : e = -1074 := hnormal.resolve_left (by decide)
    rw [roundHalfUp_zero_left]
    exact toWord_zero
  · rcases Nat.lt_or_eq_of_le hle with hlt | rfl
    · exact hcanonical m e ⟨hpos, hlt, hleast, hnormal⟩
    · rw [bitsOf_carry hleast, show 2 ^ 53 = 2 * 2 ^ 52 from rfl,
        roundHalfUp_two_mul]
      exact hcanonical _ _ ⟨by decide, by decide, by omega, Or.inl le_rfl⟩

end FileDigest.Decimal
