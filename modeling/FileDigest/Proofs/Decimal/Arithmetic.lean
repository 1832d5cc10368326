import FileDigest.Json.Number
import FileDigest.Proofs.Decimal.Rounding

/-!
# Arithmetic of doubles

A result is a quotient with what its remainder tells of the bits behind it
(`quotient`), and it is rounded by shifting it, which divides by a power of two
(`shift_quotient`). So what is rounded becomes the double nearest to what it is
worth (`toNat_pack_of_value`). In particular, a word that is made a double
becomes the nearest one (`toFloat_eq_nearest`), and the quotient of two whole
numbers as doubles is the one nearest to the quotient of what is left of them
(`nearest_div_nearest`). What is made of doubles that are not negative by
multiplication and division is not negative either (`NotNegative`).
-/

open Float.Model Float.Model.UnpackedFloat

namespace FileDigest.Decimal

variable {a b m num den : Nat} {e : Int} {s : Sign}

/-- A quotient as a mantissa, with the bits behind it as its remainder tells
them. -/
def quotient (a b : Nat) : ExtendedMantissa :=
  .ofMantissaAndAccuracy (a / b) (accuracyOfFraction (a % b) b)

theorem quotient_eq (hb : 0 < b) :
    quotient a b = ⟨a / b, decide (b ≤ 2 * (a % b)),
      decide (a % b ≠ 0 ∧ 2 * (a % b) ≠ b)⟩ := by
  unfold quotient accuracyOfFraction
  by_cases hzero : a % b = 0
  · rw [if_pos hzero, decide_eq_false (by omega), decide_eq_false (by omega)]
    rfl
  · rw [if_neg hzero]
    rcases Nat.lt_trichotomy (2 * (a % b)) b with hlt | heq | hgt
    · rw [Nat.compare_eq_lt.2 hlt, decide_eq_false (by omega),
        decide_eq_true (by omega)]
      rfl
    · rw [Nat.compare_eq_eq.2 heq, decide_eq_true (by omega),
        decide_eq_false (by omega)]
      rfl
    · rw [Nat.compare_eq_gt.2 hgt, decide_eq_true (by omega),
        decide_eq_true (by omega)]
      rfl

/-- A quotient is rounded to the nearest whole number. -/
theorem roundedMantissa_quotient (hb : 0 < b) : (quotient a b).roundedMantissa =
    roundHalfEven a b := by
  rw [quotient_eq hb]
  unfold roundHalfEven
  dsimp only
  rcases Nat.lt_trichotomy (2 * (a % b)) b with hlt | heq | hgt
  · rw [decide_eq_false (show ¬b ≤ 2 * (a % b) by omega), if_pos hlt]
    cases decide (a % b ≠ 0 ∧ 2 * (a % b) ≠ b) <;> rfl
  · rw [decide_eq_true (show b ≤ 2 * (a % b) by omega),
      decide_eq_false (show ¬(a % b ≠ 0 ∧ 2 * (a % b) ≠ b) by omega),
      if_neg (by omega), if_neg (by omega)]
    show a / b + a / b % 2 = _
    split <;> omega
  · rw [decide_eq_true (show b ≤ 2 * (a % b) by omega),
      decide_eq_true (show a % b ≠ 0 ∧ 2 * (a % b) ≠ b by omega),
      if_neg (by omega), if_pos hgt]
    rfl

theorem shiftRightOne_quotient (hb : 0 < b) : (quotient a b).shiftRightOne =
    quotient a (b * 2) := by
  have hmod : a % (b * 2) = a % b + b * (a / b % 2) := Nat.mod_mul
  have hlt := Nat.mod_lt a hb
  rw [quotient_eq hb, quotient_eq (by omega), hmod]
  simp only [ExtendedMantissa.shiftRightOne, Nat.div_div_eq_div_mul,
    ExtendedMantissa.mk.injEq, true_and]
  have hbit := Nat.mod_two_eq_zero_or_one (a / b)
  refine ⟨Bool.eq_iff_iff.2 ?_, Bool.eq_iff_iff.2 ?_⟩
  · simp only [bne_iff_ne, decide_eq_true_eq]
    rcases hbit with hbit | hbit <;> rw [hbit] <;> omega
  · simp only [Bool.or_eq_true, decide_eq_true_eq]
    rcases hbit with hbit | hbit <;> rw [hbit] <;> omega

/-- Shifting a quotient divides by the number with as many bits more. -/
theorem shift_quotient (hb : 0 < b) (k : Nat) :
    quotient a b >>> k = quotient a (b * 2 ^ k) := by
  induction k with
  | zero => rw [Nat.pow_zero, Nat.mul_one]; rfl
  | succ k ih =>
      show ExtendedMantissa.shiftRightOne (quotient a b >>> k) = _
      rw [ih, shiftRightOne_quotient (Nat.mul_pos hb (Nat.two_pow_pos k)),
        Nat.pow_succ, Nat.mul_assoc]

def targetOf (m : Nat) (e : Int) : Int :=
  max ((m.log2 : Int) + e - 52) (-1074)

theorem targetExponent_eq (m : Nat) (e : Int) :
    Format.binary64.targetExponent (totalExponent m e) = targetOf m e := by
  unfold Format.targetExponent totalExponent targetOf
  show max ((m.log2 : Int) + 1 + e - (1 + 52 : Nat))
    (3 - 2 ^ (11 - 1) - ((1 + 52 : Nat) : Int)) = _
  congr 1
  omega

theorem shiftToTargetExponent_quotient (hb : 0 < b) (e : Int) :
    shiftToTargetExponent Format.binary64 (a / b) e
      (accuracyOfFraction (a % b) b) =
      (quotient a (b * 2 ^ (targetOf (a / b) e - e).toNat),
        e + (targetOf (a / b) e - e).toNat) := by
  unfold shiftToTargetExponent
  rw [targetExponent_eq, ← shift_quotient hb]
  rfl

def whole (m : Nat) : ExtendedMantissa := ⟨m, false, false⟩

theorem shiftToTargetExponent_of_lt (hlt : m < 2 ^ 53) (hleast : -1074 ≤ e) :
    shiftToTargetExponent Format.binary64 m e .exact = (whole m, e) := by
  have hlog : m.log2 < 53 := by
    rcases Nat.eq_zero_or_pos m with rfl | hpos
    · decide
    · exact (Nat.log2_lt (Nat.ne_of_gt hpos)).2 hlt
  have hshift : (targetOf m e - e).toNat = 0 := by
    unfold targetOf
    omega
  unfold shiftToTargetExponent shiftToExponent
  dsimp only
  rw [targetExponent_eq, hshift]
  exact Prod.ext rfl (Int.add_zero e)

/-- A mantissa that was rounded up to one bit more is shifted once. -/
theorem shiftToTargetExponent_carry (hleast : -1074 ≤ e) :
    shiftToTargetExponent Format.binary64 (2 ^ 53) e .exact =
      (whole (2 ^ 52), e + 1) := by
  have hshift : (targetOf (2 ^ 53) e - e).toNat = 1 := by
    unfold targetOf
    rw [Nat.log2_two_pow]
    omega
  unfold shiftToTargetExponent shiftToExponent
  dsimp only
  rw [targetExponent_eq, hshift]
  rfl

theorem toNat_pack_canonical (s : Sign) (h : Canonical m e) :
    (UnpackedFloat.pack Format.binary64 (.finite s m e h.pos)).toNat =
      s.toBitVec.toNat * 2 ^ 63 + min (bitsOf m e) infinityBits := by
  rcases Int.lt_or_le 971 e with hoverflow | hmax
  · rw [toNat_pack_overflow s h.pos hoverflow, Nat.min_eq_right]
    exact infinityBits_le_bitsOf (h.normal.resolve_right (by omega)) hoverflow
  · rw [toNat_pack s h hmax, Nat.min_eq_left (bitsOf_lt h hmax).le]

theorem toNat_pack_round (s : Sign) (hb : 0 < b) {r : Nat} {e' : Int}
    (hr : roundHalfEven a (b * 2 ^ (targetOf (a / b) e - e).toNat) = r)
    (he' : e + (targetOf (a / b) e - e).toNat = e') (hle : r ≤ 2 ^ 53)
    (hleast : -1074 ≤ e') (hnormal : 2 ^ 52 ≤ r ∨ e' = -1074) :
    (UnpackedFloat.pack Format.binary64
      (roundWithAccuracy Format.binary64 s (a / b) e
        (accuracyOfFraction (a % b) b))).toNat =
      s.toBitVec.toNat * 2 ^ 63 + min (bitsOf r e') infinityBits := by
  unfold roundWithAccuracy
  rw [shiftToTargetExponent_quotient hb]
  dsimp only
  rw [roundedMantissa_quotient (Nat.mul_pos hb (Nat.two_pow_pos _)), hr, he']
  rcases Nat.lt_or_eq_of_le hle with hlt | rfl
  · simp only [shiftToTargetExponent_of_lt hlt hleast]
    rcases Nat.eq_zero_or_pos r with rfl | hpos
    · obtain rfl : e' = -1074 := hnormal.resolve_left (by decide)
      cases s <;> rfl
    · rw [dif_neg (show (whole r).mantissa ≠ 0 from Nat.ne_of_gt hpos)]
      exact toNat_pack_canonical s ⟨hpos, hlt, hleast, hnormal⟩
  · simp only [shiftToTargetExponent_carry hleast]
    rw [dif_neg (show (whole (2 ^ 52)).mantissa ≠ 0 by decide),
      bitsOf_carry hleast]
    exact toNat_pack_canonical s ⟨by decide, by decide, by omega, Or.inl le_rfl⟩

/-- With the exponent that a quotient is shifted to, it has 53 bits, or fewer if
it is the least. -/
theorem targetOf_bounds (hb : 0 < b) (hle : b ≤ a) (e : Int) :
    (a : ℚ) / b * 2 ^ e < 2 ^ 53 * 2 ^ targetOf (a / b) e ∧
      (2 ^ 52 * 2 ^ targetOf (a / b) e ≤ (a : ℚ) / b * 2 ^ e ∨
        targetOf (a / b) e = -1074) := by
  have hquotient : a / b ≠ 0 := Nat.ne_of_gt (Nat.div_pos hle hb)
  have hbelow : (2 : ℚ) ^ (a / b).log2 ≤ (a : ℚ) / b := by
    calc (2 : ℚ) ^ (a / b).log2 ≤ (a / b : Nat) := by
           exact_mod_cast Nat.log2_self_le hquotient
      _ ≤ (a : ℚ) / b := Nat.cast_div_le
  have habove : (a : ℚ) / b < 2 ^ ((a / b).log2 + 1) := by
    rw [div_lt_iff₀ (by exact_mod_cast hb)]
    have hlt := (Nat.div_lt_iff_lt_mul hb).1 (Nat.lt_log2_self (n := a / b))
    exact_mod_cast hlt
  have hpow : (0 : ℚ) < 2 ^ e := by positivity
  have hcast : ∀ (k : Nat) (i : Int), (2 : ℚ) ^ k * 2 ^ i =
      2 ^ ((k : Int) + i) := fun k i => by
    rw [zpow_add₀ two_ne_zero, zpow_natCast]
  rw [hcast, hcast]
  unfold targetOf
  refine ⟨?_, ?_⟩
  · calc (a : ℚ) / b * 2 ^ e < 2 ^ ((a / b).log2 + 1) * 2 ^ e :=
           (mul_lt_mul_iff_left₀ hpow).2 habove
      _ = 2 ^ (((a / b).log2 + 1 : Nat) + e) := hcast _ _
      _ ≤ _ := zpow_le_zpow_right₀ (by norm_num) (by omega)
  · rcases Int.le_total (((a / b).log2 : Int) + e - 52) (-1074) with
      hleast | hnormal
    · exact Or.inr (max_eq_right hleast)
    · left
      calc (2 : ℚ) ^
             (((52 : Nat) : Int) + max (((a / b).log2 : Int) + e - 52) (-1074))
          = 2 ^ (((a / b).log2 : Int) + e) := by congr 1; omega
        _ = 2 ^ (a / b).log2 * 2 ^ e := (hcast _ _).symm
        _ ≤ (a : ℚ) / b * 2 ^ e := (mul_le_mul_iff_left₀ hpow).2 hbelow

/-- A quotient that is worth a fraction is rounded to the double nearest to the
fraction. -/
theorem toNat_pack_of_value (s : Sign) (hb : 0 < b) (hle : b ≤ a)
    (hnum : num ≠ 0) (hden : den ≠ 0) (hvalue : (a : ℚ) / b * 2 ^ e = num / den)
    (htarget : e ≤ targetOf (a / b) e) :
    (UnpackedFloat.pack Format.binary64
      (roundWithAccuracy Format.binary64 s (a / b) e
        (accuracyOfFraction (a % b) b))).toNat =
      s.toBitVec.toNat * 2 ^ 63 + (nearestBits num den).toNat := by
  obtain ⟨hfits, hnormal⟩ := targetOf_bounds hb hle e
  rw [hvalue] at hfits hnormal
  have hscale : scaleOf num den = targetOf (a / b) e :=
    scaleOf_eq_of_bounds hnum hden (le_max_right _ _) hfits hnormal
  have hmantissa : roundHalfEven a (b * 2 ^ (targetOf (a / b) e - e).toNat) =
      mantissaOf num den := by
    unfold mantissaOf
    rw [hscale]
    apply roundHalfEven_congr (Nat.mul_pos hb (Nat.two_pow_pos _))
      (down_pos hden _)
    rw [up_div_down, ← hvalue]
    obtain ⟨k, hk⟩ : ∃ k : Nat, targetOf (a / b) e = e + k :=
      ⟨(targetOf (a / b) e - e).toNat, by omega⟩
    rw [hk, show (e + (k : Int) - e).toNat = k by omega,
      zpow_add₀ two_ne_zero, zpow_natCast]
    push_cast
    field_simp
  rw [toNat_pack_round s hb hmantissa (show _ = targetOf (a / b) e by omega)
    (mantissaOf_le hnum hden) (le_max_right _ _)
      (by rw [← hscale]; exact mantissaOf_normal hnum hden),
    nearestBits_eq hnum, hscale,
    UInt64.toNat_ofNat_of_lt' ((Nat.min_le_right _ _).trans_lt (by decide))]

theorem log2_mul_two_pow {n : Nat} (hn : n ≠ 0) (k : Nat) :
    (n * 2 ^ k).log2 = n.log2 + k := by
  have hpow := Nat.two_pow_pos k
  rw [Nat.log2_eq_iff (Nat.mul_ne_zero hn (Nat.ne_of_gt hpow)), Nat.pow_add,
    show n.log2 + k + 1 = n.log2 + 1 + k by omega, Nat.pow_add]
  exact ⟨Nat.mul_le_mul_right _ (Nat.log2_self_le hn),
    Nat.mul_lt_mul_of_pos_right Nat.lt_log2_self hpow⟩

theorem normalize_natCast {n : Nat} (hn : n ≠ 0) :
    normalize Format.binary64 (n : Int) 0 .positive =
      roundWithAccuracy Format.binary64 .positive (n * 2 ^ (52 - n.log2))
        (-((52 - n.log2 : Nat) : Int))
        .exact := by
  have hcompare : compare (n : Int) 0 = .gt := compare_gt_iff_gt.2 (by omega)
  have hshift : (-targetOf n 0).toNat = 52 - n.log2 := by
    unfold targetOf
    omega
  unfold Float.Model.UnpackedFloat.normalize
  rw [hcompare]
  show round Format.binary64 .positive n 0 = _
  unfold UnpackedFloat.round decreaseExponent
  rw [targetExponent_eq]
  simp only [Nat.shiftLeft_eq, Int.zero_sub, hshift]

theorem toNat_pack_of_whole (s : Sign) (hm : m ≠ 0) (hnum : num ≠ 0)
    (hden : den ≠ 0) (hvalue : (m : ℚ) * 2 ^ e = num / den)
    (htarget : e ≤ targetOf m e) :
    (UnpackedFloat.pack Format.binary64
      (roundWithAccuracy Format.binary64 s m e .exact)).toNat =
      s.toBitVec.toNat * 2 ^ 63 + (nearestBits num den).toNat := by
  have hpack := @toNat_pack_of_value m 1 num den e s Nat.one_pos
    (Nat.pos_of_ne_zero hm) hnum hden
    (by rwa [Nat.cast_one, div_one]) (by rwa [Nat.div_one])
  rwa [Nat.div_one, Nat.mod_one] at hpack

theorem toFloat_eq_nearest (n : UInt64) :
    n.toFloat = nearest false n.toNat 1 := by
  apply Float.toBits_inj.1
  rw [toBits_nearest]
  by_cases hzero : n = 0
  · subst hzero
    rfl
  have hn : n.toNat ≠ 0 := fun h => hzero (UInt64.toNat_inj.1 h)
  apply UInt64.toNat_inj.1
  show (UnpackedFloat.pack Format.binary64
    (normalize Format.binary64 (n.toNat : Int) 0 .positive)).toNat = _
  generalize n.toNat = n at hn
  rw [normalize_natCast hn, toNat_pack_of_whole .positive _ hn Nat.one_ne_zero]
  · exact Nat.zero_add _
  · push_cast
    rw [zpow_neg, zpow_natCast]
    field_simp
  · unfold targetOf
    rw [log2_mul_two_pow hn]
    omega
  · exact Nat.mul_ne_zero hn (Nat.ne_of_gt (Nat.two_pow_pos _))

/-- The mantissa and the exponent of the double nearest to a whole number. -/
structure WholeParts (n m : Nat) (e : Int) : Prop where
  normal : 2 ^ 52 ≤ m
  canonical : Canonical m e
  parts : HasParts (nearest false n 1) .positive m e
  value : (m : ℚ) * 2 ^ e = shortened n
  least : (n.log2 : Int) - 52 ≤ e
  most : e ≤ (n.log2 : Int) - 51

theorem exists_wholeParts {n : Nat} (hn : n ≠ 0) (hlog : n.log2 ≤ 1022) :
    ∃ m e, WholeParts n m e := by
  have hscale := scaleOf_one hn
  have hvalue := mantissaOf_one_mul hn
  have hnormal :=
    (mantissaOf_normal hn Nat.one_ne_zero).resolve_right (by omega)
  have hparts : ∀ m e, Canonical m e → e ≤ 971 →
      bitsOf m e = bitsOf (mantissaOf n 1) (scaleOf n 1) →
      HasParts (nearest false n 1) .positive m e := by
    intro m e hcanonical hmax hbits
    have hfinite := bitsOf_lt hcanonical hmax
    unfold HasParts
    rw [toBits_nearest, nearestBits_eq hn, ← hbits, Nat.min_eq_left hfinite.le,
      UInt64.toNat_ofNat_of_lt' (hfinite.trans (by decide))]
    exact (Nat.zero_add _).symm
  rcases Nat.lt_or_eq_of_le (mantissaOf_le hn Nat.one_ne_zero) with
    hmantissa | hmantissa
  · have hcanonical : Canonical (mantissaOf n 1) (scaleOf n 1) :=
      ⟨by omega, hmantissa, by omega, Or.inl hnormal⟩
    exact ⟨_, _, hnormal, hcanonical, hparts _ _ hcanonical (by omega) rfl,
      hvalue, by omega, by omega⟩
  · have hcanonical : Canonical (2 ^ 52) (scaleOf n 1 + 1) :=
      ⟨by decide, by decide, by omega, Or.inl le_rfl⟩
    refine ⟨_, _, le_rfl, hcanonical, hparts _ _ hcanonical (by omega) ?_, ?_,
      by omega, by omega⟩
    · rw [hmantissa, bitsOf_carry (by omega)]
    · rw [← hvalue, hmantissa, zpow_add_one₀ two_ne_zero]
      push_cast
      ring

theorem WholeParts.unpack {n : Nat} (h : WholeParts n m e)
    (hlog : n.log2 ≤ 1022) :
    (nearest false n 1).toModel.unpack =
      .finite .positive m e h.canonical.pos :=
  have := h.most
  h.parts.unpack h.canonical (by omega)

theorem WholeParts.log2_eq {n : Nat} (h : WholeParts n m e) : m.log2 = 52 :=
  (Nat.log2_eq_iff (Nat.ne_of_gt h.canonical.pos)).2 ⟨h.normal, h.canonical.lt⟩

theorem WholeParts.shortened_ne_zero {n : Nat} (h : WholeParts n m e) :
    shortened n ≠ 0 := by
  have hpos := h.canonical.pos
  have hvalue : (0 : ℚ) < shortened n := by
    rw [← h.value]
    positivity
  exact_mod_cast hvalue.ne'

/-- The mantissas of two normal doubles are divided with 53 bits more. -/
theorem divCore_of_log2 {m₁ m₂ : Nat} {e₁ e₂ : Int} (h₁ : m₁.log2 = 52)
    (h₂ : m₂.log2 = 52) (hrange : -1021 ≤ e₁ - e₂) :
    divCore Format.binary64 m₁ e₁ m₂ e₂ =
      (m₁ * 2 ^ 53 / m₂, e₁ - e₂ - 53,
        accuracyOfFraction (m₁ * 2 ^ 53 % m₂) m₂) := by
  have htarget : Format.binary64.targetExponent
      (totalExponent m₁ e₁ - totalExponent m₂ e₂) =
      e₁ - e₂ - 53 := by
    unfold Format.targetExponent totalExponent
    rw [h₁, h₂]
    show max (((52 : Nat) : Int) + 1 + e₁ - (((52 : Nat) : Int) + 1 + e₂) -
      (1 + 52 : Nat))
      (3 - 2 ^ (11 - 1) - ((1 + 52 : Nat) : Int)) = _
    omega
  unfold divCore
  dsimp only
  rw [htarget, show min (e₁ - e₂) (e₁ - e₂ - 53) = e₁ - e₂ - 53 by omega,
    show (e₁ - e₂ - (e₁ - e₂ - 53)).toNat = 53 by omega, Nat.shiftLeft_eq]

theorem WholeParts.zero_div {n : Nat} (h : WholeParts n m e)
    (hlog : n.log2 ≤ 1022) :
    nearest false 0 1 / nearest false n 1 =
      nearest false (shortened 0) den := by
  have hunpack : UnpackedFloat.div Format.binary64
      (nearest false 0 1).toModel.unpack
      (nearest false n 1).toModel.unpack = .zero .positive := by
    rw [h.unpack hlog]
    rfl
  apply Float.toBits_inj.1
  rw [toBits_nearest]
  apply UInt64.toNat_inj.1
  show (UnpackedFloat.pack Format.binary64 (UnpackedFloat.div Format.binary64
    (nearest false 0 1).toModel.unpack
      (nearest false n 1).toModel.unpack)).toNat = _
  rw [hunpack]
  rfl

/-- The quotient of two whole numbers as doubles is the double nearest to the
quotient of what is left of them. -/
theorem nearest_div_nearest {n k : Nat} (hk : k ≠ 0) (hnlog : n.log2 ≤ 1022)
    (hklog : k.log2 ≤ 1022) (hrange : k.log2 ≤ n.log2 + 1020) :
    nearest false n 1 / nearest false k 1 = nearest false (shortened n)
      (shortened k) := by
  obtain ⟨m₂, e₂, h₂⟩ := exists_wholeParts hk hklog
  rcases Nat.eq_zero_or_pos n with rfl | hn
  · exact h₂.zero_div hklog
  obtain ⟨m₁, e₁, h₁⟩ := exists_wholeParts (Nat.ne_of_gt hn) hnlog
  have hleast := h₁.least
  have hmost := h₂.most
  have hpos₂ := h₂.canonical.pos
  have hwide : 2 ^ 52 * m₂ ≤ m₁ * 2 ^ 53 := by
    have hm₁ := h₁.normal
    have hm₂ := h₂.canonical.lt
    omega
  have hbits : 52 ≤ (m₁ * 2 ^ 53 / m₂).log2 :=
    (Nat.le_log2 (Nat.ne_of_gt (Nat.div_pos (by omega) hpos₂))).2
      ((Nat.le_div_iff_mul_le hpos₂).2 hwide)
  have hunpack : UnpackedFloat.div Format.binary64
      (nearest false n 1).toModel.unpack
      (nearest false k 1).toModel.unpack =
      roundWithAccuracy Format.binary64 .positive (m₁ * 2 ^ 53 / m₂)
        (e₁ - e₂ - 53)
        (accuracyOfFraction (m₁ * 2 ^ 53 % m₂) m₂) := by
    rw [h₁.unpack hnlog, h₂.unpack hklog]
    unfold UnpackedFloat.div
    dsimp only
    rw [divCore_of_log2 h₁.log2_eq h₂.log2_eq (by omega)]
    rfl
  apply Float.toBits_inj.1
  rw [toBits_nearest]
  apply UInt64.toNat_inj.1
  show (UnpackedFloat.pack Format.binary64 (UnpackedFloat.div Format.binary64
    (nearest false n 1).toModel.unpack
      (nearest false k 1).toModel.unpack)).toNat = _
  rw [hunpack,
    toNat_pack_of_value .positive hpos₂ (by omega) h₁.shortened_ne_zero
      h₂.shortened_ne_zero]
  · exact Nat.zero_add _
  · rw [← h₁.value, ← h₂.value, show e₁ - e₂ - 53 = e₁ - (e₂ + (53 : Nat)) by
      omega, zpow_sub₀ two_ne_zero, zpow_add₀ two_ne_zero, zpow_natCast,
        Nat.cast_mul, Nat.cast_pow,
      Nat.cast_two]
    field_simp
  · unfold targetOf
    omega

theorem hasParts_powerOfTen_zero :
    HasParts (Json.powerOfTen 0) .positive (2 ^ 52) (-52) := by
  unfold HasParts Json.powerOfTen
  rw [toBits_nearest]
  rfl

theorem WholeParts.mul_powerOfTen_zero {n : Nat} (h : WholeParts n m e)
    (hlog : n.log2 ≤ 1022) :
    nearest false n 1 * Json.powerOfTen 0 = nearest false n 1 := by
  have hone : Canonical (2 ^ 52) (-52) :=
    ⟨by decide, by decide, by decide, Or.inl le_rfl⟩
  have hleast := h.least
  have hmost := h.most
  have htarget : targetOf (m * 2 ^ 52) (e + -52) = e := by
    unfold targetOf
    rw [log2_mul_two_pow (Nat.ne_of_gt h.canonical.pos), h.log2_eq]
    omega
  have hshift : (e - (e + -52)).toNat = 52 := by omega
  have hunpack : UnpackedFloat.mul Format.binary64
      (nearest false n 1).toModel.unpack
      (Json.powerOfTen 0).toModel.unpack =
      roundWithAccuracy Format.binary64 .positive (m * 2 ^ 52)
        (e + -52) .exact := by
    rw [h.unpack hlog, hasParts_powerOfTen_zero.unpack hone (by decide)]
    rfl
  have hround : roundHalfEven (m * 2 ^ 52)
      (1 * 2 ^ (targetOf (m * 2 ^ 52 / 1) (e + -52) - (e + -52)).toNat) =
        m := by
    rw [Nat.div_one, htarget, hshift, Nat.one_mul,
      roundHalfEven_mul _ (by decide)]
  have hexponent : e + -52 +
      (targetOf (m * 2 ^ 52 / 1) (e + -52) - (e + -52)).toNat = e := by
    rw [Nat.div_one, htarget, hshift]
    omega
  have hpack := toNat_pack_round .positive Nat.one_pos hround hexponent
    h.canonical.lt.le
    h.canonical.least h.canonical.normal
  rw [Nat.div_one, Nat.mod_one] at hpack
  apply Float.toBits_inj.1
  apply UInt64.toNat_inj.1
  show (UnpackedFloat.pack Format.binary64 (UnpackedFloat.mul Format.binary64
    (nearest false n 1).toModel.unpack
      (Json.powerOfTen 0).toModel.unpack)).toNat = _
  rw [hunpack]
  refine hpack.trans ?_
  rw [Nat.min_eq_left (bitsOf_lt h.canonical (by omega)).le]
  exact h.parts.symm

theorem isInf_of_hasParts {x : Float} (h : Canonical m e) (hmax : e ≤ 971)
    (hx : HasParts x s m e) : x.isInf = false := by
  show x.toModel.unpack.isInf = false
  rw [hx.unpack h hmax]
  rfl

/-- What does not become the greatest word is not infinite. -/
theorem isInf_nearest_eq_false {num den : Nat}
    (h : (toWord (nearest false num den)).toNat < wordLimit - 1) :
    (nearest false num den).isInf = false := by
  have hbits := toBits_nearest num den
  have hle := nearestBits_le num den
  revert h hbits
  generalize nearest false num den = x
  intro h hbits
  rcases Nat.eq_zero_or_pos (nearestBits num den).toNat with hzero | hpos
  · obtain rfl : x = Float.ofBits 0 :=
      Float.toBits_inj.1 (hbits.trans (UInt64.toNat_inj.1 hzero))
    rfl
  rcases Nat.lt_or_eq_of_le hle with hfinite | hinfinite
  · obtain ⟨m, e, hcanonical, hmax, hm⟩ := exists_bitsOf hpos hfinite
    refine isInf_of_hasParts (s := .positive) hcanonical hmax ?_
    unfold HasParts
    rw [hbits, hm]
    exact (Nat.zero_add _).symm
  · obtain rfl : x = Float.ofBits 0x7ff0000000000000 :=
      Float.toBits_inj.1 (hbits.trans (UInt64.toNat_inj.1 hinfinite))
    rw [toWord_infinity] at h
    exact absurd h (by decide)

/-- A word of which all digits were gathered is the nearest double. -/
theorem scaleFloat_toFloat (n : UInt64) :
    Json.scaleFloat n.toFloat 0 4 = some (nearest false n.toNat 1) := by
  by_cases hzero : n = 0
  · subst hzero
    rfl
  have hn : n.toNat ≠ 0 := fun h => hzero (UInt64.toNat_inj.1 h)
  have hlog : n.toNat.log2 < 64 := (Nat.log2_lt hn).2 n.toNat_lt
  obtain ⟨m, e, hparts⟩ := exists_wholeParts hn (by omega)
  unfold Json.scaleFloat
  rw [if_pos (by decide), if_pos le_rfl, toFloat_eq_nearest]
  dsimp only
  rw [show (0 : Int).natAbs = 0 from rfl, hparts.mul_powerOfTen_zero (by omega),
    isInf_of_hasParts hparts.canonical
      (by have := hparts.most; omega) hparts.parts]
  rfl

theorem log2_power_ten_le (k : Nat) : (Nat.pow 10 k).log2 ≤ 4 * k := by
  have hlt : Nat.pow 10 k < 2 ^ (4 * k + 1) := by
    calc 10 ^ k ≤ (2 ^ 4) ^ k := Nat.pow_le_pow_left (by decide) k
      _ = 2 ^ (4 * k) := (Nat.pow_mul 2 4 k).symm
      _ < 2 ^ (4 * k + 1) :=
        Nat.pow_lt_pow_right (by decide) (Nat.lt_succ_self _)
  exact Nat.le_of_lt_succ ((Nat.log2_lt (Nat.pow_pos (by decide)).ne').2 hlt)

theorem scaleFloat_toFloat_neg (n : UInt64) {k : Nat} (hpos : 0 < k)
    (hle : k ≤ 250) :
    Json.scaleFloat n.toFloat (-(k : Int)) 4 =
      some (nearest false (shortened n.toNat) (shortened (Nat.pow 10 k))) := by
  have hlog := log2_power_ten_le k
  have hnlog : n.toNat.log2 ≤ 1022 := by
    rcases Nat.eq_zero_or_pos n.toNat with hzero | hn
    · rw [hzero]
      decide
    · have hlt : n.toNat.log2 < 64 :=
        (Nat.log2_lt (Nat.ne_of_gt hn)).2 n.toNat_lt
      omega
  unfold Json.scaleFloat
  rw [if_pos (by omega), if_neg (by omega), show (-(k : Int)).natAbs = k by
    omega, toFloat_eq_nearest]
  have hten : Nat.pow 10 k ≠ 0 := (Nat.pow_pos (by decide)).ne'
  exact congrArg some (nearest_div_nearest hten hnlog (by omega) (by omega))

def IsPositive : UnpackedFloat → Prop
  | .notANumber => True
  | .infinity s => s = .positive
  | .zero s => s = .positive
  | .finite s _ _ _ => s = .positive

/-- The double is not negative, and no negative zero. -/
def NotNegative (x : Float) : Prop :=
  x.toBits.toNat < 2 ^ 63

theorem toNat_pack_lt {u : UnpackedFloat} (h : IsPositive u) :
    (UnpackedFloat.pack Format.binary64 u).toNat < 2 ^ 63 := by
  cases u with
  | notANumber => decide
  | infinity s =>
      obtain rfl : s = .positive := h
      decide
  | zero s =>
      obtain rfl : s = .positive := h
      decide
  | finite s m e hpos =>
      obtain rfl : s = .positive := h
      have hcomponents : ∀ (e : BitVec 11) (m : BitVec 52),
          (packComponents Format.binary64 .positive e m).toNat < 2 ^ 63 := by
        intro e m
        have he := e.isLt
        have hm := m.isLt
        rw [toNat_packComponents,
          show Sign.positive.toBitVec.toNat = 0 from rfl]
        omega
      rw [pack_finite]
      split
      · decide
      · split <;> exact hcomponents _ _

theorem two_pow_le_toNat_pack {u : UnpackedFloat} (h : IsPositive u)
    (hne : u ≠ .notANumber) :
    2 ^ 63 ≤ (UnpackedFloat.pack Format.binary64 u.neg).toNat := by
  cases u with
  | notANumber => exact absurd rfl hne
  | infinity s =>
      obtain rfl : s = .positive := h
      decide
  | zero s =>
      obtain rfl : s = .positive := h
      decide
  | finite s m e hpos =>
      obtain rfl : s = .positive := h
      have hcomponents : ∀ (e : BitVec 11) (m : BitVec 52),
          2 ^ 63 ≤ (packComponents Format.binary64 .negative e m).toNat := by
        intro e m
        rw [toNat_packComponents,
          show Sign.negative.toBitVec.toNat = 1 from rfl]
        omega
      show 2 ^ 63 ≤
        (UnpackedFloat.pack Format.binary64 (.finite .negative m e hpos)).toNat
      rw [pack_finite]
      split
      · decide
      · split <;> exact hcomponents _ _

theorem isPositive_unpack {x : Float} (h : NotNegative x) :
    IsPositive x.toModel.unpack := by
  have hsign : Sign.ofBitVec (@unpackSign Format.binary64 x.toBits.toBitVec) =
      .positive :=
    ofBitVec_unpackSign .positive h (Nat.zero_add _).symm
  show IsPositive (UnpackedFloat.unpack Format.binary64 x.toBits.toBitVec)
  unfold UnpackedFloat.unpack
  dsimp only
  split
  · split
    · exact hsign
    · trivial
  · split
    · split <;> exact hsign
    · exact hsign

theorem notNegative_pack {u : UnpackedFloat} (h : IsPositive u) :
    NotNegative (.ofModel (Float.Model.pack u)) :=
  toNat_pack_lt h

theorem isPositive_round (m : Nat) (e : Int) (a : Accuracy) :
    IsPositive (roundWithAccuracy Format.binary64 .positive m e a) := by
  unfold roundWithAccuracy
  dsimp only
  split <;> rfl

theorem IsPositive.mul {u v : UnpackedFloat} (hu : IsPositive u)
    (hv : IsPositive v) :
    IsPositive (UnpackedFloat.mul Format.binary64 u v) := by
  cases u <;> cases v <;> try trivial
  all_goals
    simp only [IsPositive] at hu hv
    subst hu hv
  all_goals first
    | rfl
    | exact isPositive_round _ _ _

theorem IsPositive.div {u v : UnpackedFloat} (hu : IsPositive u)
    (hv : IsPositive v) :
    IsPositive (UnpackedFloat.div Format.binary64 u v) := by
  cases u <;> cases v <;> try trivial
  all_goals
    simp only [IsPositive] at hu hv
    subst hu hv
  all_goals first
    | rfl
    | exact isPositive_round _ _ _

theorem NotNegative.mul {x y : Float} (hx : NotNegative x)
    (hy : NotNegative y) : NotNegative (x * y) :=
  notNegative_pack ((isPositive_unpack hx).mul (isPositive_unpack hy))

theorem NotNegative.div {x y : Float} (hx : NotNegative x)
    (hy : NotNegative y) : NotNegative (x / y) :=
  notNegative_pack ((isPositive_unpack hx).div (isPositive_unpack hy))

theorem NotNegative.toWord_neg {x : Float} (h : NotNegative x) :
    toWord (-x) = 0 := by
  have hpositive := isPositive_unpack h
  have hbits : (-x).toBits =
      UInt64.ofBitVec
        (UnpackedFloat.pack Format.binary64 x.toModel.unpack.neg) := rfl
  cases hnumber : x.toModel.unpack with
  | notANumber =>
      rw [hnumber] at hbits
      unfold toWord
      rw [hbits]
      rfl
  | _ =>
      refine toWord_of_negative (two_pow_le_toNat_pack hpositive ?_)
      rw [hnumber]
      exact UnpackedFloat.noConfusion

theorem notNegative_nearest (num den : Nat) :
    NotNegative (nearest false num den) := by
  have hle := nearestBits_le num den
  unfold NotNegative
  rw [toBits_nearest]
  unfold infinityBits at hle
  omega

theorem NotNegative.scaleFloat {x y : Float} {e : Int} {parts : Nat}
    (hx : NotNegative x) (h : Json.scaleFloat x e parts = some y) :
    NotNegative y := by
  induction parts generalizing x e with
  | zero =>
      cases h
      exact hx
  | succ parts ih =>
      unfold Json.scaleFloat at h
      split at h
      · split at h
        · dsimp only at h
          split at h
          · cases h
          · cases h
            exact hx.mul (notNegative_nearest _ 1)
        · cases h
          exact hx.div (notNegative_nearest _ 1)
      · split at h
        · cases h
          exact hx
        · split at h
          · cases h
          · exact ih (hx.div (notNegative_nearest _ 1)) h

end FileDigest.Decimal
