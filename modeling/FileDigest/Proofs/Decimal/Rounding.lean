import FileDigest.Decimal.Nearest
import FileDigest.Proofs.Decimal.Doubles

/-!
# Doubles nearest to fractions

The exponent for a fraction is such that its quotient has 53 bits, or else the
least one (`scaleOf_spec`), and there is no other such exponent
(`scaleOf_eq_of_bounds`). So the double nearest to it has the mantissa
`mantissaOf` with this exponent, and the word nearest to the double is told by
both (`toWord_nearest`). A whole number loses all but 53 of its bits
(`shortened`, `mantissaOf_one_mul`).
-/

namespace FileDigest.Decimal

/-- A number divided by a power of two: what is divided, and what it is divided
by. -/
def up (num : Nat) (e : Int) : Nat := num * 2 ^ (-e).toNat

def down (den : Nat) (e : Int) : Nat := den * 2 ^ e.toNat

variable {num den : Nat} {e : Int}

theorem le_roundHalfEven {q : Nat} (h : q * den ≤ num) (hden : 0 < den) :
    q ≤ roundHalfEven num den := by
  have hq : q ≤ num / den := (Nat.le_div_iff_mul_le hden).2 h
  unfold roundHalfEven
  dsimp only
  split
  · exact hq
  · split
    · omega
    · split <;> omega

theorem roundHalfEven_le {q : Nat} (h : num ≤ q * den) (hden : 0 < den) :
    roundHalfEven num den ≤ q := by
  have hdiv : num / den ≤ q := Nat.div_le_of_le_mul (by rwa [Nat.mul_comm])
  rcases Nat.lt_or_eq_of_le hdiv with hlt | heq
  · unfold roundHalfEven
    dsimp only
    split
    · exact hdiv
    · split
      · omega
      · split <;> omega
  · have hmod : num % den = 0 := by
      have := Nat.div_add_mod num den
      rw [heq, Nat.mul_comm] at this
      omega
    unfold roundHalfEven
    dsimp only
    rw [if_pos (by omega), heq]

theorem roundHalfEven_mul_right (num den : Nat) {k : Nat} (hk : 0 < k) :
    roundHalfEven (num * k) (den * k) = roundHalfEven num den := by
  have hmul : 2 * (num % den * k) = 2 * (num % den) * k :=
    (Nat.mul_assoc ..).symm
  unfold roundHalfEven
  dsimp only
  rw [Nat.mul_div_mul_right _ _ hk, Nat.mul_mod_mul_right, hmul]
  simp only [Nat.mul_lt_mul_right hk]

theorem roundHalfEven_congr {a b c d : Nat} (hb : 0 < b) (hd : 0 < d)
    (h : (a : ℚ) / b = c / d) : roundHalfEven a b = roundHalfEven c d := by
  have hcross : a * d = c * b := by
    rw [div_eq_div_iff (by positivity) (by positivity)] at h
    exact_mod_cast h
  rw [← roundHalfEven_mul_right a b hd, ← roundHalfEven_mul_right c d hb,
    hcross, Nat.mul_comm b d]

def Fits (num den : Nat) (e : Int) : Prop :=
  up num e < 2 ^ 53 * down den e

theorem fits_log2_sub (hden : den ≠ 0) :
    Fits num den ((num.log2 : Int) - den.log2 - 52) := by
  have hlt := Nat.lt_log2_self (n := num)
  have hle := Nat.log2_self_le hden
  unfold Fits up down
  generalize num.log2 = a at *
  generalize den.log2 = b at *
  calc num * 2 ^ (-((a : Int) - b - 52)).toNat
      < 2 ^ (a + 1) * 2 ^ (-((a : Int) - b - 52)).toNat :=
        Nat.mul_lt_mul_of_pos_right hlt (Nat.two_pow_pos _)
    _ = 2 ^ 53 * (2 ^ b * 2 ^ ((a : Int) - b - 52).toNat) := by
        rw [← Nat.pow_add, ← Nat.pow_add, ← Nat.pow_add]
        congr 1
        omega
    _ ≤ 2 ^ 53 * (den * 2 ^ ((a : Int) - b - 52).toNat) :=
        Nat.mul_le_mul_left _ (Nat.mul_le_mul_right _ hle)

theorem mul_down_le_up_log2 (hnum : num ≠ 0) :
    2 ^ 52 * down den ((num.log2 : Int) - den.log2 - 53) ≤
      up num ((num.log2 : Int) - den.log2 - 53) := by
  have hle := Nat.log2_self_le hnum
  have hlt := Nat.lt_log2_self (n := den)
  unfold up down
  generalize num.log2 = a at *
  generalize den.log2 = b at *
  calc 2 ^ 52 * (den * 2 ^ ((a : Int) - b - 53).toNat)
      ≤ 2 ^ 52 * (2 ^ (b + 1) * 2 ^ ((a : Int) - b - 53).toNat) :=
        Nat.mul_le_mul_left _ (Nat.mul_le_mul_right _ hlt.le)
    _ = 2 ^ a * 2 ^ (-((a : Int) - b - 53)).toNat := by
        rw [← Nat.pow_add, ← Nat.pow_add, ← Nat.pow_add]
        congr 1
        omega
    _ ≤ num * 2 ^ (-((a : Int) - b - 53)).toNat := Nat.mul_le_mul_right _ hle

/-- What does not fit has 53 bits with the next exponent. -/
theorem mul_down_le_up_add_one (h : ¬Fits num den e) :
    2 ^ 52 * down den (e + 1) ≤ up num (e + 1) := by
  unfold Fits up down at h
  unfold up down
  rcases Int.lt_or_le e 0 with hneg | hpos
  · obtain ⟨k, rfl⟩ : ∃ k : Nat, e = -((k : Int) + 1) :=
      ⟨(-e - 1).toNat, by omega⟩
    rw [show (-(-((k : Int) + 1))).toNat = k + 1 by omega,
      show (-((k : Int) + 1)).toNat = 0 by omega] at h
    rw [show (-(-((k : Int) + 1) + 1)).toNat = k by omega,
      show (-((k : Int) + 1) + 1).toNat = 0 by omega]
    have hdouble : num * 2 ^ (k + 1) = 2 * (num * 2 ^ k) := by ring
    omega
  · rw [show (-e).toNat = 0 by omega] at h
    rw [show (-(e + 1)).toNat = 0 by omega, show (e + 1).toNat = e.toNat + 1 by
      omega]
    have hdouble : den * 2 ^ (e.toNat + 1) = 2 * (den * 2 ^ e.toNat) := by ring
    omega

theorem Fits.mono (h : Fits num den e) {e' : Int} (hle : e ≤ e') :
    Fits num den e' := by
  unfold Fits up down at *
  calc num * 2 ^ (-e').toNat ≤ num * 2 ^ (-e).toNat :=
        Nat.mul_le_mul_left _ (Nat.pow_le_pow_right (by decide) (by omega))
    _ < 2 ^ 53 * (den * 2 ^ e.toNat) := h
    _ ≤ 2 ^ 53 * (den * 2 ^ e'.toNat) := by gcongr <;> omega

theorem fits_iff (num den : Nat) (e : Int) :
    (if 0 ≤ e then decide (num < Nat.pow 2 53 * (den * Nat.pow 2 e.toNat))
      else decide (num * Nat.pow 2 (-e).toNat < Nat.pow 2 53 * den)) = true ↔
      Fits num den e := by
  unfold Fits up down
  split
  · rw [decide_eq_true_iff, show (-e).toNat = 0 by omega,
      Nat.pow_zero, Nat.mul_one]
    rfl
  · rw [decide_eq_true_iff, show e.toNat = 0 by omega,
      Nat.pow_zero, Nat.mul_one]
    rfl

/-- With the exponent for a fraction, its quotient has 53 bits, or the exponent
is the least. -/
theorem scaleOf_spec (hnum : num ≠ 0) (hden : den ≠ 0) :
    Fits num den (scaleOf num den) ∧ -1074 ≤ scaleOf num den ∧
      (2 ^ 52 * down den (scaleOf num den) ≤ up num (scaleOf num den) ∨
        scaleOf num den = -1074) := by
  obtain ⟨e, hscale, hfits, hnormal⟩ : ∃ e, scaleOf num den = max e (-1074) ∧
    Fits num den e ∧
      2 ^ 52 * down den e ≤ up num e := by
    have hnext : Fits num den ((num.log2 : Int) - den.log2 - 52) :=
      fits_log2_sub hden
    rw [show (num.log2 : Int) - den.log2 - 52 = (num.log2 : Int) - den.log2 -
      53 + 1 by omega] at hnext
    unfold scaleOf
    dsimp only
    by_cases hguess : Fits num den ((num.log2 : Int) - den.log2 - 53)
    · rw [if_pos ((fits_iff num den _).2 hguess)]
      exact ⟨_, rfl, hguess, mul_down_le_up_log2 hnum⟩
    · rw [if_neg fun h => hguess ((fits_iff num den _).1 h),
      if_pos ((fits_iff num den _).2 hnext)]
      exact ⟨_, rfl, hnext, mul_down_le_up_add_one hguess⟩
  rw [hscale]
  refine ⟨hfits.mono (le_max_left _ _), le_max_right _ _, ?_⟩
  rcases Int.le_total e (-1074) with hle | hle
  · exact Or.inr (max_eq_right hle)
  · rw [max_eq_left hle]
    exact Or.inl hnormal

def mantissaOf (num den : Nat) : Nat :=
  roundHalfEven (up num (scaleOf num den)) (down den (scaleOf num den))

theorem down_pos (hden : den ≠ 0) (e : Int) : 0 < down den e :=
  Nat.mul_pos (Nat.pos_of_ne_zero hden) (Nat.two_pow_pos _)

theorem up_div_down (num den : Nat) (e : Int) : (up num e : ℚ) / down den e =
    num / den / 2 ^ e := by
  have hpow : (2 : ℚ) ^ e = 2 ^ e.toNat / 2 ^ (-e).toNat := by
    rw [← zpow_natCast, ← zpow_natCast, ← zpow_sub₀ two_ne_zero]
    congr 1
    omega
  unfold up down
  push_cast
  rw [hpow]
  field_simp

theorem fits_iff_lt (hden : den ≠ 0) : Fits num den e ↔
    (num : ℚ) / den < 2 ^ 53 * 2 ^ e := by
  have hdown : (0 : ℚ) < down den e := by exact_mod_cast down_pos hden e
  rw [← div_lt_iff₀ (by positivity), ← up_div_down, div_lt_iff₀ hdown]
  unfold Fits
  norm_cast

theorem normal_iff_le (hden : den ≠ 0) :
    2 ^ 52 * down den e ≤ up num e ↔ 2 ^ 52 * 2 ^ e ≤ (num : ℚ) / den := by
  have hdown : (0 : ℚ) < down den e := by exact_mod_cast down_pos hden e
  rw [← le_div_iff₀ (by positivity), ← up_div_down, le_div_iff₀ hdown]
  norm_cast

theorem le_of_normal_of_fits {x : ℚ} {e e' : Int} (h : 2 ^ 52 * 2 ^ e ≤ x)
    (h' : x < 2 ^ 53 * 2 ^ e') : e ≤ e' := by
  have hlt : (2 : ℚ) ^ (52 + e) < 2 ^ (53 + e') := by
    rw [zpow_add₀ two_ne_zero, zpow_add₀ two_ne_zero]
    exact h.trans_lt h'
  have := (zpow_lt_zpow_iff_right₀ (by norm_num)).1 hlt
  omega

/-- The exponent for a fraction is the only one with which its quotient has 53
bits, or fewer if the exponent is the least. -/
theorem scaleOf_eq_of_bounds (hnum : num ≠ 0) (hden : den ≠ 0)
    (hleast : -1074 ≤ e) (hfits : (num : ℚ) / den < 2 ^ 53 * 2 ^ e)
    (hnormal : 2 ^ 52 * 2 ^ e ≤ (num : ℚ) / den ∨ e = -1074) :
    scaleOf num den = e := by
  obtain ⟨hfits', hleast', hnormal'⟩ := scaleOf_spec hnum hden
  rw [fits_iff_lt hden] at hfits'
  rw [normal_iff_le hden] at hnormal'
  apply le_antisymm
  · rcases hnormal' with h | h
    · exact le_of_normal_of_fits h hfits
    · omega
  · rcases hnormal with h | h
    · exact le_of_normal_of_fits h hfits'
    · omega

theorem mantissaOf_le (hnum : num ≠ 0) (hden : den ≠ 0) :
    mantissaOf num den ≤ 2 ^ 53 :=
  roundHalfEven_le (scaleOf_spec hnum hden).1.le (down_pos hden _)

theorem mantissaOf_normal (hnum : num ≠ 0) (hden : den ≠ 0) :
    2 ^ 52 ≤ mantissaOf num den ∨ scaleOf num den = -1074 :=
  (scaleOf_spec hnum hden).2.2.imp_left fun h =>
    le_roundHalfEven h (down_pos hden _)

theorem nearestBits_eq (hnum : num ≠ 0) :
    nearestBits num den =
      UInt64.ofNat
        (min (bitsOf (mantissaOf num den) (scaleOf num den)) infinityBits) := by
  have hmantissa : mantissaOf num den =
      if 0 ≤ scaleOf num den
      then roundHalfEven num (den * Nat.pow 2 (scaleOf num den).toNat)
      else roundHalfEven (num * Nat.pow 2 (-scaleOf num den).toNat) den := by
    unfold mantissaOf up down
    split
    · rw [show (-scaleOf num den).toNat = 0 by omega, Nat.pow_zero, Nat.mul_one]
      rfl
    · rw [show (scaleOf num den).toNat = 0 by omega, Nat.pow_zero, Nat.mul_one]
      rfl
  unfold nearestBits
  dsimp only
  rw [if_neg hnum, ← hmantissa]
  show (if infinityBits ≤ bitsOf _ _ then UInt64.ofNat infinityBits
    else UInt64.ofNat (bitsOf _ _)) = _
  split
  · rename_i h
    rw [Nat.min_eq_right h]
  · rename_i h
    rw [Nat.min_eq_left (Nat.le_of_not_le h)]

theorem toWord_nearest (hnum : num ≠ 0) (hden : den ≠ 0) :
    toWord (nearest false num den) =
      UInt64.ofNat (min (roundHalfUp (mantissaOf num den) (scaleOf num den))
        (wordLimit - 1)) := by
  unfold nearest
  rw [nearestBits_eq hnum]
  exact toWord_ofBits (mantissaOf_le hnum hden) (scaleOf_spec hnum hden).2.1
    (mantissaOf_normal hnum hden)

/-- The exponent for a whole number leaves 53 of its bits. -/
theorem scaleOf_one {n : Nat} (hn : n ≠ 0) :
    scaleOf n 1 = (n.log2 : Int) - 52 := by
  obtain ⟨hfits, hleast, hnormal⟩ := scaleOf_spec hn Nat.one_ne_zero
  have hle := Nat.log2_self_le hn
  have hlt := Nat.lt_log2_self (n := n)
  unfold Fits up down at hfits
  unfold up down at hnormal
  generalize scaleOf n 1 = e at *
  generalize n.log2 = a at *
  rw [Nat.one_mul] at hfits hnormal
  have habove : a + (-e).toNat < 53 + e.toNat := by
    apply (Nat.pow_lt_pow_iff_right (show 1 < 2 by decide)).1
    rw [Nat.pow_add, Nat.pow_add]
    exact (Nat.mul_le_mul_right _ hle).trans_lt hfits
  have hbelow : 52 + e.toNat < a + 1 + (-e).toNat := by
    apply (Nat.pow_lt_pow_iff_right (show 1 < 2 by decide)).1
    rw [Nat.pow_add, Nat.pow_add]
    exact (hnormal.resolve_right (by omega)).trans_lt
      (Nat.mul_lt_mul_of_pos_right hlt (Nat.two_pow_pos _))
  omega

/-- A whole number with all but the first 53 of its bits rounded off. -/
def shortened (n : Nat) : Nat :=
  roundHalfEven n (2 ^ (n.log2 - 52)) * 2 ^ (n.log2 - 52)

theorem roundHalfEven_mul (q : Nat) {d : Nat} (hd : 0 < d) :
    roundHalfEven (q * d) d = q :=
  Nat.le_antisymm (roundHalfEven_le le_rfl hd) (le_roundHalfEven le_rfl hd)

theorem roundHalfEven_one (n : Nat) : roundHalfEven n 1 = n := by
  simpa only [Nat.mul_one] using roundHalfEven_mul n Nat.one_pos

theorem shortened_of_dvd {n : Nat} (h : 2 ^ (n.log2 - 52) ∣ n) :
    shortened n = n := by
  unfold shortened
  generalize 2 ^ (n.log2 - 52) = d at h
  obtain ⟨q, rfl⟩ := h
  rcases Nat.eq_zero_or_pos d with rfl | hd
  · simp
  · rw [Nat.mul_comm d q, roundHalfEven_mul q hd]

/-- Only the bits in front of trailing zeros count for what is rounded off. -/
theorem shortened_mul_two_pow {n : Nat} (h : n < 2 ^ 53) (k : Nat) :
    shortened (n * 2 ^ k) = n * 2 ^ k := by
  apply shortened_of_dvd
  rcases Nat.eq_zero_or_pos n with rfl | hpos
  · rw [Nat.zero_mul]
    exact Nat.dvd_zero _
  · have hlog : (n * 2 ^ k).log2 < 53 + k := by
      rw [Nat.log2_lt (Nat.ne_of_gt (Nat.mul_pos hpos (Nat.two_pow_pos k))),
        Nat.pow_add]
      exact Nat.mul_lt_mul_of_pos_right h (Nat.two_pow_pos k)
    exact (Nat.pow_dvd_pow 2 (by omega)).trans (Nat.dvd_mul_left _ _)

theorem shortened_of_lt {n : Nat} (h : n < 2 ^ 53) : shortened n = n := by
  simpa only [Nat.pow_zero, Nat.mul_one] using shortened_mul_two_pow h 0

/-- The powers of ten that are exact as doubles. -/
theorem shortened_power_ten {k : Nat} (h : k ≤ 22) : shortened (Nat.pow 10 k) =
    Nat.pow 10 k := by
  have hfive : 5 ^ k < 2 ^ 53 :=
    (Nat.pow_le_pow_right (by decide) h).trans_lt (by decide)
  have hten : Nat.pow 10 k = 5 ^ k * 2 ^ k := Nat.mul_pow 5 2 k
  rw [hten]
  exact shortened_mul_two_pow hfive k

theorem dvd_shortened (n : Nat) : 2 ^ (n.log2 - 52) ∣ shortened n :=
  Nat.dvd_mul_left _ _

/-- The exponent leaves of a whole number what is left when it is shortened. -/
theorem mantissaOf_one_mul {n : Nat} (hn : n ≠ 0) :
    (mantissaOf n 1 : ℚ) * 2 ^ scaleOf n 1 = shortened n := by
  unfold mantissaOf shortened up down
  rw [scaleOf_one hn, Nat.one_mul]
  rcases Nat.lt_or_ge n.log2 52 with hsmall | hlarge
  · rw [show n.log2 - 52 = 0 by omega, show ((n.log2 : Int) - 52).toNat = 0 by
      omega, Nat.pow_zero, show (n.log2 : Int) - 52 =
        -((52 - n.log2 : Nat) : Int) by omega,
      show (- -((52 - n.log2 : Nat) : Int)).toNat = 52 - n.log2 by omega,
        roundHalfEven_one,
      roundHalfEven_one, zpow_neg, zpow_natCast, Nat.mul_one]
    push_cast
    field_simp
  · rw [show ((n.log2 : Int) - 52).toNat = n.log2 - 52 by omega,
      show (-((n.log2 : Int) - 52)).toNat = 0 by omega,
      show (n.log2 : Int) - 52 = ((n.log2 - 52 : Nat) : Int) by omega,
      Nat.pow_zero, Nat.mul_one, zpow_natCast]
    push_cast
    rfl

theorem two_pow_log2_le_shortened {n : Nat} (h : 52 ≤ n.log2) :
    2 ^ n.log2 ≤ shortened n := by
  have hn : n ≠ 0 := by
    rintro rfl
    exact absurd h (by decide)
  have hpow : 2 ^ 52 * 2 ^ (n.log2 - 52) = 2 ^ n.log2 := by
    rw [← Nat.pow_add, Nat.add_sub_cancel' h]
  calc 2 ^ n.log2 = 2 ^ 52 * 2 ^ (n.log2 - 52) := hpow.symm
    _ ≤ shortened n :=
        Nat.mul_le_mul_right _ (le_roundHalfEven (hpow ▸ Nat.log2_self_le hn)
          (Nat.two_pow_pos _))

theorem wordLimit_le_shortened {n : Nat} (h : wordLimit ≤ n) :
    wordLimit ≤ shortened n := by
  have hn : n ≠ 0 := by
    rintro rfl
    exact absurd h (by decide)
  have hlog : 64 ≤ n.log2 := (Nat.le_log2 hn).2 h
  exact (Nat.pow_le_pow_right (by decide) hlog).trans
    (two_pow_log2_le_shortened (by omega))

/-- A word beyond those with a sign is exact as a double if it is a multiple of
2048, and the greatest word is what is too large for a word. -/
theorem min_shortened_eq_iff {n : Nat} (h : signedLimit ≤ n)
    (hlt : n < wordLimit) :
    min (shortened n) (wordLimit - 1) = n ↔ 2048 ∣ n ∨ n = wordLimit - 1 := by
  have hn : n ≠ 0 := by
    rintro rfl
    exact absurd h (by decide)
  have hlog : n.log2 = 63 := (Nat.log2_eq_iff hn).2 ⟨h, hlt⟩
  have hdvd := dvd_shortened n
  have hself := shortened_of_dvd (n := n)
  rw [hlog] at hdvd hself
  constructor
  · intro hmin
    rcases Nat.le_total (shortened n) (wordLimit - 1) with hle | hle
    · rw [Nat.min_eq_left hle] at hmin
      exact Or.inl (hmin ▸ hdvd)
    · rw [Nat.min_eq_right hle] at hmin
      exact Or.inr hmin.symm
  · rintro (hmul | rfl)
    · rw [hself hmul]
      omega
    · rfl

theorem roundHalfUp_neg (m k : Nat) :
    roundHalfUp (m * 2 ^ k) (-(k : Int)) = m := by
  induction k with
  | zero =>
      exact (congrArg (roundHalfUp · 0) (Nat.mul_one m)).trans
        (roundHalfUp_zero m)
  | succ k ih =>
      rw [show m * 2 ^ (k + 1) = 2 * (m * 2 ^ k) by ring, roundHalfUp_two_mul,
        show -((k + 1 : Nat) : Int) + 1 = -(k : Int) by omega, ih]

theorem toWord_nearest_one (n : Nat) :
    toWord (nearest false n 1) =
      UInt64.ofNat (min (shortened n) (wordLimit - 1)) := by
  rcases Nat.eq_zero_or_pos n with rfl | hpos
  · exact toWord_zero
  have hn := Nat.ne_of_gt hpos
  rw [toWord_nearest hn Nat.one_ne_zero]
  congr 2
  unfold mantissaOf shortened up down
  rw [scaleOf_one hn, Nat.one_mul]
  rcases Nat.lt_or_ge n.log2 52 with hsmall | hlarge
  · rw [show n.log2 - 52 = 0 by omega, show ((n.log2 : Int) - 52).toNat = 0 by
      omega, Nat.pow_zero, show (n.log2 : Int) - 52 =
        -((52 - n.log2 : Nat) : Int) by omega,
      show (- -((52 - n.log2 : Nat) : Int)).toNat = 52 - n.log2 by omega,
        roundHalfEven_one,
      roundHalfEven_one, roundHalfUp_neg, Nat.mul_one]
  · rw [roundHalfUp_of_nonneg _ (by omega), show ((n.log2 : Int) - 52).toNat =
      n.log2 - 52 by omega, show (-((n.log2 : Int) - 52)).toNat = 0 by omega,
      Nat.pow_zero, Nat.mul_one]

/-- The nearest whole number lies between any two around the double. -/
theorem roundHalfUp_neg_bounds {m k q c : Nat} (hq : q * 2 ^ k ≤ m)
    (hc : m ≤ c * 2 ^ k) :
    q ≤ roundHalfUp m (-(k : Int)) ∧ roundHalfUp m (-(k : Int)) ≤ c := by
  have hvalue : roundHalfUp m (-(k : Int)) = (2 * m + 2 ^ k) / (2 * 2 ^ k) := by
    unfold roundHalfUp
    rw [show (- -(k : Int)).toNat = k by omega, show (-(k : Int)).toNat = 0 by
      omega]
    show (2 * m * 1 + 2 ^ k) / (2 * 2 ^ k) = _
    rw [Nat.mul_one]
  have hpow := Nat.two_pow_pos k
  rw [hvalue]
  generalize 2 ^ k = d at *
  constructor
  · rw [Nat.le_div_iff_mul_le (by omega)]
    calc q * (2 * d) = 2 * (q * d) := by ring
      _ ≤ 2 * m + d := by omega
  · apply Nat.le_of_lt_succ
    rw [Nat.div_lt_iff_lt_mul (by omega)]
    calc 2 * m + d < 2 * (c * d) + 2 * d := by omega
      _ = (c + 1) * (2 * d) := by ring

/-- A fraction of which the whole part has at most 53 bits becomes this part or
the next whole number. -/
theorem toWord_nearest_bounds {num den : Nat} (hden : den ≠ 0)
    (h : num < 2 ^ 53 * den) {q c : Nat} (hq : q * den ≤ num)
    (hc : num ≤ c * den) (hlt : c < wordLimit) :
    q ≤ (toWord (nearest false num den)).toNat ∧
    (toWord (nearest false num den)).toNat ≤ c := by
  have hpos := Nat.pos_of_ne_zero hden
  rcases Nat.eq_zero_or_pos num with rfl | hnumPos
  · obtain rfl : q = 0 := by
      rcases Nat.eq_zero_or_pos q with hzero | hq'
      · exact hzero
      · exact absurd (Nat.mul_pos hq' hpos) (by omega)
    have hzero : toWord (nearest false 0 den) = 0 := toWord_zero
    rw [hzero]
    exact ⟨Nat.zero_le _, Nat.zero_le _⟩
  have hnum := Nat.ne_of_gt hnumPos
  obtain ⟨-, -, hnormal⟩ := scaleOf_spec hnum hden
  obtain ⟨k, hk⟩ : ∃ k : Nat, scaleOf num den = -(k : Int) := by
    refine ⟨(-scaleOf num den).toNat, ?_⟩
    by_contra hne
    have hup : (-scaleOf num den).toNat = 0 := by omega
    have hdown : 1 ≤ (scaleOf num den).toNat := by omega
    have hle := hnormal.resolve_right (by omega)
    unfold up down at hle
    rw [hup, Nat.pow_zero, Nat.mul_one] at hle
    have htwo : 2 ^ 1 ≤ 2 ^ (scaleOf num den).toNat :=
      Nat.pow_le_pow_right (by decide) hdown
    have hmul := Nat.mul_le_mul_left den htwo
    omega
  have hmantissa : mantissaOf num den = roundHalfEven (num * 2 ^ k) den := by
    unfold mantissaOf up down
    rw [hk, show (- -(k : Int)).toNat = k by omega, show (-(k : Int)).toNat =
      0 by omega, Nat.pow_zero, Nat.mul_one]
  have hscaled : ∀ q, q * den * 2 ^ k = q * 2 ^ k * den := fun q =>
    Nat.mul_right_comm q den (2 ^ k)
  have hbounds := roundHalfUp_neg_bounds (k := k)
    (le_roundHalfEven (q := q * 2 ^ k)
      (hscaled q ▸ Nat.mul_le_mul_right (2 ^ k) hq) hpos)
    (roundHalfEven_le (q := c * 2 ^ k)
      (hscaled c ▸ Nat.mul_le_mul_right (2 ^ k) hc) hpos)
  rw [toWord_nearest hnum hden, hmantissa, hk, Nat.min_eq_left (by omega),
    UInt64.toNat_ofNat_of_lt' (hbounds.2.trans_lt hlt)]
  exact hbounds

theorem nearestBits_le (num den : Nat) : (nearestBits num den).toNat ≤
    infinityBits := by
  rcases Nat.eq_zero_or_pos num with rfl | hpos
  · exact Nat.zero_le _
  · rw [nearestBits_eq (Nat.ne_of_gt hpos)]
    refine (Nat.mod_le _ _).trans (Nat.min_le_right _ _)

theorem toBits_nearest (num den : Nat) : (nearest false num den).toBits =
    nearestBits num den := by
  have hle := nearestBits_le num den
  exact toBits_ofBits ((Nat.mod_le _ _).trans hle)

theorem toWord_nearest_negative (num den : Nat) :
    toWord (nearest true num den) = 0 := by
  have hle := nearestBits_le num den
  have hbits : (nearestBits num den ||| 0x8000000000000000).toNat =
      2 ^ 63 + (nearestBits num den).toNat := by
    unfold infinityBits at hle
    have hor := Nat.two_pow_add_eq_or_of_lt (show (nearestBits num den).toNat <
      2 ^ 63 by omega) 1
    rw [UInt64.toNat_or, Nat.or_comm]
    exact hor.symm
  apply toWord_of_negative
  show 2 ^ 63 ≤
    (Float.ofBits (nearestBits num den ||| 0x8000000000000000)).toBits.toNat
  rw [toBits_ofBits, hbits]
  · omega
  · rw [hbits]
    unfold infinityBits at *
    omega

end FileDigest.Decimal
