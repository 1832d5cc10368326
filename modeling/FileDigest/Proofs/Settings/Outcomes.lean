import FileDigest.Proofs.Decimal.Arithmetic
import FileDigest.Proofs.Json.Numbers
import FileDigest.Proofs.Settings.Numbers
import FileDigest.Proofs.Settings.Written

/-!
# What becomes of a number

On each of three routes, a number that is written is read as an integer or a
double, and then made a word (`Route.outcome?`). Integers of 64 bits with a sign
become themselves, or are refused if they are negative, on all routes alike.
What else there is goes through a double: its last bits are rounded off
(`outcome?_large`), what is negative becomes nothing (`outcome?_negative`), and
what has places becomes one of the whole numbers around it
(`outcome?_fraction`). In JSON this takes two steps, and more is lost of longer
numbers (`outcome?_divided`). So there is an exact condition for a number to be
kept (`keeps_iff_of_nil`, `keeps_iff_of_not_dvd`).
-/

namespace FileDigest

open Decimal

/-- The ways on which a number gets into settings. -/
inductive Route where
  | environment
  | toml
  | json
deriving DecidableEq

def Setting.scalar? : Setting → Option Scalar
  | scalar _ s => some s
  | _ => none

/-- What is read from a text, if anything is and nothing of it is left. -/
def Route.read? : Route → List Char → Option Scalar
  | environment, cs => some (Variable.scalar (String.ofList cs))
  | toml, cs =>
      match Toml.readNumeric cs with
      | some (v, []) => (Setting.ofToml none v).scalar?
      | _ => none
  | json, cs =>
      match Json.readNumber cs with
      | some (v, []) =>
          (Setting.ofJson? none 0 (.number v)).bind Setting.scalar?
      | _ => none

/-- What becomes of a number that is written: nothing if it cannot be read,
otherwise a word or an integer that is refused. -/
def Route.outcome? (route : Route) (n : Written) : Option (Except Int UInt64) :=
  (route.read? n.text).map Scalar.word?

namespace Written

variable (n : Written)

theorem read?_environment :
    Route.environment.read? n.text =
      some (if n.IsSigned then .integer n.int else .float n.double) :=
  congrArg some n.scalar_text

theorem read?_toml :
    Route.toml.read? n.text =
      if n.places = [] then if n.IsSigned then some (.integer n.int) else none
      else if n.double.isInf && !n.negative then none
        else some (.float n.double) := by
  simp only [Route.read?, n.readNumeric_text]
  by_cases hplaces : n.places = []
  · by_cases hsigned : n.IsSigned
    · simp only [if_pos hplaces, if_pos hsigned]
      rfl
    · simp only [if_pos hplaces, if_neg hsigned]
  · by_cases hinfinite : (n.double.isInf && !n.negative) = true
    · simp only [if_neg hplaces, if_pos hinfinite]
    · simp only [if_neg hplaces, if_neg hinfinite]
      rfl

theorem isWhole_numeral : n.numeral.isWhole = true ↔ n.places = [] := by
  simp [Json.Numeral.isWhole, numeral]

theorem int_of_negative {n : Written} (h : n.negative = true) :
    n.int = -(ofDigits n.whole : Int) :=
  if_pos h

theorem int_of_not_negative {n : Written} (h : ¬n.negative = true) :
    n.int = ofDigits n.whole :=
  if_neg h

/-- An integer of 64 bits with a sign, but for a negative zero. -/
def IsNumeral : Prop :=
  n.IsSigned ∧ ¬(n.negative = true ∧ n.int = 0)

instance : Decidable n.IsNumeral :=
  inferInstanceAs (Decidable (_ ∧ _))

theorem isNumeral_iff_of_negative {n : Written} (h : n.negative = true) :
    n.IsNumeral ↔ n.places = [] ∧ 0 < ofDigits n.whole ∧ ofDigits n.whole ≤
      signedLimit := by
  have hlimit : 0 < signedLimit := by decide
  rw [IsNumeral, IsSigned, int_of_negative h, and_assoc]
  refine and_congr_right fun _ => ?_
  simp only [h, true_and]
  omega

theorem isNumeral_iff_of_not_negative {n : Written} (h : ¬n.negative = true) :
    n.IsNumeral ↔ n.places = [] ∧ ofDigits n.whole < signedLimit := by
  have hlimit : 0 < signedLimit := by decide
  rw [IsNumeral, IsSigned, int_of_not_negative h, and_assoc]
  refine and_congr_right fun _ => ?_
  rw [and_iff_left fun hand => h hand.1]
  omega

theorem number?_numeral :
    n.numeral.number? =
      if n.IsNumeral then some (.integer n.int)
        else n.numeral.float?.map .float := by
  have hpositive : (n.numeral.isWhole && !n.numeral.negative &&
      decide (ofDigits n.numeral.whole < signedLimit)) = true ↔
      ¬n.negative = true ∧ n.places = [] ∧ ofDigits n.whole < signedLimit := by
    simp only [Bool.and_eq_true, n.isWhole_numeral, Bool.not_eq_true',
      Bool.not_eq_true, decide_eq_true_eq, and_assoc]
    exact and_left_comm
  have hnegative : (n.numeral.isWhole && n.numeral.negative &&
      decide (0 < ofDigits n.numeral.whole) &&
        decide (ofDigits n.numeral.whole ≤ signedLimit)) = true ↔
      n.negative = true ∧ n.places = [] ∧ 0 < ofDigits n.whole ∧
      ofDigits n.whole ≤ signedLimit := by
    simp only [Bool.and_eq_true, n.isWhole_numeral,
      decide_eq_true_eq, and_assoc]
    exact and_left_comm
  unfold Json.Numeral.number?
  dsimp only
  by_cases h : n.negative = true
  · rw [← isNumeral_iff_of_negative h, and_iff_right h] at hnegative
    rw [if_neg fun hand => (hpositive.1 hand).1 h]
    by_cases hnumeral : n.IsNumeral
    · rw [if_pos hnumeral, if_pos (hnegative.2 hnumeral), int_of_negative h]
      rfl
    · rw [if_neg hnumeral, if_neg (mt hnegative.1 hnumeral)]
  · rw [← isNumeral_iff_of_not_negative h, and_iff_right h] at hpositive
    by_cases hnumeral : n.IsNumeral
    · rw [if_pos hnumeral, if_pos (hpositive.2 hnumeral), int_of_not_negative h]
      rfl
    · rw [if_neg hnumeral, if_neg (mt hpositive.1 hnumeral), if_neg fun hand =>
        h (hnegative.1 hand).1]

theorem read?_json :
    Route.json.read? n.text =
      n.numeral.number?.map fun
        | .integer i => .integer i
        | .float x => .float x := by
  have hread := @readNumber_text n [] (by simp [Json.EndsNumber])
  rw [List.append_nil] at hread
  simp only [Route.read?, hread, Setting.ofJson?]
  cases n.numeral.number? with
  | none => rfl
  | some v => cases v <;> rfl

theorem word?_integer_of_nonneg {i : Int} (h : 0 ≤ i) (hlt : i < wordLimit) :
    Scalar.word? (.integer i) = .ok (UInt64.ofNat i.toNat) :=
  if_pos ⟨h, hlt⟩

theorem word?_integer_of_neg {i : Int} (h : i < 0) :
    Scalar.word? (.integer i) = .error i :=
  if_neg fun hand => by omega

theorem word?_integer_signed {i : Int} (hlt : i < signedLimit) :
    Scalar.word? (.integer i) = if 0 ≤ i then .ok (UInt64.ofNat i.toNat)
      else .error i := by
  have hlimit : signedLimit ≤ wordLimit := by decide
  split
  · exact word?_integer_of_nonneg ‹_› (by omega)
  · exact word?_integer_of_neg (by omega)

theorem num_of_nil {n : Written} (h : n.places = []) :
    n.num = ofDigits n.whole := by
  rw [num, h, List.append_nil]

theorem not_isSigned_of_le {n : Written} (hplaces : n.places = [])
    (hnegative : n.negative = false) (h : signedLimit ≤ n.num) :
    ¬n.IsSigned := by
  rintro ⟨-, -, hsigned⟩
  rw [int_of_not_negative (by simp [hnegative]), ← num_of_nil hplaces]
    at hsigned
  omega

theorem den_of_nil {n : Written} (h : n.places = []) : n.den = 1 := by
  rw [den, h]
  rfl

theorem den_eq_pow : n.den = 10 ^ n.places.length := rfl

theorem den_pos : 0 < n.den :=
  Nat.pow_pos (by decide)

/-- How many digits there are in front of the point, without leading zeros. -/
def magnitude : Int :=
  (Nat.toDigits 10 n.num).length + -(n.places.length : Int)

/-- The double is found by division unless the number is out of every range. -/
theorem double_eq (hsmall : ¬(n.num = 0 ∨ n.magnitude < -330))
    (hlarge : ¬310 < n.magnitude) :
    n.double = nearest n.negative n.num n.den := by
  unfold double nearestPower
  unfold magnitude at hsmall hlarge
  dsimp only
  rw [if_neg hsmall, if_neg hlarge]
  split
  · have hnil : n.places = [] := List.eq_nil_of_length_eq_zero (by omega)
    rw [den_of_nil hnil, hnil]
    exact congrArg (nearest n.negative · 1) (Nat.mul_one _)
  · rw [Int.neg_neg]
    rfl

theorem double_of_small (h : n.num = 0 ∨ n.magnitude < -330) :
    n.double = nearest n.negative 0 1 :=
  if_pos h

theorem double_of_large (hsmall : ¬(n.num = 0 ∨ n.magnitude < -330))
    (hlarge : 310 < n.magnitude) :
    n.double = nearest n.negative (Nat.pow 2 1100) 1 :=
  (if_neg hsmall).trans (if_pos hlarge)

theorem num_lt_den (h : n.num = 0 ∨ n.magnitude < -330) : n.num < n.den := by
  rcases h with h | h
  · rw [h]
    exact n.den_pos
  · unfold magnitude at h
    have hpos := Nat.length_toDigits_pos (b := 10) (n := n.num)
    rw [den_eq_pow]
    exact (Nat.length_toDigits_le_iff (by decide) (by omega)).1 (by omega)

theorem wordLimit_mul_den_le (h : 310 < n.magnitude) :
    wordLimit * n.den ≤ n.num := by
  have hlimit : wordLimit ≤ 10 ^ 310 := by decide +kernel
  have hle : 10 ^ 310 * n.den ≤ n.num := by
    unfold magnitude at h
    rw [den_eq_pow, ← Nat.pow_add]
    exact Nat.le_of_not_lt fun hlt =>
      absurd ((Nat.length_toDigits_le_iff (by decide) (by omega)).2 hlt)
        (by omega)
  exact (Nat.mul_le_mul_right _ hlimit).trans hle

theorem not_lt_magnitude (h : n.num < 2 ^ 53 * n.den) : ¬310 < n.magnitude := by
  intro hlarge
  have hle := n.wordLimit_mul_den_le hlarge
  have hmul : 2 ^ 53 * n.den ≤ wordLimit * n.den :=
    Nat.mul_le_mul_right _ (by decide)
  omega

theorem exists_double_eq : ∃ num den,
    n.double = nearest n.negative num den := by
  by_cases hsmall : n.num = 0 ∨ n.magnitude < -330
  · exact ⟨_, _, n.double_of_small hsmall⟩
  · by_cases hlarge : 310 < n.magnitude
    · exact ⟨_, _, n.double_of_large hsmall hlarge⟩
    · exact ⟨_, _, n.double_eq hsmall hlarge⟩

theorem toWord_double_negative (h : n.negative = true) :
    toWord n.double = 0 := by
  obtain ⟨num, den, hdouble⟩ := n.exists_double_eq
  rw [hdouble, h, toWord_nearest_negative]

theorem isInf_double_eq_false (h : n.negative = false)
    (hlt : (toWord n.double).toNat < wordLimit - 1) :
    n.double.isInf = false := by
  obtain ⟨num, den, hdouble⟩ := n.exists_double_eq
  rw [hdouble, h] at hlt ⊢
  exact isInf_nearest_eq_false hlt

/-- A number without places becomes itself but for its last bits, or else the
greatest word. -/
theorem toWord_double_of_nil (hplaces : n.places = [])
    (h : n.negative = false) :
    toWord n.double = UInt64.ofNat (min (shortened n.num) (wordLimit - 1)) := by
  by_cases hsmall : n.num = 0 ∨ n.magnitude < -330
  · have hnum : n.num = 0 := by
      have hlt := n.num_lt_den hsmall
      rw [den_of_nil hplaces] at hlt
      omega
    rw [n.double_of_small hsmall, h, hnum, toWord_nearest_one]
  · by_cases hlarge : 310 < n.magnitude
    · have hle := n.wordLimit_mul_den_le hlarge
      rw [den_of_nil hplaces, Nat.mul_one] at hle
      have hpower : wordLimit ≤ Nat.pow 2 1100 := by decide +kernel
      have hleft := wordLimit_le_shortened hpower
      have hright := wordLimit_le_shortened hle
      rw [n.double_of_large hsmall hlarge, h, toWord_nearest_one,
        Nat.min_eq_right (by omega), Nat.min_eq_right (by omega)]
    · rw [n.double_eq hsmall hlarge, h, den_of_nil hplaces, toWord_nearest_one]

theorem ceiling_lt (h : n.num < 2 ^ 53 * n.den) :
    (n.num + (n.den - 1)) / n.den < wordLimit - 1 := by
  rw [Nat.div_lt_iff_lt_mul n.den_pos]
  have hmul : (2 ^ 53 + 1) * n.den ≤ (wordLimit - 1) * n.den :=
    Nat.mul_le_mul_right _ (by decide)
  rw [Nat.succ_mul] at hmul
  have hden := n.den_pos
  omega

/-- A number of at most 53 bits in front of its point becomes this part or the
next whole number. -/
theorem toWord_double_bounds (h : n.negative = false)
    (hlt : n.num < 2 ^ 53 * n.den) :
    n.num / n.den ≤ (toWord n.double).toNat ∧
      (toWord n.double).toNat ≤ (n.num + (n.den - 1)) / n.den := by
  have hden := n.den_pos
  by_cases hsmall : n.num = 0 ∨ n.magnitude < -330
  · rw [n.double_of_small hsmall, h, Nat.div_eq_of_lt (n.num_lt_den hsmall),
      show toWord (nearest false 0 1) = 0 by
        rw [toWord_nearest_one]; decide +kernel]
    exact ⟨Nat.zero_le _, Nat.zero_le _⟩
  · have hlarge := n.not_lt_magnitude hlt
    have hceiling := n.ceiling_lt hlt
    have hle : n.num ≤ (n.num + (n.den - 1)) / n.den * n.den := by
      have hdiv := Nat.lt_div_mul_add hden (a := n.num + (n.den - 1))
      omega
    rw [n.double_eq hsmall hlarge, h]
    exact toWord_nearest_bounds (Nat.ne_of_gt hden) hlt
      (Nat.div_mul_le_self _ _) hle (by omega)

theorem le_foldl_digits (ds : List Char) (m : Nat) :
    m ≤ ds.foldl (fun n c => n * 10 + digitValue c) m := by
  induction ds generalizing m with
  | nil => exact le_rfl
  | cons c ds ih => exact (show m ≤ m * 10 + digitValue c by omega).trans (ih _)

theorem gatherWhole_of_lt {ds : List Char} {m : Nat}
    (h : ds.foldl (fun n c => n * 10 + digitValue c) m < wordLimit) :
    Json.gatherWhole m ds =
      (ds.foldl (fun n c => n * 10 + digitValue c) m, 0) := by
  induction ds generalizing m with
  | nil => rfl
  | cons c ds ih =>
      have hfits : Json.fitsDigit m c = true :=
        decide_eq_true ((le_foldl_digits ds _).trans_lt h)
      rw [Json.gatherWhole, if_pos hfits]
      exact ih h

theorem gatherFraction_of_lt {ds : List Char} {m : Nat}
    (h : ds.foldl (fun n c => n * 10 + digitValue c) m < wordLimit) :
    Json.gatherFraction m ds = (ds.foldl (fun n c => n * 10 + digitValue c) m,
      ds.length) := by
  induction ds generalizing m with
  | nil => rfl
  | cons c ds ih =>
      have hfits : Json.fitsDigit m c = true :=
        decide_eq_true ((le_foldl_digits ds _).trans_lt h)
      rw [Json.gatherFraction, if_pos hfits]
      simp only [ih h]
      rfl

def unsignedDouble? : Option Float :=
  Json.scaleFloat
    (UInt64.ofNat
      (Json.gatherFraction (Json.gatherWhole 0 n.whole).1 n.places).1).toFloat
    ((Json.gatherWhole 0 n.whole).2 -
      (Json.gatherFraction (Json.gatherWhole 0 n.whole).1 n.places).2) 4

theorem float?_numeral :
    n.numeral.float? = n.unsignedDouble?.map fun x => if n.negative
      then -x else x := rfl

theorem unsignedDouble?_of_nil (hplaces : n.places = [])
    (hlt : n.num < wordLimit) :
    n.unsignedDouble? = some (nearest false n.num 1) := by
  have hnum : n.num = n.whole.foldl (fun n c => n * 10 + digitValue c) 0 :=
    num_of_nil hplaces
  have hgather := gatherWhole_of_lt (hnum ▸ hlt)
  unfold unsignedDouble?
  rw [hplaces, hgather, ← hnum]
  have hscale := scaleFloat_toFloat (UInt64.ofNat n.num)
  rwa [UInt64.toNat_ofNat_of_lt' hlt] at hscale

/-- Digits that make a word are divided by their power of ten, where each of
both is shortened. -/
theorem unsignedDouble?_of_lt (hplaces : n.places ≠ [])
    (hlt : n.num < wordLimit) (hlength : n.places.length ≤ 250) :
    n.unsignedDouble? =
      some (nearest false (shortened n.num) (shortened n.den)) := by
  have hnum : n.num = n.places.foldl (fun n c => n * 10 + digitValue c)
      (ofDigits n.whole) :=
    List.foldl_append
  have hwhole : ofDigits n.whole < wordLimit :=
    (le_foldl_digits _ _).trans_lt (hnum ▸ hlt)
  have hgather := gatherWhole_of_lt hwhole
  unfold unsignedDouble?
  rw [hgather, show n.whole.foldl _ 0 = ofDigits n.whole from rfl,
    gatherFraction_of_lt (hnum ▸ hlt), ← hnum]
  have hscale := scaleFloat_toFloat_neg (UInt64.ofNat n.num)
    (List.length_pos_of_ne_nil hplaces) hlength
  rw [UInt64.toNat_ofNat_of_lt' hlt] at hscale
  rwa [show ((0 : Nat) : Int) - n.places.length = -(n.places.length : Int) from
    Int.zero_sub _]

/-- With few digits and places, all are read as the nearest double. -/
theorem double_eq_of_short (hnum : n.num < 2 ^ 53)
    (hlength : n.places.length ≤ 22) :
    n.double = nearest n.negative n.num n.den := by
  by_cases hzero : n.num = 0
  · rw [n.double_of_small (Or.inl hzero), hzero]
    rfl
  · have hpos := Nat.length_toDigits_pos (b := 10) (n := n.num)
    refine n.double_eq ?_
      (n.not_lt_magnitude (hnum.trans_le (Nat.le_mul_of_pos_right _ n.den_pos)))
    unfold magnitude
    omega

theorem notNegative_unsignedDouble {x : Float}
    (h : n.unsignedDouble? = some x) : NotNegative x := by
  unfold unsignedDouble? at h
  rw [toFloat_eq_nearest] at h
  exact (notNegative_nearest _ 1).scaleFloat h

def Is (w : UInt64) : Prop :=
  n.num = w.toNat * n.den ∧ (n.negative = true → n.num = 0)

/-- What is a word is an integer of 64 bits with a sign, or lies beyond
these. -/
theorem Is.isSigned_or {n : Written} {w : UInt64} (h : n.Is w)
    (hplaces : n.places = []) :
    n.IsSigned ∨
    (n.negative = false ∧ signedLimit ≤ n.num ∧ n.num < wordLimit) := by
  obtain ⟨hnum, hzero⟩ := h
  have hlt : w.toNat < wordLimit := w.toNat_lt
  have hlimit : 0 < signedLimit := by decide
  rw [den_of_nil hplaces, Nat.mul_one] at hnum
  rw [IsSigned]
  by_cases hnegative : n.negative = true
  · left
    rw [int_of_negative hnegative, ← num_of_nil hplaces, hzero hnegative]
    exact ⟨hplaces, by omega, by omega⟩
  · rw [int_of_not_negative hnegative, ← num_of_nil hplaces]
    by_cases hsmall : n.num < signedLimit
    · exact Or.inl ⟨hplaces, by omega, by omega⟩
    · exact Or.inr ⟨eq_false_of_ne_true hnegative, by omega, hnum ▸ hlt⟩

end Written

namespace Route

variable {route : Route} {n : Written}

/-- Whether the number becomes itself if it becomes any word. -/
def Keeps (route : Route) (n : Written) : Prop :=
  ∀ w, route.outcome? n = some (.ok w) → n.Is w

theorem outcome?_environment :
    Route.environment.outcome? n =
      some (if n.IsSigned then Scalar.word? (.integer n.int)
        else .ok (toWord n.double)) := by
  rw [outcome?, n.read?_environment]
  split <;> rfl

theorem outcome?_toml :
    Route.toml.outcome? n =
      if n.places = [] then if n.IsSigned
        then some (Scalar.word? (.integer n.int)) else none
      else if n.double.isInf && !n.negative then none
        else some (.ok (toWord n.double)) := by
  rw [outcome?, n.read?_toml]
  split
  · split <;> rfl
  · split <;> rfl

theorem outcome?_json :
    Route.json.outcome? n =
      if n.IsNumeral then some (Scalar.word? (.integer n.int))
      else n.unsignedDouble?.map fun x =>
        .ok (toWord (if n.negative then -x else x)) := by
  rw [outcome?, n.read?_json, n.number?_numeral]
  split
  · rfl
  · rw [n.float?_numeral]
    cases n.unsignedDouble? <;> rfl

/-- An integer of 64 bits with a sign becomes itself, or is refused if it is
negative. -/
theorem outcome?_signed (route : Route) (h : n.IsSigned) :
    route.outcome? n =
      some (if 0 ≤ n.int then .ok (UInt64.ofNat n.int.toNat)
        else .error n.int) := by
  rw [← Written.word?_integer_signed h.2.2]
  cases route with
  | environment => rw [outcome?_environment, if_pos h]
  | toml => rw [outcome?_toml, if_pos h.1, if_pos h]
  | json =>
      rw [outcome?_json]
      by_cases hzero : n.negative = true ∧ n.int = 0
      · have hnum : ofDigits n.whole = 0 := by
          have hint := hzero.2
          rw [Written.int_of_negative hzero.1] at hint
          omega
        have hdouble := n.unsignedDouble?_of_nil h.1
          (by rw [Written.num_of_nil h.1, hnum]; decide)
        rw [if_neg fun hand => hand.2 hzero, hdouble, hzero.2,
          Written.num_of_nil h.1, hnum]
        simp only [hzero.1, if_true, Option.map_some]
        rw [(notNegative_nearest 0 1).toWord_neg]
        rfl
      · rw [if_pos ⟨h, hzero⟩]

/-- Any other number is read as a double, if it can be read, and what is
negative becomes nothing. -/
theorem exists_outcome?_eq (route : Route) (h : ¬n.IsSigned) :
    ∃ double? : Option Float, route.outcome? n =
      double?.map (fun x => .ok (toWord x)) ∧
      (n.negative = true → ∀ x, double? = some x → toWord x = 0) := by
  have hnegative : n.negative = true → ∀ x, some n.double = some x →
      toWord x = 0 := by
    rintro hnegative _ ⟨⟩
    exact n.toWord_double_negative hnegative
  cases route with
  | environment =>
      rw [outcome?_environment, if_neg h]
      exact ⟨some n.double, rfl, hnegative⟩
  | toml =>
      rw [outcome?_toml, if_neg h]
      split
      · exact ⟨none, rfl, nofun⟩
      · split
        · exact ⟨none, rfl, nofun⟩
        · exact ⟨some n.double, rfl, hnegative⟩
  | json =>
      rw [outcome?_json, if_neg fun hand => h hand.1]
      refine ⟨n.unsignedDouble?.map fun x => if n.negative then -x
        else x, ?_, ?_⟩
      · rw [Option.map_map]
        rfl
      · intro hneg x hx
        obtain ⟨y, hy, rfl⟩ := Option.map_eq_some_iff.1 hx
        rw [if_pos hneg, (n.notNegative_unsignedDouble hy).toWord_neg]

theorem outcome?_unsigned (route : Route) (h : ¬n.IsSigned) :
    route.outcome? n = none ∨ ∃ w, route.outcome? n = some (.ok w) := by
  obtain ⟨double?, houtcome, -⟩ := exists_outcome?_eq route h
  rw [houtcome]
  cases double? with
  | none => exact Or.inl rfl
  | some x => exact Or.inr ⟨_, rfl⟩

theorem outcome?_negative (route : Route) (h : ¬n.IsSigned)
    (hnegative : n.negative = true) :
    route.outcome? n = none ∨ route.outcome? n = some (.ok 0) := by
  obtain ⟨double?, houtcome, hzero⟩ := exists_outcome?_eq route h
  rw [houtcome]
  cases double? with
  | none => exact Or.inl rfl
  | some x =>
      rw [Option.map_some, hzero hnegative x rfl]
      exact Or.inr rfl

/-- A word beyond those with a sign loses its last bits. -/
theorem outcome?_large (hroute : route ≠ .toml) (hplaces : n.places = [])
    (hnegative : n.negative = false) (h : signedLimit ≤ n.num)
    (hlt : n.num < wordLimit) :
    route.outcome? n =
      some (.ok (UInt64.ofNat (min (shortened n.num) (wordLimit - 1)))) := by
  have hsigned := Written.not_isSigned_of_le hplaces hnegative h
  cases route with
  | environment =>
      rw [outcome?_environment, if_neg hsigned,
        n.toWord_double_of_nil hplaces hnegative]
  | toml => exact absurd rfl hroute
  | json =>
      rw [outcome?_json, if_neg fun hand => hsigned hand.1,
        n.unsignedDouble?_of_nil hplaces hlt, Option.map_some, hnegative,
        if_neg (by decide), toWord_nearest_one]

/-- What is too large for a word becomes the greatest one in a variable. -/
theorem outcome?_beyond (hplaces : n.places = [])
    (hnegative : n.negative = false) (h : wordLimit ≤ n.num) :
    Route.environment.outcome? n =
      some (.ok (UInt64.ofNat (wordLimit - 1))) := by
  have hlimit : signedLimit ≤ wordLimit := by decide
  have hsigned := Written.not_isSigned_of_le hplaces hnegative (hlimit.trans h)
  have hshortened := wordLimit_le_shortened h
  rw [outcome?_environment, if_neg hsigned,
    n.toWord_double_of_nil hplaces hnegative, Nat.min_eq_right (by omega)]

/-- In JSON, digits that make a word are divided by their power of ten, where
each of both is shortened first. -/
theorem outcome?_divided (hplaces : n.places ≠ [])
    (hnegative : n.negative = false) (hlt : n.num < wordLimit)
    (hlength : n.places.length ≤ 250) :
    Route.json.outcome? n =
      some
        (.ok (toWord (nearest false (shortened n.num) (shortened n.den)))) := by
  rw [outcome?_json, if_neg fun hand => hplaces hand.1.1,
    n.unsignedDouble?_of_lt hplaces hlt hlength, Option.map_some, hnegative,
    if_neg (by decide)]

/-- So 8000000000000107.000 becomes a smaller number. -/
example :
    toWord (nearest false (shortened 8000000000000107000) (shortened 1000)) =
      8000000000000106 := by
  decide +kernel

theorem outcome?_double (hroute : route ≠ .json) (hplaces : n.places ≠ [])
    (hfinite : n.double.isInf = false) :
    route.outcome? n = some (.ok (toWord n.double)) := by
  cases route with
  | environment =>
      rw [outcome?_environment, if_neg fun hsigned => hplaces hsigned.1]
  | toml => rw [outcome?_toml, if_neg hplaces, hfinite, if_neg (by simp)]
  | json => exact absurd rfl hroute

/-- A number with places becomes the word nearest to its double. If its digits
make at most 53 bits and its places are few, this holds in JSON too. -/
theorem outcome?_short (route : Route) (hplaces : n.places ≠ [])
    (hnegative : n.negative = false) (hnum : n.num < 2 ^ 53)
    (hlength : n.places.length ≤ 22) :
    route.outcome? n = some (.ok (toWord (nearest false n.num n.den))) := by
  have hdouble := n.double_eq_of_short hnum hlength
  have hlt : n.num < 2 ^ 53 * n.den :=
    hnum.trans_le (Nat.le_mul_of_pos_right _ n.den_pos)
  have hword : 2 ^ 53 < wordLimit := by decide
  by_cases hroute : route = .json
  · rw [hroute, outcome?_divided hplaces hnegative (by omega) (by omega),
      shortened_of_lt hnum]
    unfold Written.den
    rw [shortened_power_ten hlength]
  · have hfinite := n.isInf_double_eq_false hnegative
      ((n.toWord_double_bounds hnegative hlt).2.trans_lt (n.ceiling_lt hlt))
    rw [outcome?_double hroute hplaces hfinite, hdouble, hnegative]

/-- A number with places and at most 53 bits in front of the point becomes the
whole number in front of it or the next one, but in JSON only if it is short. -/
theorem outcome?_fraction (hshort : route = .json → n.num < 2 ^ 53 ∧
      n.places.length ≤ 22)
    (hplaces : n.places ≠ []) (hnegative : n.negative = false)
    (h : n.num < 2 ^ 53 * n.den) :
    ∃ w : UInt64, route.outcome? n = some (.ok w) ∧ n.num / n.den ≤ w.toNat ∧
      w.toNat ≤ (n.num + (n.den - 1)) / n.den := by
  have hbounds := n.toWord_double_bounds hnegative h
  refine ⟨_, ?_, hbounds⟩
  by_cases hroute : route = .json
  · obtain ⟨hnum, hlength⟩ := hshort hroute
    rw [outcome?_short route hplaces hnegative hnum hlength,
      n.double_eq_of_short hnum hlength, hnegative]
  · exact outcome?_double hroute hplaces
      (n.isInf_double_eq_false hnegative (hbounds.2.trans_lt (n.ceiling_lt h)))

theorem keeps_of_none (h : route.outcome? n = none) : route.Keeps n := by
  intro w hw
  rw [h] at hw
  cases hw

theorem keeps_iff_is {w : UInt64} (h : route.outcome? n = some (.ok w)) :
    route.Keeps n ↔ n.Is w := by
  refine ⟨fun hkeeps => hkeeps w h, fun his w' hw' => ?_⟩
  rw [h] at hw'
  cases hw'
  exact his

/-- A number that is none of words is kept only where it cannot be read. -/
theorem keeps_iff_none (hsigned : ¬n.IsSigned) (h : ∀ w, ¬n.Is w) :
    route.Keeps n ↔ route.outcome? n = none := by
  refine ⟨fun hkeeps => ?_, keeps_of_none⟩
  rcases outcome?_unsigned route hsigned with hnone | ⟨w, hw⟩
  · exact hnone
  · exact absurd (hkeeps w hw) (h w)

theorem keeps_of_signed (h : n.IsSigned) : route.Keeps n := by
  intro w hw
  rw [outcome?_signed route h] at hw
  split at hw
  · rename_i hle
    cases hw
    have hlt := h.2.2
    have hlimit : signedLimit ≤ wordLimit := by decide
    have hword :=
      UInt64.toNat_ofNat_of_lt' (show n.int.toNat < wordLimit by omega)
    rw [Written.Is, Written.den_of_nil h.1, hword, Written.num_of_nil h.1]
    unfold Written.int at hle ⊢
    split
    · rename_i hnegative
      rw [if_pos hnegative] at hle
      omega
    · rename_i hnegative
      exact ⟨by omega, fun hand => absurd hand hnegative⟩
  · cases hw

/-- A number without places is kept if it is one of 64 bits with a sign or
cannot be read. Any other one is kept only if it is a word and has no more bits
than a double. -/
theorem keeps_iff_of_nil (hplaces : n.places = []) :
    route.Keeps n ↔ n.IsSigned ∨ route.outcome? n = none ∨
      (n.negative = false ∧ signedLimit ≤ n.num ∧ n.num < wordLimit ∧
        (2048 ∣ n.num ∨ n.num = wordLimit - 1)) := by
  by_cases hsigned : n.IsSigned
  · exact iff_of_true (keeps_of_signed hsigned) (Or.inl hsigned)
  rcases outcome?_unsigned route hsigned with hnone | ⟨w, hw⟩
  · exact iff_of_true (keeps_of_none hnone) (Or.inr (Or.inl hnone))
  have hsome : route.outcome? n ≠ none := by
    rw [hw]
    exact Option.some_ne_none _
  have hden := Written.den_of_nil hplaces
  rw [or_iff_right hsigned, or_iff_right hsome]
  by_cases hword : n.negative = false ∧ signedLimit ≤ n.num ∧ n.num < wordLimit
  · obtain ⟨hnegative, hle, hlt⟩ := hword
    have hroute : route ≠ .toml := by
      rintro rfl
      rw [outcome?_toml, if_pos hplaces, if_neg hsigned] at hw
      cases hw
    rw [keeps_iff_is (outcome?_large hroute hplaces hnegative hle hlt),
      Written.Is, hden, UInt64.toNat_ofNat_of_lt'
        ((Nat.min_le_right _ _).trans_lt (by decide)), Nat.mul_one,
      eq_comm, min_shortened_eq_iff hle hlt]
    simp [hnegative, hle, hlt]
  · rw [keeps_iff_none hsigned, iff_false_left hsome]
    · exact fun hand => hword ⟨hand.1, hand.2.1, hand.2.2.1⟩
    · exact fun w' his => hword ((his.isSigned_or hplaces).resolve_left hsigned)

/-- A number that is not whole is kept only where it cannot be read. -/
theorem keeps_iff_of_not_dvd (h : ¬n.den ∣ n.num) :
    route.Keeps n ↔ route.outcome? n = none := by
  refine keeps_iff_none (fun hsigned => h ?_) fun w his => h ?_
  · rw [Written.den_of_nil hsigned.1]
    exact Nat.one_dvd _
  · exact his.1 ▸ Nat.dvd_mul_left _ _

/-- What becomes of a number that is written, on some route. -/
structure Takes (route : Route) (n : Written) : Prop where
  signed : n.IsSigned →
    route.outcome? n = some (if 0 ≤ n.int then .ok (UInt64.ofNat n.int.toNat)
      else .error n.int)
  /-- Beyond these nothing is refused for being no word. -/
  unsigned : ¬n.IsSigned → route.outcome? n = none ∨ ∃ w,
    route.outcome? n = some (.ok w)
  readable : route = .environment → route.outcome? n ≠ none
  unread : route = .toml → n.places = [] → ¬n.IsSigned → route.outcome? n = none
  negative : ¬n.IsSigned → n.negative = true →
    route.outcome? n = none ∨ route.outcome? n = some (.ok 0)
  large : route ≠ .toml → n.places = [] → n.negative = false →
    signedLimit ≤ n.num →
    n.num < wordLimit →
    route.outcome? n =
      some (.ok (UInt64.ofNat (min (shortened n.num) (wordLimit - 1))))
  beyond : route = .environment → n.places = [] → n.negative = false →
    wordLimit ≤ n.num →
    route.outcome? n = some (.ok (UInt64.ofNat (wordLimit - 1)))
  fraction : (route = .json → n.num < 2 ^ 53 ∧ n.places.length ≤ 22) →
    n.places ≠ [] →
    n.negative = false → n.num < 2 ^ 53 * n.den →
    ∃ w : UInt64, route.outcome? n = some (.ok w) ∧ n.num / n.den ≤ w.toNat ∧
      w.toNat ≤ (n.num + (n.den - 1)) / n.den
  /-- All routes agree on what has few digits and places. -/
  short : n.places ≠ [] → n.negative = false → n.num < 2 ^ 53 →
    n.places.length ≤ 22 →
    route.outcome? n = some (.ok (toWord (nearest false n.num n.den)))
  divided : route = .json → n.places ≠ [] → n.negative = false →
    n.num < wordLimit →
    n.places.length ≤ 250 →
    route.outcome? n =
      some (.ok (toWord (nearest false (shortened n.num) (shortened n.den))))
  keepsInteger : n.places = [] →
    (route.Keeps n ↔ n.IsSigned ∨ route.outcome? n = none ∨
      (n.negative = false ∧ signedLimit ≤ n.num ∧ n.num < wordLimit ∧
        (2048 ∣ n.num ∨ n.num = wordLimit - 1)))
  keepsFraction : ¬n.den ∣ n.num → (route.Keeps n ↔ route.outcome? n = none)

theorem takes (route : Route) (n : Written) : route.Takes n where
  signed := outcome?_signed route
  unsigned := outcome?_unsigned route
  readable := by
    rintro rfl
    rw [outcome?_environment]
    exact Option.some_ne_none _
  unread := by
    rintro rfl hplaces hsigned
    rw [outcome?_toml, if_pos hplaces, if_neg hsigned]
  negative := outcome?_negative route
  large := outcome?_large
  beyond := by
    rintro rfl
    exact outcome?_beyond
  fraction := outcome?_fraction
  short := outcome?_short route
  divided := by
    rintro rfl
    exact outcome?_divided
  keepsInteger := keeps_iff_of_nil
  keepsFraction := keeps_iff_of_not_dvd

end Route

end FileDigest
