import FileDigest.Proofs.Decimal.Written
import FileDigest.Proofs.Settings.Names
import FileDigest.Settings.Variable
import FileDigest.Toml.Scalar

/-!
# Written numbers in variables and in TOML

In a variable and in TOML, a number as it is written is read as an integer if it
has no places and is one of 64 bits with a sign. In TOML any other number
without places cannot be read, and what else there is becomes a double
(`scalar_text`, `readNumeric_text`).
-/

namespace FileDigest

open Decimal

namespace Written

variable (n : Written)

/-- The number without its places. -/
def int : Int :=
  if n.negative then -(ofDigits n.whole : Int) else ofDigits n.whole

/-- The number without its sign and its point. -/
def num : Nat :=
  ofDigits (n.whole ++ n.places)

/-- What the digits count, so that the number is `num / den` but for its
sign. -/
def den : Nat :=
  Nat.pow 10 n.places.length

def double : Float :=
  nearestPower n.negative n.num (-(n.places.length : Int))

/-- A number without places that is one of 64 bits with a sign. -/
def IsSigned : Prop :=
  n.places = [] ∧ -(signedLimit : Int) ≤ n.int ∧ n.int < signedLimit

instance : Decidable n.IsSigned :=
  inferInstanceAs (Decidable (_ ∧ _))

theorem natural?_body :
    natural? n.body = if n.places = [] then some (ofDigits n.whole)
      else none := by
  obtain ⟨c, cs, -, hbody, -⟩ := n.exists_cons
  have hnonempty : n.body.isEmpty = false := by rw [hbody]; rfl
  unfold natural?
  rw [hnonempty]
  by_cases hplaces : n.places = []
  · have hwhole : n.body = n.whole := by
      rw [body, tail_of_nil hplaces, List.append_nil]
    rw [if_pos hplaces, hwhole, if_pos]
    exact List.all_eq_true.2 n.isDigit_whole
  · rw [if_neg hplaces, if_neg]
    intro hall
    have hpoint : '.' ∈ n.body := by
      rw [body, tail_of_ne hplaces]
      exact List.mem_append_right _ List.mem_cons_self
    exact absurd (List.all_eq_true.1 hall '.' hpoint) (by decide)

def signedOnly? (i : Int) : Option Int :=
  if -(signedLimit : Int) ≤ i ∧ i < signedLimit then some i else none

theorem bind_signedOnly? (number : Option Int) :
    (match number with
      | some i =>
          if -(signedLimit : Int) ≤ i ∧ i < signedLimit then some i else none
      | none => none) = number.bind signedOnly? := by
  cases number <;> rfl

theorem signed?_minus (cs : List Char) :
    signed? ('-' :: cs) = ((natural? cs).map fun n => -Int.ofNat n).bind
      signedOnly? :=
  bind_signedOnly? _

theorem signed?_digit {c : Char} (hc : isDigit c = true) (cs : List Char) :
    signed? (c :: cs) = ((natural? (c :: cs)).map Int.ofNat).bind
      signedOnly? := by
  have hplus := ne_of_isDigit hc (show isDigit '+' = false by decide)
  have hminus := ne_of_isDigit hc (show isDigit '-' = false by decide)
  unfold signed?
  split
  · rename_i heq
    exact absurd (List.cons.inj heq).1 hplus
  · rename_i heq
    exact absurd (List.cons.inj heq).1 hminus
  · exact bind_signedOnly? _

theorem signed?_text : signed? n.text = if n.IsSigned then some n.int
    else none := by
  have hint : signed? n.text = (if n.places = [] then some n.int else none).bind
      signedOnly? := by
    have hnatural := n.natural?_body
    unfold text int
    by_cases hnegative : n.negative = true
    · rw [if_pos hnegative, if_pos hnegative, signed?_minus, hnatural]
      split <;> rfl
    · obtain ⟨c, cs, -, hbody, hc⟩ := n.exists_cons
      rw [if_neg hnegative, if_neg hnegative, hbody, signed?_digit hc,
        ← hbody, hnatural]
      split <;> rfl
  rw [hint]
  unfold IsSigned
  by_cases hplaces : n.places = [] <;> simp [hplaces, signedOnly?]

theorem fraction?_body (negative : Bool) :
    fraction? negative n.body =
      some (nearestPower negative n.num (-(n.places.length : Int))) := by
  have hnonempty : n.whole.isEmpty = false := by
    cases hwhole : n.whole with
    | nil => exact absurd hwhole n.nonempty
    | cons c cs => rfl
  unfold fraction? num
  simp only [n.scan_body.1, n.scan_body.2]
  by_cases hplaces : n.places = []
  · simp [tail_of_nil hplaces, hplaces, hnonempty]
  · simp [tail_of_ne hplaces, n.scan_places, hnonempty]

theorem isPlain_of_isDigit {c : Char} (h : isDigit c = true) :
    Text.isPlain c = true :=
  isPlain_of_isWordChar (Bool.or_eq_true _ _ ▸ Or.inr h)

theorem toLower_of_isDigit {c : Char} (h : isDigit c = true) :
    c.toLower = c := by
  have hplain := isPlain_of_isDigit h
  rw [Text.isPlain, Bool.and_eq_true, beq_iff_eq] at hplain
  exact hplain.2

/-- What begins with a digit is no word for what is infinite or no number. -/
theorem lower_body_ne (word : String) {d : Char}
    (hhead : word.toList.head? = some d) (hd : isDigit d = false) :
    String.ofList (n.body.map Char.toLower) ≠ word := by
  obtain ⟨c, cs, -, hbody, hc⟩ := n.exists_cons
  rintro rfl
  rw [String.toList_ofList, hbody, List.map_cons, toLower_of_isDigit hc]
    at hhead
  exact ne_of_isDigit hc hd (Option.some.inj hhead)

theorem float?_text : float? n.text = some n.double := by
  have hinf := n.lower_body_ne "inf" rfl (by decide)
  have hinfinity := n.lower_body_ne "infinity" rfl (by decide)
  have hnan := n.lower_body_ne "nan" rfl (by decide)
  have hfraction := n.fraction?_body n.negative
  unfold float? text double
  by_cases hnegative : n.negative = true
  · rw [if_pos hnegative]
    simp only [hinf, hinfinity, hnan, or_self, if_false]
    rwa [hnegative] at hfraction ⊢
  · rw [if_neg hnegative]
    split
    rename_i negative body hsign
    split at hsign
    · exact absurd ‹_› (n.head_body_ne (by decide) _)
    · exact absurd ‹_› (n.head_body_ne (by decide) _)
    · obtain ⟨rfl, rfl⟩ := Prod.mk.inj hsign
      simp only [hinf, hinfinity, hnan, or_self, if_false]
      rwa [eq_false_of_ne_true hnegative] at hfraction ⊢

theorem lower_text : Text.lower (String.ofList n.text) =
    String.ofList n.text := by
  apply Text.lower_eq_self
  rw [String.toList_ofList]
  have hbody : ∀ c ∈ n.body, Text.isPlain c = true := by
    intro c hc
    rcases n.mem_body hc with hdigit | rfl
    · exact isPlain_of_isDigit hdigit
    · decide
  unfold text
  split
  · exact List.forall_mem_cons.2 ⟨by decide, hbody⟩
  · exact hbody

theorem text_ne_word (word : String) {d : Char}
    (hhead : word.toList.head? = some d) (hd : isDigit d = false)
    (hminus : d ≠ '-') : String.ofList n.text ≠ word := by
  obtain ⟨c, cs, -, hbody, hc⟩ := n.exists_cons
  rintro rfl
  rw [String.toList_ofList] at hhead
  unfold text at hhead
  split at hhead
  · exact hminus (Option.some.inj hhead).symm
  · rw [hbody] at hhead
    exact ne_of_isDigit hc hd (Option.some.inj hhead)

/-- In a variable, an integer of 64 bits with a sign is read as itself, and any
other number as the nearest double. -/
theorem scalar_text :
    Variable.scalar (String.ofList n.text) = if n.IsSigned then .integer n.int
      else .float n.double := by
  unfold Variable.scalar
  dsimp only
  rw [lower_text, if_neg (n.text_ne_word "true" rfl (by decide) (by decide)),
    if_neg (n.text_ne_word "false" rfl (by decide) (by decide)),
    String.toList_ofList, n.signed?_text, n.float?_text]
  by_cases hsigned : n.IsSigned
  · rw [if_pos hsigned, if_pos hsigned]
  · rw [if_neg hsigned, if_neg hsigned]

/-- Digits are read up to the point or the end, since there is no underscore. -/
theorem readDigits_digits {ds rest : List Char}
    (hds : ∀ c ∈ ds, isDigit c = true) (hrest : ∀ c ∈ rest.head?, c = '.') :
    Toml.readDigits isDigit (ds ++ rest) = (ds, rest) := by
  have hpoint : isDigit '.' = false := by decide
  induction ds with
  | nil =>
      cases rest with
      | nil => rfl
      | cons c rest =>
          obtain rfl := hrest c rfl
          rw [List.nil_append, Toml.readDigits.eq_def]
          split <;> simp_all
  | cons c ds ih =>
      have hc := hds c List.mem_cons_self
      have hds' : ∀ c ∈ ds, isDigit c = true := fun d hd =>
        hds d (List.mem_cons_of_mem c hd)
      have hunderscore : ∀ more, ds ++ rest ≠ '_' :: more := by
        intro more heq
        have hhead : (ds ++ rest).head? = some '_' := by rw [heq]; rfl
        cases ds with
        | nil => exact absurd (hrest '_' hhead) (by decide)
        | cons d ds =>
            exact ne_of_isDigit (hds' d List.mem_cons_self) (by decide)
              (Option.some.inj hhead)
      rw [List.cons_append, Toml.readDigits.eq_def]
      split
      · rename_i heq
        cases heq
      · rename_i heq
        obtain ⟨rfl, hnil⟩ := List.cons.inj heq
        obtain ⟨rfl, rfl⟩ := List.append_eq_nil_iff.1 hnil
        rw [if_pos hc]
      · rename_i heq
        exact absurd (List.cons.inj heq).2 (hunderscore _)
      · rename_i heq
        obtain ⟨rfl, rfl⟩ := List.cons.inj heq
        rw [if_pos hc, ih hds']

theorem readWhole_body : Toml.readWhole n.body = some (n.whole, n.tail) := by
  obtain ⟨c, cs, hwhole, hbody, -⟩ := n.exists_cons
  have hdigits := readDigits_digits n.isDigit_whole n.head_tail_eq
  unfold Toml.readWhole
  split
  · rename_i rest heq
    have hzero : n.whole = ['0'] := by
      apply n.leading
      rw [hbody] at heq
      rw [hwhole, (List.cons.inj heq).1]
      rfl
    rw [body, hzero] at heq
    rw [hzero, ← (List.cons.inj heq).2]
    rfl
  · rw [body, hdigits, hwhole]
    rfl

theorem readPlaces_places (h : n.places ≠ []) : Toml.readPlaces n.places =
    some (n.places, []) := by
  have hdigits := @readDigits_digits n.places [] n.isDigit_places (by simp)
  rw [List.append_nil] at hdigits
  unfold Toml.readPlaces
  rw [hdigits]
  dsimp only
  rw [if_neg (by simpa using h)]

theorem expect_of_notMem {c : Char} {cs : List Char} (h : c ∉ cs) :
    Toml.expect c cs = none := by
  cases cs with
  | nil => rfl
  | cons d rest =>
      rw [Toml.expect, if_neg]
      rintro rfl
      exact h List.mem_cons_self

theorem readFixed_left {count value : Nat} {cs left : List Char}
    (h : Toml.readFixed count cs = some (value, left)) :
    left = cs.drop count := by
  unfold Toml.readFixed at h
  dsimp only at h
  split at h
  · cases h
    rfl
  · cases h

theorem readTwo_left {low high value : Nat} {cs left : List Char}
    (h : Toml.readTwo low high cs = some (value, left)) : left = cs.drop 2 := by
  unfold Toml.readTwo at h
  cases hfixed : Toml.readFixed 2 cs with
  | none =>
      rw [hfixed] at h
      cases h
  | some read =>
      obtain ⟨value', left'⟩ := read
      simp only [hfixed] at h
      split at h
      · cases h
        exact readFixed_left hfixed
      · cases h

theorem readDateTime_text : Toml.readDateTime n.text = none := by
  have hdate : Toml.readDate n.text = none := by
    unfold Toml.readDate
    cases hyear : Toml.readFixed 4 n.text with
    | none => rfl
    | some read =>
        obtain ⟨year, left⟩ := read
        obtain rfl := readFixed_left hyear
        simp [expect_of_notMem
          (n.notMem_drop_text (c := '-') (by decide) (by decide) 3)]
  have htime : Toml.readTime n.text = none := by
    unfold Toml.readTime
    cases hhour : Toml.readTwo 0 23 n.text with
    | none => rfl
    | some read =>
        obtain ⟨hour, left⟩ := read
        obtain rfl := readTwo_left hhour
        simp [expect_of_notMem
          (n.notMem_drop_text (c := ':') (by decide) (by decide) 1)]
  unfold Toml.readDateTime
  rw [hdate, htime]

theorem readSign_text : Toml.readSign n.text = (n.negative, n.body) := by
  unfold text
  cases hnegative : n.negative with
  | true => rfl
  | false =>
      simp only [Bool.false_eq_true, if_false]
      unfold Toml.readSign
      split
      · exact absurd ‹_› (n.head_body_ne (by decide) _)
      · exact absurd ‹_› (n.head_body_ne (by decide) _)
      · rfl

theorem readFloat_text :
    Toml.readFloat n.text =
      if n.places = [] then none
      else some (if n.double.isInf && !n.negative then none
        else some n.double, []) := by
  unfold Toml.readFloat
  simp only [n.readSign_text, n.readWhole_body]
  by_cases hplaces : n.places = []
  · rw [if_pos hplaces, tail_of_nil hplaces]
    rfl
  · have hexponent : Toml.readExponent [] = none := rfl
    rw [if_neg hplaces, tail_of_ne hplaces]
    simp only [n.readPlaces_places hplaces, hexponent,
      Toml.exponentValue, Int.zero_sub]
    rfl

theorem readSpecial_body (negative : Bool) :
    Toml.readSpecial negative n.body = none := by
  unfold Toml.readSpecial
  split
  · exact absurd ‹_› (n.head_body_ne (by decide) _)
  · exact absurd ‹_› (n.head_body_ne (by decide) _)
  · rfl

theorem readInteger_text (h : n.places = []) :
    Toml.readInteger n.text = some (if n.IsSigned then some n.int
      else none, []) := by
  have hbase : ∀ c rest, isDigit c = false → c ≠ '.' →
      n.text ≠ '0' :: c :: rest := by
    intro c rest hc hpoint heq
    have hnotMem := n.notMem_drop_text hc hpoint 0
    rw [heq] at hnotMem
    exact hnotMem List.mem_cons_self
  have hsigned : n.IsSigned ↔ -(signedLimit : Int) ≤ n.int ∧
      n.int < signedLimit := by
    rw [IsSigned, and_iff_right h]
  unfold Toml.readInteger
  split
  · exact absurd ‹_› (hbase 'x' _ (by decide) (by decide))
  · exact absurd ‹_› (hbase 'o' _ (by decide) (by decide))
  · exact absurd ‹_› (hbase 'b' _ (by decide) (by decide))
  · simp only [n.readSign_text, n.readWhole_body, tail_of_nil h,
      Option.map_some, hsigned]
    rfl

/-- In TOML, an integer of 64 bits with a sign is read as itself, any other
number without places is not read at all, and what is left as the nearest
double, unless this is infinite. -/
theorem readNumeric_text :
    Toml.readNumeric n.text =
      if n.places = [] then if n.IsSigned then some (.integer n.int, [])
        else none
      else if n.double.isInf && !n.negative then none
      else some (.float n.double, []) := by
  unfold Toml.readNumeric
  simp only [n.readDateTime_text, n.readFloat_text]
  by_cases hplaces : n.places = []
  · simp only [if_pos hplaces, n.readSign_text, n.readSpecial_body,
      n.readInteger_text hplaces]
    split <;> rfl
  · simp only [if_neg hplaces]
    split <;> rfl

end Written

end FileDigest
