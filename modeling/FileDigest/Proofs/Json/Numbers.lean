import FileDigest.Json.Number
import FileDigest.Proofs.Json.Grammar

/-!
# Reading numbers in JSON

A number is kept as it is written, with its exponent, as long as what stands
behind it cannot be taken for more of it (`readNumber_of_writesNumber`).
-/

namespace FileDigest

open Decimal

namespace Json

theorem takeDigits_append {ds rest : List Char}
    (hds : ∀ c ∈ ds, isDigit c = true) (hrest : ∀ c ∈ rest.head?,
      isDigit c = false) : takeDigits (ds ++ rest) = (ds, rest) :=
  Prod.ext (takeWhile_digits hds hrest).1 (takeWhile_digits hds hrest).2

theorem readExponentDigits_append {ds rest : List Char} (negative : Bool)
    (hnonempty : ds ≠ []) (hds : ∀ c ∈ ds, isDigit c = true)
    (hrest : ∀ c ∈ rest.head?, isDigit c = false) :
    readExponentDigits negative (ds ++ rest) =
      some (some (negative, ds), rest) := by
  have hempty : ds.isEmpty = false := by simpa using hnonempty
  simp only [readExponentDigits, takeDigits_append hds hrest, hempty,
    Bool.false_eq_true, if_false]

/-- Nothing here goes on with a number. -/
def EndsNumber (rest : List Char) : Prop :=
  ∀ c ∈ rest.head?, isDigit c = false ∧ c ≠ '.' ∧ c ≠ 'e' ∧ c ≠ 'E'

theorem readExponent_cons {letter : Char}
    (hletter : letter = 'e' ∨ letter = 'E') (cs : List Char) :
    readExponent (letter :: cs) =
      match cs with
      | '+' :: rest => readExponentDigits false rest
      | '-' :: rest => readExponentDigits true rest
      | rest => readExponentDigits false rest :=
  if_pos hletter

theorem readExponent_append {exponent : Option (Bool × List Char)}
    {cs rest : List Char} (h : WritesExponent exponent cs)
    (hrest : EndsNumber rest) :
    readExponent (cs ++ rest) = some (exponent, rest) := by
  cases h with
  | none =>
      cases rest with
      | nil => rfl
      | cons c rest =>
          obtain ⟨-, -, he, hE⟩ := hrest c rfl
          simp [readExponent, he, hE]
  | @some letter negative sign digits hletter hsign hnonempty hdigits =>
      have hread := readExponentDigits_append negative hnonempty hdigits fun c
        hc => (hrest c hc).1
      obtain ⟨d, ds, rfl⟩ := List.exists_cons_of_ne_nil hnonempty
      have hd := hdigits d List.mem_cons_self
      simp only [exponentSigns, List.mem_cons, Prod.mk.injEq, List.not_mem_nil,
        or_false] at hsign
      rcases hsign with ⟨rfl, rfl⟩ | ⟨rfl, rfl⟩ | ⟨rfl, rfl⟩
      · -- Without a sign, the first digit must not be taken for one.
        have hplus := ne_of_isDigit hd (show isDigit '+' = false by decide)
        have hminus := ne_of_isDigit hd (show isDigit '-' = false by decide)
        rw [List.nil_append, List.cons_append, readExponent_cons hletter]
        split
        · rename_i heq
          exact absurd (List.cons.inj heq).1 hplus
        · rename_i heq
          exact absurd (List.cons.inj heq).1 hminus
        · exact hread
      · exact (readExponent_cons hletter _).trans hread
      · exact (readExponent_cons hletter _).trans hread

/-- What stands behind the digits and places of a number is no digit and no
point. -/
theorem head_exponent {exponent : Option (Bool × List Char)}
    {cs rest : List Char} (h : WritesExponent exponent cs)
    (hrest : EndsNumber rest) :
    ∀ c ∈ (cs ++ rest).head?, isDigit c = false ∧ c ≠ '.' := by
  cases h with
  | none => exact fun c hc => ⟨(hrest c hc).1, (hrest c hc).2.1⟩
  | some hletter =>
      rintro c ⟨⟩
      rcases hletter with rfl | rfl <;> decide

end Json

namespace Written

variable (n : Written)

theorem takeDigits_body {rest : List Char}
    (hrest : ∀ c ∈ rest.head?, isDigit c = false) :
    Json.takeDigits (n.body ++ rest) = (n.whole, n.tail ++ rest) := by
  have hhead : ∀ c ∈ (n.tail ++ rest).head?, isDigit c = false := by
    intro c hc
    rw [List.head?_append] at hc
    rcases Option.or_eq_some_iff.1 hc with hc | ⟨-, hc⟩
    · exact n.head_tail c hc
    · exact hrest c hc
  rw [body, List.append_assoc]
  exact Json.takeDigits_append n.isDigit_whole hhead

theorem readFraction_tail {rest : List Char}
    (hrest : ∀ c ∈ rest.head?, isDigit c = false ∧ c ≠ '.') :
    Json.readFraction (n.tail ++ rest) = some (n.places, rest) := by
  by_cases hplaces : n.places = []
  · rw [tail_of_nil hplaces, hplaces, List.nil_append]
    unfold Json.readFraction
    split
    · exact absurd rfl (hrest '.' rfl).2
    · rfl
  · have hempty : n.places.isEmpty = false := by simpa using hplaces
    have hscan := Json.takeDigits_append n.isDigit_places fun c hc =>
      (hrest c hc).1
    rw [tail_of_ne hplaces, List.cons_append]
    simp only [Json.readFraction, hscan, hempty, Bool.false_eq_true, if_false]

end Written

namespace Json

theorem readNumber_of_writesNumber {n : Numeral} {cs rest : List Char}
    (h : WritesNumber n cs) (hrest : EndsNumber rest) :
    readNumber (cs ++ rest) = some (n, rest) := by
  obtain ⟨n, hexponent⟩ := h
  rename_i exponent cs
  have hhead := head_exponent hexponent hrest
  have hleading : ¬(n.whole.isEmpty = true ∨
      (n.whole.head? = some '0' ∧ n.whole ≠ ['0'])) := by
    rintro (hempty | ⟨hzero, hne⟩)
    · exact n.nonempty (List.isEmpty_iff.1 hempty)
    · exact hne (n.leading hzero)
  have hread : readNumber (n.text ++ (cs ++ rest)) =
      some (⟨n.negative, n.whole, n.places, exponent⟩, rest) := by
    unfold readNumber Written.text
    cases hnegative : n.negative with
    | true =>
        simp only [if_true, List.cons_append, n.takeDigits_body fun c hc =>
          (hhead c hc).1]
        rw [if_neg hleading, n.readFraction_tail hhead]
        simp only [readExponent_append hexponent hrest]
    | false =>
        simp only [Bool.false_eq_true, if_false]
        split
        · rename_i heq
          obtain ⟨c, cs, -, hbody, hc⟩ := n.exists_cons
          rw [hbody] at heq
          exact absurd (List.cons.inj heq).1 (ne_of_isDigit hc (by decide))
        · simp only [n.takeDigits_body fun c hc => (hhead c hc).1]
          rw [if_neg hleading, n.readFraction_tail hhead]
          simp only [readExponent_append hexponent hrest]
  rwa [← List.append_assoc] at hread

end Json

namespace Written

variable (n : Written)

def numeral : Json.Numeral :=
  ⟨n.negative, n.whole, n.places, none⟩

theorem writesNumber_text : Json.WritesNumber n.numeral n.text := by
  have hwrites := Json.WritesNumber.mk n .none
  rwa [List.append_nil] at hwrites

theorem readNumber_text {rest : List Char} (hrest : Json.EndsNumber rest) :
    Json.readNumber (n.text ++ rest) = some (n.numeral, rest) :=
  Json.readNumber_of_writesNumber n.writesNumber_text hrest

end Written

end FileDigest
