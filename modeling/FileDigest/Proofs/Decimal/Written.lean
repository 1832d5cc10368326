import FileDigest.Decimal.Reader

/-!
# Numbers as they are written

A number is written with digits and maybe a minus in front and a point and
places behind it. What readers need of it is said here without any of them:
where its digits end (`scan_body`), what it begins with (`exists_text_cons`) and
which characters it is made of (`mem_body`).
-/

namespace FileDigest

open Decimal

/-- A number as it is written: no zero stands in front of another digit. -/
structure Written where
  negative : Bool
  whole : List Char
  /-- The digits behind the point. Without any there is no point. -/
  places : List Char
  nonempty : whole ≠ []
  digits : ∀ c ∈ whole ++ places, isDigit c = true
  leading : whole.head? = some '0' → whole = ['0']

theorem ne_of_isDigit {c d : Char} (hc : isDigit c = true)
    (hd : isDigit d = false) : c ≠ d := by
  rintro rfl
  rw [hc] at hd
  cases hd

theorem takeWhile_digits {ds rest : List Char}
    (hds : ∀ c ∈ ds, isDigit c = true)
    (hrest : ∀ c ∈ rest.head?, isDigit c = false) :
    (ds ++ rest).takeWhile isDigit = ds ∧
    (ds ++ rest).dropWhile isDigit = rest := by
  rw [List.takeWhile_append_of_pos hds, List.dropWhile_append_of_pos hds]
  cases rest with
  | nil => simp
  | cons c rest => simp [hrest c rfl]

namespace Written

variable (n : Written)

/-- The point with the places, if there are any. -/
def tail : List Char :=
  if n.places = [] then [] else '.' :: n.places

def body : List Char :=
  n.whole ++ n.tail

def text : List Char :=
  if n.negative then '-' :: n.body else n.body

theorem isDigit_whole : ∀ c ∈ n.whole, isDigit c = true :=
  fun c hc => n.digits c (List.mem_append_left _ hc)

theorem isDigit_places : ∀ c ∈ n.places, isDigit c = true :=
  fun c hc => n.digits c (List.mem_append_right _ hc)

theorem head_tail_eq : ∀ c ∈ n.tail.head?, c = '.' := by
  intro c hc
  unfold tail at hc
  split at hc
  · cases hc
  · exact (Option.some.inj hc).symm

theorem head_tail : ∀ c ∈ n.tail.head?, isDigit c = false := by
  intro c hc
  rw [n.head_tail_eq c hc]
  decide

theorem scan_body : n.body.takeWhile isDigit = n.whole ∧
    n.body.dropWhile isDigit = n.tail :=
  takeWhile_digits n.isDigit_whole n.head_tail

theorem scan_places : n.places.takeWhile isDigit = n.places ∧
    n.places.dropWhile isDigit = [] := by
  have hscan := @takeWhile_digits n.places [] n.isDigit_places (by simp)
  rwa [List.append_nil] at hscan

theorem tail_of_nil {n : Written} (h : n.places = []) : n.tail = [] := if_pos h

theorem tail_of_ne {n : Written} (h : n.places ≠ []) :
    n.tail = '.' :: n.places := if_neg h

theorem exists_cons : ∃ c cs, n.whole = c :: cs ∧ n.body = c :: (cs ++ n.tail) ∧
    isDigit c = true := by
  obtain ⟨c, cs, hwhole⟩ := List.exists_cons_of_ne_nil n.nonempty
  refine ⟨c, cs, hwhole, ?_, n.isDigit_whole c (hwhole ▸ List.mem_cons_self)⟩
  rw [body, hwhole, List.cons_append]

theorem mem_body {c : Char} (h : c ∈ n.body) : isDigit c = true ∨ c = '.' := by
  rcases List.mem_append.1 h with h | h
  · exact Or.inl (n.isDigit_whole c h)
  · unfold tail at h
    split at h
    · cases h
    · rcases List.mem_cons.1 h with rfl | h
      · exact Or.inr rfl
      · exact Or.inl (n.isDigit_places c h)

theorem head_body_ne {c : Char} (hc : isDigit c = false) (rest : List Char) :
    n.body ≠ c :: rest := by
  obtain ⟨d, ds, -, hbody, hd⟩ := n.exists_cons
  rw [hbody]
  exact fun heq => ne_of_isDigit hd hc (List.cons.inj heq).1

theorem notMem_body {c : Char} (hc : isDigit c = false) (hpoint : c ≠ '.') :
    c ∉ n.body := by
  intro hmem
  rcases n.mem_body hmem with hdigit | heq
  · rw [hc] at hdigit
    cases hdigit
  · exact hpoint heq

/-- Behind its first character a number has none that is no digit and no
point. -/
theorem notMem_drop_text {c : Char} (hc : isDigit c = false)
    (hpoint : c ≠ '.') (k : Nat) : c ∉ n.text.drop (k + 1) := by
  intro hmem
  apply n.notMem_body hc hpoint
  unfold text at hmem
  split at hmem
  · exact List.mem_of_mem_drop hmem
  · exact List.mem_of_mem_drop hmem

theorem notMem_text {c : Char} (hc : isDigit c = false) (hpoint : c ≠ '.')
    (hminus : c ≠ '-') : c ∉ n.text := by
  have hbody := n.notMem_body hc hpoint
  unfold text
  split
  · rw [List.mem_cons, not_or]
    exact ⟨hminus, hbody⟩
  · exact hbody

theorem exists_text_cons : ∃ c cs, n.text = c :: cs ∧
    (isDigit c = true ∨ c = '-') := by
  unfold text
  split
  · exact ⟨_, _, rfl, Or.inr rfl⟩
  · obtain ⟨c, cs, -, hbody, hc⟩ := n.exists_cons
    exact ⟨_, _, hbody, Or.inl hc⟩

theorem text_append_ne_cons {c : Char} (hc : isDigit c = false)
    (hminus : c ≠ '-') (left rest : List Char) :
    n.text ++ left ≠ c :: rest := by
  obtain ⟨d, ds, htext, hd⟩ := n.exists_text_cons
  rw [htext, List.cons_append]
  intro heq
  obtain rfl := (List.cons.inj heq).1
  rcases hd with hd | hd
  · rw [hc] at hd
    cases hd
  · exact hminus hd

theorem text_ne_cons {c : Char} (hc : isDigit c = false) (hminus : c ≠ '-')
    (rest : List Char) : n.text ≠ c :: rest := by
  have hne := n.text_append_ne_cons hc hminus [] rest
  rwa [List.append_nil] at hne

theorem dropWhile_text {isBlank : Char → Bool}
    (h : ∀ c, isBlank c = true → isDigit c = false ∧ c ≠ '-')
    (left : List Char) :
    (n.text ++ left).dropWhile isBlank = n.text ++ left := by
  obtain ⟨c, cs, htext, hc⟩ := n.exists_text_cons
  rw [htext, List.cons_append]
  apply List.dropWhile_cons_of_neg
  intro hblank
  rcases hc with hc | hc
  · rw [(h c hblank).1] at hc
    cases hc
  · exact (h c hblank).2 hc

end Written

/-! ## Whole numbers -/

theorem ofDigits_toDigits (k : Nat) : ofDigits (Nat.toDigits 10 k) = k := by
  have hstep : (fun (n : Nat) (c : Char) => n * 10 + digitValue c) =
      fun n c => 10 * n + (c.toNat - '0'.toNat) := by
    funext n c
    rw [Nat.mul_comm]
    rfl
  rw [ofDigits, hstep, ← Nat.ofDigitChars_eq_foldl]
  exact Nat.ofDigitChars_ten_toDigits

theorem digitValue_lt {c : Char} (hc : isDigit c = true) :
    digitValue c < 10 := by
  have hle : c.toNat ≤ 57 := of_decide_eq_true (Bool.and_eq_true_iff.1 hc).2
  unfold digitValue
  omega

theorem toDigits_digitValue {c : Char} (hc : isDigit c = true) :
    Nat.toDigits 10 (digitValue c) = [c] := by
  have hall : ∀ k < 10, Nat.digitChar k = Char.ofNat (48 + k) := by decide
  have hle : 48 ≤ c.toNat := of_decide_eq_true (Bool.and_eq_true_iff.1 hc).1
  rw [Nat.toDigits_of_lt_base (digitValue_lt hc), hall _ (digitValue_lt hc),
    digitValue, Nat.add_sub_cancel' hle, Char.ofNat_toNat]

/-- Digits behind a number that is not zero are the last digits of another
one. -/
theorem toDigits_append_digits {ds : List Char}
    (hds : ∀ c ∈ ds, isDigit c = true) {k : Nat} (hk : 0 < k) :
    Nat.toDigits 10 k ++ ds =
      Nat.toDigits 10 (ds.foldl (fun n c => n * 10 + digitValue c) k) := by
  induction ds generalizing k with
  | nil => exact List.append_nil _
  | cons c ds ih =>
      have hc := hds c List.mem_cons_self
      have hdigits : Nat.toDigits 10 k ++ [c] =
          Nat.toDigits 10 (k * 10 + digitValue c) := by
        rw [← toDigits_digitValue hc,
          Nat.toDigits_append_toDigits (by decide) hk (digitValue_lt hc),
          Nat.mul_comm]
      rw [List.foldl_cons, ← ih (fun d hd => hds d (List.mem_cons_of_mem c hd))
        (by omega), ← hdigits, List.append_assoc, List.singleton_append]

namespace Written

/-- The digits of a number are those of what they are worth, since no zero
stands in front. -/
theorem toDigits_whole (n : Written) :
    Nat.toDigits 10 (ofDigits n.whole) = n.whole := by
  obtain ⟨c, cs, hwhole, -, hc⟩ := n.exists_cons
  have hcs : ∀ d ∈ cs, isDigit d = true := fun d hd =>
    n.isDigit_whole d (hwhole ▸ List.mem_cons_of_mem c hd)
  by_cases hzero : c = '0'
  · rw [n.leading (by rw [hwhole, hzero]; rfl)]
    rfl
  · have hpos : 0 < digitValue c := by
      have hne : c.toNat ≠ 48 := fun heq => hzero (Char.toNat_inj.1 heq)
      have hle : 48 ≤ c.toNat := of_decide_eq_true (Bool.and_eq_true_iff.1 hc).1
      unfold digitValue
      omega
    have hdigits := toDigits_append_digits hcs hpos
    rw [toDigits_digitValue hc, List.singleton_append, ← hwhole] at hdigits
    rw [hdigits, ofDigits_toDigits]

/-- Only zero itself is written with a zero in front. -/
theorem toDigits_eq_of_head {k : Nat}
    (h : (Nat.toDigits 10 k).head? = some '0') : Nat.toDigits 10 k = ['0'] := by
  induction k using Nat.strongRecOn with
  | ind k ih =>
      by_cases hlt : k < 10
      · rw [Nat.toDigits_of_lt_base hlt] at h ⊢
        exact congrArg (fun c => [c]) (Option.some.inj h)
      · have hdigits := Nat.toDigits_of_base_le (b := 10) (n := k)
          (by decide) (by omega)
        rw [hdigits, List.head?_append] at h
        rcases Option.or_eq_some_iff.1 h with h | ⟨hnone, -⟩
        · have hzero : k / 10 = 0 := by
            rw [← ofDigits_toDigits (k / 10), ih (k / 10) (by omega) h]
            rfl
          omega
        · exact absurd (List.head?_eq_none_iff.1 hnone) Nat.toDigits_ne_nil

def ofNat (k : Nat) : Written where
  negative := false
  whole := Nat.toDigits 10 k
  places := []
  nonempty := Nat.toDigits_ne_nil
  digits := by
    intro c hc
    rw [List.append_nil] at hc
    exact Nat.isDigit_of_mem_toDigits (by decide) (by decide) hc
  leading := toDigits_eq_of_head

end Written

end FileDigest
