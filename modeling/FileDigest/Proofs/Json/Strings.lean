import FileDigest.Proofs.Json.Grammar

/-!
# Reading strings in JSON

A string is read in two passes: its parts are gathered up to the closing quote
(`stringParts_of_spells`), and then put together to a text. The second pass
finds a text exactly if the parts stand for one (`assemble_eq_some_iff`).
-/

namespace FileDigest.Json

/-! ## Hexadecimal digits -/

theorem lt_of_hexDigit {c : Char} {value : Nat} (h : HexDigit c value) :
    value < 16 := by
  rcases h with h | h <;> exact (List.getElem?_eq_some_iff.1 h).1

theorem hexValue?_of_hexDigit {c : Char} {value : Nat} (h : HexDigit c value) :
    Text.hexValue? c = some value := by
  have hall : ∀ k < 16, ("0123456789abcdef".toList[k]?.bind Text.hexValue?) =
      some k ∧
      ("0123456789ABCDEF".toList[k]?.bind Text.hexValue?) = some k := by decide
  have hvalue := hall value (lt_of_hexDigit h)
  rcases h with h | h
  · rw [← hvalue.1, h, Option.bind_some]
  · rw [← hvalue.2, h, Option.bind_some]

/-! ## The parts of a string -/

theorem stringParts_char {c : Char} (hquote : c ≠ '"') (hslash : c ≠ '\\')
    (hcontrol : ' ' ≤ c) (rest : List Char) :
    stringParts (c :: rest) =
      (stringParts rest).map fun (parts, left) => (.char c :: parts, left) := by
  rw [stringParts.eq_def]
  split
  · rename_i heq
    cases heq
  · rename_i heq
    exact absurd (List.cons.inj heq).1 hquote
  · rename_i heq
    exact absurd (List.cons.inj heq).1 hslash
  · rename_i heq
    exact absurd (List.cons.inj heq).1 hslash
  · rename_i heq
    obtain ⟨rfl, rfl⟩ := List.cons.inj heq
    rw [if_neg]
    rintro (rfl | hlt)
    · exact hslash rfl
    · exact absurd hlt (Char.not_lt.2 hcontrol)

theorem stringParts_escape {letter c : Char} (h : (letter, c) ∈ shortEscapes)
    (rest : List Char) :
    stringParts ('\\' :: letter :: rest) =
      (stringParts rest).map fun (parts, left) => (.char c :: parts, left) := by
  simp only [shortEscapes, List.mem_cons, Prod.mk.injEq, List.not_mem_nil,
    or_false] at h
  rcases h with ⟨rfl, rfl⟩ | ⟨rfl, rfl⟩ | ⟨rfl, rfl⟩ | ⟨rfl, rfl⟩ |
    ⟨rfl, rfl⟩ | ⟨rfl, rfl⟩ |
    ⟨rfl, rfl⟩ | ⟨rfl, rfl⟩ <;> rfl

theorem stringParts_of_spells {units : List Unit16} {cs : List Char}
    (h : Spells units cs) (rest : List Char) : stringParts (cs ++ '"' :: rest) =
      some (units, rest) := by
  induction h with
  | nil => rfl
  | char hquote hslash hcontrol _ ih =>
      rw [List.cons_append, stringParts_char hquote hslash hcontrol, ih,
        Option.map_some]
  | escape hletter _ ih =>
      rw [List.cons_append, List.cons_append, stringParts_escape hletter, ih,
        Option.map_some]
  | unit ha hb hc hd _ ih =>
      simp only [List.cons_append, stringParts, hexValue?_of_hexDigit ha,
        hexValue?_of_hexDigit hb, hexValue?_of_hexDigit hc,
        hexValue?_of_hexDigit hd, ih, Option.map_some]

/-! ## The text of a string -/

theorem toNat_char (c : Char) : c.toNat < 0xd800 ∨ 0xe000 ≤ c.toNat := by
  rcases c.valid with h | h
  · exact Or.inl h
  · exact Or.inr h.1

theorem assemble_unit {n : Nat} (h : n < 0xd800 ∨ 0xe000 ≤ n)
    (units : List Unit16) :
    assemble (.unit n :: units) = (assemble units).map (Char.ofNat n :: ·) := by
  rw [assemble.eq_def]
  dsimp only
  rw [if_neg (by omega), if_neg (by omega)]

theorem assemble_pair {high low : Nat} (hhigh : 0xd800 ≤ high ∧ high < 0xdc00)
    (hlow : 0xdc00 ≤ low ∧ low < 0xe000) (units : List Unit16) :
    assemble (.unit high :: .unit low :: units) =
      (assemble units).map
        (Char.ofNat (0x10000 + (high - 0xd800) * 0x400 + (low - 0xdc00)) ::
          ·) := by
  rw [assemble, if_pos hhigh, if_pos hlow]

theorem assemble_of_standsFor {units : List Unit16} {chars : List Char}
    (h : StandsFor units chars) : assemble units = some chars := by
  induction h with
  | nil => rfl
  | char c _ ih => rw [assemble, ih, Option.map_some]
  | unit c _ ih =>
      rw [assemble_unit (toNat_char c), ih, Option.map_some, Char.ofNat_toNat]
  | pair hhigh hlow hc _ ih =>
      rw [assemble_pair hhigh hlow, ih, Option.map_some, ← hc, Char.ofNat_toNat]

theorem lt_of_mem_of_spells {units : List Unit16} {cs : List Char}
    (h : Spells units cs) {n : Nat} (hn : .unit n ∈ units) : n < 0x10000 := by
  induction h with
  | nil => cases hn
  | char _ _ _ _ ih =>
      rcases List.mem_cons.1 hn with heq | hn
      · cases heq
      · exact ih hn
  | escape _ _ ih =>
      rcases List.mem_cons.1 hn with heq | hn
      · cases heq
      · exact ih hn
  | unit ha hb hc hd _ ih =>
      rcases List.mem_cons.1 hn with heq | hn
      · cases heq
        have hk := lt_of_hexDigit ha
        have hl := lt_of_hexDigit hb
        have hm := lt_of_hexDigit hc
        have hn := lt_of_hexDigit hd
        omega
      · exact ih hn

theorem toNat_ofNat {n : Nat} (h : n < 0xd800 ∨ 0xe000 ≤ n)
    (hlt : n < 0x110000) : (Char.ofNat n).toNat = n := by
  have hvalid : n.isValidChar := h.imp id fun h => ⟨by omega, hlt⟩
  rw [Char.ofNat, dif_pos hvalid]
  rfl

theorem standsFor_of_assemble {units : List Unit16} {chars : List Char}
    (hunits : ∀ n, .unit n ∈ units → n < 0x10000)
    (h : assemble units = some chars) : StandsFor units chars := by
  fun_induction assemble units generalizing chars with
  | case1 =>
      cases h
      exact .nil
  | case2 c units ih =>
      obtain ⟨chars, hchars, rfl⟩ := Option.map_eq_some_iff.1 h
      exact .char c
        (ih (fun n hn => hunits n (List.mem_cons_of_mem _ hn)) hchars)
  | case3 high hhigh low units hlow ih =>
      obtain ⟨chars, hchars, rfl⟩ := Option.map_eq_some_iff.1 h
      have hunits' : ∀ n, .unit n ∈ units → n < 0x10000 := fun n hn =>
        hunits n (List.mem_cons_of_mem _ (List.mem_cons_of_mem _ hn))
      exact .pair hhigh hlow (toNat_ofNat (by omega) (by omega))
        (ih hunits' hchars)
  | case4 | case5 | case6 => cases h
  | case7 n units hhigh hlow ih =>
      obtain ⟨chars, hchars, rfl⟩ := Option.map_eq_some_iff.1 h
      have hn := hunits n List.mem_cons_self
      have hstands :=
        ih (fun n hn => hunits n (List.mem_cons_of_mem _ hn)) hchars
      have hunit := StandsFor.unit (Char.ofNat n) hstands
      rwa [toNat_ofNat (by omega) (by omega)] at hunit

/-- The parts of a string are put together to what they stand for, if that is
anything. -/
theorem assemble_eq_some_iff {units : List Unit16} {cs : List Char}
    (h : Spells units cs) {chars : List Char} : assemble units = some chars ↔
    StandsFor units chars :=
  ⟨standsFor_of_assemble fun _ => lt_of_mem_of_spells h, assemble_of_standsFor⟩

theorem readString_of_writesString {t : Text} {cs : List Char}
    (h : WritesString t cs) (rest : List Char) :
    ∃ body, cs = '"' :: body ∧ readString (body ++ rest) = some (t, rest) := by
  have hread {units : List Unit16} {cs : List Char}
      (hspells : Spells units cs) :
      readString ((cs ++ ['"']) ++ rest) =
        some ((assemble units).map String.ofList, rest) := by
    rw [List.append_assoc, List.singleton_append, readString,
      stringParts_of_spells hspells, Option.map_some]
  cases h with
  | text hspells hstands =>
      refine ⟨_, rfl, ?_⟩
      rw [hread hspells, assemble_of_standsFor hstands, Option.map_some,
        String.ofList_toList]
  | @torn units cs hspells hstands =>
      have hnone : assemble units = none := by
        rw [Option.eq_none_iff_forall_ne_some]
        exact fun chars hchars =>
          hstands chars ((assemble_eq_some_iff hspells).1 hchars)
      exact ⟨_, rfl, by rw [hread hspells, hnone, Option.map_none]⟩

end FileDigest.Json
