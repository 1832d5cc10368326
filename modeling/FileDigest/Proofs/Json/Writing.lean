import FileDigest.Json.Writer
import FileDigest.Proofs.Json.Grammar

/-!
# What is written is JSON

The text that is written of a string is a string with just that text
(`writesString_writeText`), and an object that is written of values is a text of
the object with these values (`writes_writeObject`).
-/

namespace FileDigest.Json

/-! ## Strings -/

theorem hexDigit_hexDigit {n : Nat} (h : n < 16) :
    HexDigit (Bytes.hexDigit n) n := by
  have hall : ∀ k < 16, "0123456789abcdef".toList[k]? =
      some (Bytes.hexDigit k) := by decide
  exact Or.inl (hall n h)

/-- A character that is written is one part of a string, which stands for it. -/
theorem spells_writeChar (c : Char) {units : List Unit16} {cs : List Char}
    (h : Spells units cs) :
    ∃ part, (part = .char c ∨ part = .unit c.toNat) ∧
    Spells (part :: units) (writeChar c ++ cs) := by
  have hshort {letter : Char} (hletter : (letter, c) ∈ shortEscapes) :
      ∃ part, (part = .char c ∨ part = .unit c.toNat) ∧
        Spells (part :: units) (['\\', letter] ++ cs) :=
    ⟨.char c, Or.inl rfl, .escape hletter h⟩
  unfold writeChar
  iterate 7
    split
    · rename_i heq
      subst heq
      exact hshort (by decide)
  split
  · rename_i hcontrol
    have hlt : c.toNat < 32 := hcontrol
    have hunit := Spells.unit (hexDigit_hexDigit (by decide : 0 < 16))
      (hexDigit_hexDigit (by decide : 0 < 16))
        (hexDigit_hexDigit (by omega : c.toNat / 16 < 16))
      (hexDigit_hexDigit (by omega : c.toNat % 16 < 16)) h
    refine ⟨_, Or.inr ?_, hunit⟩
    congr 1
    omega
  · exact ⟨.char c, Or.inl rfl, .char ‹_› ‹_› (Char.not_lt.1 ‹_›) h⟩

/-- A text that is written is a string with just that text. -/
theorem writesString_writeText (s : String) :
    WritesString (some s) (writeText s) := by
  have hwritten : ∀ chars : List Char,
      ∃ units, Spells units (chars.flatMap writeChar) ∧
      StandsFor units chars := by
    intro chars
    induction chars with
    | nil => exact ⟨[], .nil, .nil⟩
    | cons c chars ih =>
        obtain ⟨units, hspells, hstands⟩ := ih
        obtain ⟨part, hpart, hspells⟩ := spells_writeChar c hspells
        refine ⟨part :: units, by rwa [List.flatMap_cons], ?_⟩
        rcases hpart with rfl | rfl
        · exact .char c hstands
        · exact .unit c hstands
  obtain ⟨units, hspells, hstands⟩ := hwritten s.toList
  exact .text hspells hstands

/-! ## Objects -/

theorem WritesName.of_string {name : Text} {cs : List Char}
    (h : WritesString name cs) : WritesName name cs := by
  have hname := WritesName.mk blanks_nil h blanks_nil
  rwa [List.nil_append, List.append_nil] at hname

theorem writeMembers_eq_intercalate (members : List (String × List Char)) :
    writeMembers members =
      [','].intercalate (members.map fun m => writeText m.1 ++ ':' :: m.2) := by
  induction members with
  | nil => rfl
  | cons m members ih =>
      cases members with
      | nil => exact List.intercalate_singleton.symm
      | cons m' members =>
          have hcons : writeMembers (m :: m' :: members) =
              writeText m.1 ++ ':' :: m.2 ++ ',' :: writeMembers
                (m' :: members) := rfl
          rw [hcons, ih]
          simp only [List.map_cons, List.intercalate_cons_cons,
            List.append_assoc, List.cons_append, List.nil_append]

/-- An object that is written has the values that are written in it, under their
names. -/
theorem writes_writeObject {fields : List (String × Value × List Char)}
    (h : ∀ f ∈ fields, Writes f.2.1 f.2.2) :
    Writes (.object (fields.map fun f => (some f.1, f.2.1)))
      (writeObject (fields.map fun f => (f.1, f.2.2))) := by
  by_cases hnonempty : fields = []
  · subst hnonempty
    exact .emptyObject blanks_nil
  let members := fields.map fun f =>
    Member.mk (some f.1) (writeText f.1) f.2.1 f.2.2
  have hnames : ∀ m ∈ members, WritesName m.name m.nameChars := by
    intro m hm
    obtain ⟨f, -, rfl⟩ := List.mem_map.1 hm
    exact .of_string (writesString_writeText f.1)
  have hvalues : ∀ m ∈ members, Writes m.value m.valueChars := by
    intro m hm
    obtain ⟨f, hf, rfl⟩ := List.mem_map.1 hm
    exact h f hf
  have hobject :=
    Writes.object (mt List.map_eq_nil_iff.1 hnonempty) hnames hvalues
  rw [List.map_map, List.map_map] at hobject
  rw [writeObject, writeMembers_eq_intercalate, List.map_map]
  exact hobject

end FileDigest.Json
