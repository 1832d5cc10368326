import FileDigest.Proofs.Json.Numbers
import FileDigest.Proofs.Json.Strings

/-!
# Reading the texts of the grammar

Every text of the grammar is read as the value it is a text of
(`read?_of_writes`), whatever blanks stand in it and however deep it is nested.
The induction is on how the text is put together. It carries along what may
stand behind a value, and that two steps for each character are enough
(`ReadsAs`).
-/

namespace FileDigest.Json

open Decimal

/-! ## Blanks -/

theorem isBlank_iff {c : Char} : isBlank c = true ↔
    c ∈ [' ', '\t', '\n', '\r'] := by
  simp [isBlank, or_assoc]

theorem skipBlanks_append {cs : List Char} (h : Blanks cs) (rest : List Char) :
    skipBlanks (cs ++ rest) = skipBlanks rest :=
  List.dropWhile_append_of_pos fun c hc => isBlank_iff.2 (h c hc)

theorem skipBlanks_skipBlanks (cs : List Char) : skipBlanks (skipBlanks cs) =
    skipBlanks cs := by
  induction cs with
  | nil => rfl
  | cons c cs ih =>
      cases hc : isBlank c with
      | true => rwa [skipBlanks_cons_of_isBlank hc]
      | false =>
          rw [skipBlanks_cons_of_not_isBlank hc,
            skipBlanks_cons_of_not_isBlank hc]

theorem readValue_congr {cs cs' : List Char}
    (h : skipBlanks cs = skipBlanks cs') (bound : Nat) :
    readValue bound cs = readValue bound cs' := by
  cases bound with
  | zero => rw [readValue, readValue]
  | succ bound => rw [readValue, readValue, h]

theorem readItems_congr {cs cs' : List Char}
    (h : skipBlanks cs = skipBlanks cs') (bound : Nat) :
    readItems bound cs = readItems bound cs' := by
  cases bound with
  | zero => rw [readItems, readItems]
  | succ bound => rw [readItems, readItems, readValue_congr h]

theorem readMembers_congr {cs cs' : List Char}
    (h : skipBlanks cs = skipBlanks cs') (bound : Nat) :
    readMembers bound cs = readMembers bound cs' := by
  cases bound with
  | zero => rw [readMembers, readMembers]
  | succ bound => rw [readMembers, readMembers, h]

/-! ## What stands behind a value -/

def EndsValue (rest : List Char) : Prop :=
  ∀ c ∈ rest.head?, c ∈ [' ', '\t', '\n', '\r', ',', ']', '\x7d']

theorem EndsValue.endsNumber {rest : List Char} (h : EndsValue rest) :
    EndsNumber rest := by
  intro c hc
  have hmem := h c hc
  simp only [List.mem_cons, List.not_mem_nil, or_false] at hmem
  rcases hmem with rfl | rfl | rfl | rfl | rfl | rfl | rfl <;> decide

theorem EndsValue.blanks_append {cs rest : List Char} (h : EndsValue rest)
    (hcs : Blanks cs) : EndsValue (cs ++ rest) := by
  cases cs with
  | nil => exact h
  | cons c cs =>
      rintro _ ⟨⟩
      exact List.mem_append_left [',', ']', '\x7d'] (hcs c List.mem_cons_self)

theorem endsValue_comma (rest : List Char) : EndsValue (',' :: rest) := by
  rintro _ ⟨⟩
  decide

theorem endsValue_bracket (rest : List Char) : EndsValue (']' :: rest) := by
  rintro _ ⟨⟩
  decide

theorem endsValue_brace (rest : List Char) : EndsValue ('\x7d' :: rest) := by
  rintro _ ⟨⟩
  decide

/-- The characters are read as the value, with nothing but blanks taken of what
stands behind it. -/
def ReadsAs (v : Value) (cs : List Char) : Prop :=
  ∀ bound rest, 2 * cs.length ≤ bound → EndsValue rest →
    ∃ left, readValue bound (cs ++ rest) = some (v, left) ∧ skipBlanks left =
      skipBlanks rest

/-- It is enough that a value with something in it is read with any step
left. -/
theorem readsAs_of_readValue {v : Value} {cs : List Char} (hnonempty : cs ≠ [])
    (h : ∀ bound rest, EndsValue rest → readValue (bound + 1) (cs ++ rest) =
      some (v, rest)) :
    ReadsAs v cs := by
  intro bound rest hbound hrest
  have hpos : 0 < cs.length := List.length_pos_iff.2 hnonempty
  obtain ⟨bound, rfl⟩ : ∃ b, bound = b + 1 := ⟨bound - 1, by omega⟩
  exact ⟨rest, h bound rest hrest, rfl⟩

/-! ## Numbers and strings -/

/-- A number is told from all other values by what it begins with. -/
theorem readValue_number (n : Written) (bound : Nat) (rest : List Char) :
    readValue (bound + 1) (n.text ++ rest) =
      (readNumber (n.text ++ rest)).map fun (n, left) => (.number n, left) := by
  have hne {c : Char} (hc : isDigit c = false) (hminus : c ≠ '-')
      (cs : List Char) :=
    n.text_append_ne_cons hc hminus rest cs
  have hblanks : skipBlanks (n.text ++ rest) = n.text ++ rest := by
    apply n.dropWhile_text
    intro c hc
    rw [isBlank_iff] at hc
    simp only [List.mem_cons, List.not_mem_nil, or_false] at hc
    rcases hc with rfl | rfl | rfl | rfl <;> decide
  rw [readValue, hblanks]
  split
  · exact absurd ‹_› (hne (by decide) (by decide) _)
  · exact absurd ‹_› (hne (by decide) (by decide) _)
  · exact absurd ‹_› (hne (by decide) (by decide) _)
  · exact absurd ‹_› (hne (by decide) (by decide) _)
  · exact absurd ‹_› (hne (by decide) (by decide) _)
  · exact absurd ‹_› (hne (by decide) (by decide) _)
  · rfl

theorem readsAs_number {n : Numeral} {cs : List Char} (h : WritesNumber n cs) :
    ReadsAs (.number n) cs := by
  have hread {rest : List Char} (hrest : EndsValue rest) :=
    readNumber_of_writesNumber h hrest.endsNumber
  obtain ⟨n, -⟩ := h
  rename_i exponent cs
  have hnonempty : n.text ++ cs ≠ [] := by
    obtain ⟨c, ds, htext, -⟩ := n.exists_text_cons
    rw [htext]
    exact List.cons_ne_nil _ _
  refine readsAs_of_readValue hnonempty fun bound rest hrest => ?_
  have hread := hread hrest
  rw [List.append_assoc] at hread ⊢
  rw [readValue_number, hread, Option.map_some]

theorem readsAs_text {t : Text} {cs : List Char} (h : WritesString t cs) :
    ReadsAs (.text t) cs := by
  obtain ⟨body, rfl, -⟩ := readString_of_writesString h []
  refine readsAs_of_readValue (List.cons_ne_nil _ _) fun bound rest _ => ?_
  obtain ⟨body', hbody, hread⟩ := readString_of_writesString h rest
  obtain rfl := (List.cons.inj hbody).2
  show (readString (body ++ rest)).map _ = _
  rw [hread, Option.map_some]

/-! ## Arrays -/

theorem readItems_last {bound : Nat} {cs left rest : List Char} {v : Value}
    (h : readValue bound cs = some (v, left))
    (hleft : skipBlanks left = ']' :: rest) :
    readItems (bound + 1) cs = some ([v], rest) := by
  rw [readItems, h]
  simp only [hleft]

theorem readItems_more {bound : Nat} {cs left rest : List Char} {v : Value}
    (h : readValue bound cs = some (v, left))
    (hleft : skipBlanks left = ',' :: rest) :
    readItems (bound + 1) cs =
      (readItems bound rest).map fun (items, left) => (v :: items, left) := by
  rw [readItems, h]
  simp only [hleft]

theorem readItems_of_readsAs {items : List (Value × List Char)}
    (hnonempty : items ≠ []) (h : ∀ i ∈ items, ReadsAs i.1 i.2)
    (rest : List Char) (bound : Nat)
    (hbound : 2 * ([','].intercalate (items.map (·.2))).length + 2 ≤ bound) :
    readItems bound ([','].intercalate (items.map (·.2)) ++ ']' :: rest) =
      some (items.map (·.1), rest) := by
  induction items generalizing bound with
  | nil => exact absurd rfl hnonempty
  | cons i items ih =>
      obtain ⟨bound, rfl⟩ : ∃ b, bound = b + 1 := ⟨bound - 1, by omega⟩
      have hi := h i List.mem_cons_self
      cases items with
      | nil =>
          simp only [List.map_cons, List.map_nil, List.intercalate_singleton]
            at hbound ⊢
          obtain ⟨left, hread, hleft⟩ :=
            hi bound (']' :: rest) (by omega) (endsValue_bracket rest)
          exact readItems_last hread hleft
      | cons j items =>
          have ih := ih (List.cons_ne_nil _ _) (fun k hk =>
            h k (List.mem_cons_of_mem i hk)) bound
          simp only [List.map_cons, List.intercalate_cons_cons,
            List.length_append, List.length_cons, List.append_assoc,
            List.cons_append, List.nil_append] at hbound ih ⊢
          obtain ⟨left, hread, hleft⟩ :=
            hi bound _ (by omega) (endsValue_comma _)
          rw [readItems_more hread hleft, ih (by omega), Option.map_some]

theorem readItems_bracket {bound : Nat} {cs rest : List Char}
    (h : skipBlanks cs = ']' :: rest) : readItems bound cs = none := by
  have hnone (bound : Nat) : readValue bound (']' :: rest) = none := by
    cases bound with
    | zero => rw [readValue]
    | succ bound => rfl
  have hskip : skipBlanks (']' :: rest) = ']' :: rest := rfl
  cases bound with
  | zero => rw [readItems]
  | succ bound => rw [readItems, readValue_congr (h.trans hskip.symm), hnone]

theorem readValue_array {bound : Nat} {cs rest : List Char} {items : List Value}
    (h : readItems bound cs = some (items, rest)) :
    readValue (bound + 1) ('[' :: cs) = some (.array items, rest) := by
  have hread : readItems bound (skipBlanks cs) = some (items, rest) :=
    (readItems_congr (skipBlanks_skipBlanks cs) bound).trans h
  have hskip : skipBlanks ('[' :: cs) = '[' :: cs := rfl
  rw [readValue]
  simp only [hskip]
  split
  · rename_i hclose
    rw [readItems_bracket hclose] at h
    cases h
  · rw [hread, Option.map_some]

/-! ## Objects -/

theorem readString_of_writesName {name : Text} {cs : List Char}
    (h : WritesName name cs) (rest : List Char) :
    ∃ body left, skipBlanks (cs ++ ':' :: rest) = '"' :: body ∧
    readString body = some (name, left) ∧
      skipBlanks left = ':' :: rest := by
  obtain ⟨hbefore, hname, hafter⟩ := h
  rename_i before after cs
  obtain ⟨body, rfl, hread⟩ :=
    readString_of_writesString hname (after ++ ':' :: rest)
  refine ⟨_, _, ?_, hread, skipBlanks_append hafter _⟩
  rw [List.append_assoc, skipBlanks_append hbefore, List.append_assoc]
  rfl

theorem readMembers_last {bound : Nat} {name : Text}
    {nameChars cs left rest : List Char} {v : Value}
    (hname : WritesName name nameChars)
    (h : readValue bound cs = some (v, left))
    (hleft : skipBlanks left = '\x7d' :: rest) :
    readMembers (bound + 1) (nameChars ++ ':' :: cs) =
      some ([(name, v)], rest) := by
  obtain ⟨body, behind, hbody, hstring, hbehind⟩ :=
    readString_of_writesName hname cs
  rw [readMembers]
  simp only [hbody, hstring, hbehind, h, hleft]

theorem readMembers_more {bound : Nat} {name : Text}
    {nameChars cs left rest : List Char} {v : Value}
    (hname : WritesName name nameChars)
    (h : readValue bound cs = some (v, left))
    (hleft : skipBlanks left = ',' :: rest) :
    readMembers (bound + 1) (nameChars ++ ':' :: cs) =
      (readMembers bound rest).map fun (members, left) =>
        ((name, v) :: members, left) := by
  obtain ⟨body, behind, hbody, hstring, hbehind⟩ :=
    readString_of_writesName hname cs
  rw [readMembers]
  simp only [hbody, hstring, hbehind, h, hleft]

theorem readMembers_of_readsAs {members : List Member}
    (hnonempty : members ≠ [])
    (hnames : ∀ m ∈ members, WritesName m.name m.nameChars)
    (h : ∀ m ∈ members, ReadsAs m.value m.valueChars) (rest : List Char)
    (bound : Nat)
    (hbound : 2 * ([','].intercalate (members.map Member.chars)).length + 2 ≤
      bound) :
    readMembers bound ([','].intercalate (members.map Member.chars) ++
      '\x7d' :: rest) =
      some (members.map Member.entry, rest) := by
  induction members generalizing bound with
  | nil => exact absurd rfl hnonempty
  | cons m members ih =>
      obtain ⟨bound, rfl⟩ : ∃ b, bound = b + 1 := ⟨bound - 1, by omega⟩
      have hname := hnames m List.mem_cons_self
      have hm := h m List.mem_cons_self
      cases members with
      | nil =>
          simp only [List.map_cons, List.map_nil, List.intercalate_singleton,
            Member.chars, List.length_append, List.length_cons,
            List.append_assoc, List.cons_append] at hbound ⊢
          obtain ⟨left, hread, hleft⟩ :=
            hm bound ('\x7d' :: rest) (by omega) (endsValue_brace rest)
          exact readMembers_last hname hread hleft
      | cons m' members =>
          have ih := ih (List.cons_ne_nil _ _) (fun k hk =>
            hnames k (List.mem_cons_of_mem m hk))
            (fun k hk => h k (List.mem_cons_of_mem m hk)) bound
          simp only [List.map_cons, List.intercalate_cons_cons, Member.chars,
            List.length_append, List.length_cons, List.append_assoc,
            List.cons_append, List.nil_append] at hbound ih ⊢
          obtain ⟨left, hread, hleft⟩ :=
            hm bound _ (by omega) (endsValue_comma _)
          rw [readMembers_more hname hread hleft, ih (by omega),
            Option.map_some]
          rfl

theorem readMembers_brace {bound : Nat} {cs rest : List Char}
    (h : skipBlanks cs = '\x7d' :: rest) : readMembers bound cs = none := by
  cases bound with
  | zero => rw [readMembers]
  | succ bound =>
      rw [readMembers]
      simp only [h]
      rfl

theorem readValue_object {bound : Nat} {cs rest : List Char}
    {members : List (Text × Value)}
    (h : readMembers bound cs = some (members, rest)) :
    readValue (bound + 1) ('\x7b' :: cs) = some (.object members, rest) := by
  have hread : readMembers bound (skipBlanks cs) = some (members, rest) :=
    (readMembers_congr (skipBlanks_skipBlanks cs) bound).trans h
  have hskip : skipBlanks ('\x7b' :: cs) = '\x7b' :: cs := rfl
  rw [readValue]
  simp only [hskip]
  split
  · rename_i hclose
    rw [readMembers_brace hclose] at h
    cases h
  · rw [hread, Option.map_some]

/-! ## Values -/

/-- What is written is read, by induction on how it is written. -/
theorem readsAs_of_writes {v : Value} {cs : List Char} (h : Writes v cs) :
    ReadsAs v cs := by
  induction h with
  | null => exact readsAs_of_readValue (List.cons_ne_nil _ _) fun _ _ _ => rfl
  | trueWord =>
      exact readsAs_of_readValue (List.cons_ne_nil _ _) fun _ _ _ => rfl
  | falseWord =>
      exact readsAs_of_readValue (List.cons_ne_nil _ _) fun _ _ _ => rfl
  | number h => exact readsAs_number h
  | text h => exact readsAs_text h
  | @emptyArray cs h =>
      refine readsAs_of_readValue (List.cons_ne_nil _ _) fun bound rest _ => ?_
      have hclose : skipBlanks (cs ++ [']'] ++ rest) = ']' :: rest := by
        rw [List.append_assoc, skipBlanks_append h]
        rfl
      have hskip : skipBlanks ('[' :: (cs ++ [']'] ++ rest)) =
          '[' :: (cs ++ [']'] ++ rest) := rfl
      rw [List.cons_append, readValue]
      simp only [hskip, hclose]
  | @array items hnonempty _ ih =>
      intro bound rest hbound _
      rw [List.length_cons, List.length_append, List.length_singleton] at hbound
      obtain ⟨bound, rfl⟩ : ∃ b, bound = b + 1 := ⟨bound - 1, by omega⟩
      have hread := readItems_of_readsAs hnonempty ih rest bound (by omega)
      refine ⟨rest, ?_, rfl⟩
      rw [List.cons_append, List.append_assoc, List.singleton_append]
      exact readValue_array hread
  | @emptyObject cs h =>
      refine readsAs_of_readValue (List.cons_ne_nil _ _) fun bound rest _ => ?_
      have hclose : skipBlanks (cs ++ ['\x7d'] ++ rest) = '\x7d' :: rest := by
        rw [List.append_assoc, skipBlanks_append h]
        rfl
      have hskip : skipBlanks ('\x7b' :: (cs ++ ['\x7d'] ++ rest)) =
          '\x7b' :: (cs ++ ['\x7d'] ++ rest) := rfl
      rw [List.cons_append, readValue]
      simp only [hskip, hclose]
  | @object members hnonempty hnames _ ih =>
      intro bound rest hbound _
      rw [List.length_cons, List.length_append, List.length_singleton] at hbound
      obtain ⟨bound, rfl⟩ : ∃ b, bound = b + 1 := ⟨bound - 1, by omega⟩
      have hread :=
        readMembers_of_readsAs hnonempty hnames ih rest bound (by omega)
      refine ⟨rest, ?_, rfl⟩
      rw [List.cons_append, List.append_assoc, List.singleton_append]
      exact readValue_object hread
  | @padded v before cs after hbefore _ hafter ih =>
      intro bound rest hbound hrest
      rw [List.length_append, List.length_append] at hbound
      obtain ⟨left, hread, hleft⟩ :=
        ih bound (after ++ rest) (by omega) (hrest.blanks_append hafter)
      refine ⟨left, ?_, hleft.trans (skipBlanks_append hafter rest)⟩
      rw [List.append_assoc, List.append_assoc]
      exact (readValue_congr (skipBlanks_append hbefore _) bound).trans hread

/-- A text of the grammar is read as the value it is a text of. -/
theorem read?_of_writes {v : Value} {s : String} (h : Writes v s.toList) :
    read? s = some v := by
  obtain ⟨left, hread, hleft⟩ :=
    readsAs_of_writes h (2 * s.toList.length + 2) [] (by omega)
      (by simp [EndsValue])
  rw [List.append_nil] at hread
  unfold read?
  simp only [hread, hleft, skipBlanks_nil, List.isEmpty_nil, if_true]

end FileDigest.Json
