import FileDigest.Proofs.Json.Reading
import Mathlib.Data.List.TakeWhile

/-!
# What is read is a text of the grammar

Every reader takes a text of the grammar from where it starts and leaves what
stands behind it (`Takes`). So reading accepts the texts of the grammar and no
others (`read?_eq_some_iff`). The blanks in front of a value are taken with it,
and those behind it with it as well, as soon as the reader of what it stands in
has passed over them.
-/

namespace FileDigest.Json

open Decimal

/-- The characters begin with a text of the thing, and the others are left. -/
def Takes {α : Type} (writes : α → List Char → Prop) (a : α)
    (cs left : List Char) : Prop :=
  ∃ chars, writes a chars ∧ cs = chars ++ left

/-! ## Strings -/

theorem hexDigit_of_hexValue? {c : Char} {value : Nat}
    (h : Text.hexValue? c = some value) : HexDigit c value := by
  have hall : ∀ n < 128, ∀ value ∈ Text.hexValue? (Char.ofNat n),
      "0123456789abcdef".toList[value]? = some (Char.ofNat n) ∨
        "0123456789ABCDEF".toList[value]? = some (Char.ofNat n) := by
          decide +kernel
  have hbound {low high : Char}
      (hc : (decide (low ≤ c) && decide (c ≤ high)) = true) :
      c.toNat ≤ high.toNat :=
    of_decide_eq_true (Bool.and_eq_true_iff.1 hc).2
  have hlt : c.toNat < 128 := by
    have hvalue := h
    unfold Text.hexValue? at hvalue
    split at hvalue
    · exact Nat.lt_of_le_of_lt (hbound ‹_›) (by decide)
    · split at hvalue
      · exact Nat.lt_of_le_of_lt (hbound ‹_›) (by decide)
      · split at hvalue
        · exact Nat.lt_of_le_of_lt (hbound ‹_›) (by decide)
        · cases hvalue
  have hdigit := hall c.toNat hlt
  rw [Char.ofNat_toNat] at hdigit
  exact hdigit value h

theorem mem_shortEscapes_of_shortEscape? {letter c : Char}
    (h : shortEscape? letter = some c) : (letter, c) ∈ shortEscapes := by
  unfold shortEscape? at h
  iterate 8
    split at h
    · rename_i heq
      subst heq
      obtain rfl := Option.some.inj h
      decide
  cases h

theorem spells_of_stringParts {cs left : List Char} {units : List Unit16}
    (h : stringParts cs = some (units, left)) :
    ∃ body, Spells units body ∧ cs = body ++ '"' :: left := by
  fun_induction stringParts cs generalizing units with
  | case1 | case4 | case6 | case7 => cases h
  | case2 rest =>
      cases h
      exact ⟨[], .nil, rfl⟩
  | case3 a b c d rest k l m n hd hc hb ha ih =>
      obtain ⟨⟨units, left⟩, hrest, heq⟩ := Option.map_eq_some_iff.1 h
      cases heq
      obtain ⟨body, hspells, rfl⟩ := ih hrest
      exact ⟨_, .unit (hexDigit_of_hexValue? ha) (hexDigit_of_hexValue? hb)
        (hexDigit_of_hexValue? hc) (hexDigit_of_hexValue? hd) hspells, rfl⟩
  | case5 letter rest _ c hletter ih =>
      obtain ⟨⟨units, left⟩, hrest, heq⟩ := Option.map_eq_some_iff.1 h
      cases heq
      obtain ⟨body, hspells, rfl⟩ := ih hrest
      exact ⟨_, .escape (mem_shortEscapes_of_shortEscape? hletter) hspells, rfl⟩
  | case8 c rest hquote _ _ hplain ih =>
      obtain ⟨⟨units, left⟩, hrest, heq⟩ := Option.map_eq_some_iff.1 h
      cases heq
      obtain ⟨body, hspells, rfl⟩ := ih hrest
      rw [not_or, Char.not_lt] at hplain
      exact ⟨_, .char hquote hplain.1 hplain.2 hspells, rfl⟩

theorem takes_of_readString {t : Text} {cs left : List Char}
    (h : readString cs = some (t, left)) :
    Takes WritesString t ('"' :: cs) left := by
  obtain ⟨⟨units, left⟩, hparts, heq⟩ := Option.map_eq_some_iff.1 h
  cases heq
  obtain ⟨body, hspells, rfl⟩ := spells_of_stringParts hparts
  refine ⟨'"' :: (body ++ ['"']), ?_, by simp⟩
  cases hchars : assemble units with
  | none =>
      refine .torn hspells fun chars hstands => ?_
      rw [assemble_of_standsFor hstands] at hchars
      cases hchars
  | some chars =>
      refine .text hspells ?_
      rw [String.toList_ofList]
      exact (assemble_eq_some_iff hspells).1 hchars

/-! ## Numbers -/

theorem takeDigits_eq {cs digits left : List Char}
    (h : takeDigits cs = (digits, left)) :
    cs = digits ++ left ∧ ∀ c ∈ digits, isDigit c = true := by
  obtain ⟨rfl, rfl⟩ := Prod.mk.inj h
  exact ⟨List.takeWhile_append_dropWhile.symm, fun c hc =>
    List.mem_takeWhile_imp hc⟩

theorem readExponentDigits_eq_some {negative : Bool} {cs left : List Char}
    {exponent : Option (Bool × List Char)}
    (h : readExponentDigits negative cs = some (exponent, left)) :
    ∃ digits, exponent = some (negative, digits) ∧ digits ≠ [] ∧
      (∀ c ∈ digits, isDigit c = true) ∧ cs = digits ++ left := by
  unfold readExponentDigits at h
  split at h
  rename_i digits left' htake
  obtain ⟨hcs, hdigits⟩ := takeDigits_eq htake
  split at h
  · cases h
  · rename_i hempty
    cases h
    exact ⟨digits, rfl, mt List.isEmpty_iff.2 hempty, hdigits, hcs⟩

theorem takes_of_readExponent {exponent : Option (Bool × List Char)}
    {cs left : List Char} (h : readExponent cs = some (exponent, left)) :
    Takes WritesExponent exponent cs left := by
  cases cs with
  | nil =>
      cases h
      exact ⟨[], .none, rfl⟩
  | cons letter cs =>
      by_cases hletter : letter = 'e' ∨ letter = 'E'
      · -- The digits follow the sign, if there is one.
        have hsigned {negative : Bool} {rest : List Char} (sign : List Char)
            (hsign : (negative, sign) ∈ exponentSigns) (hcs : cs = sign ++ rest)
            (hread : readExponentDigits negative rest = some (exponent, left)) :
            Takes WritesExponent exponent (letter :: cs) left := by
          obtain ⟨digits, rfl, hnonempty, hdigits, rfl⟩ :=
            readExponentDigits_eq_some hread
          refine ⟨_, .some hletter hsign hnonempty hdigits, ?_⟩
          rw [hcs, List.cons_append, List.append_assoc]
        rw [readExponent_cons hletter] at h
        split at h
        · exact hsigned ['+'] (by decide) rfl h
        · exact hsigned ['-'] (by decide) rfl h
        · exact hsigned [] (by decide) rfl h
      · have hnone : readExponent (letter :: cs) = some (none, letter :: cs) :=
          if_neg hletter
        rw [hnone] at h
        cases h
        exact ⟨[], .none, rfl⟩

theorem readFraction_eq_some {places cs left : List Char}
    (h : readFraction cs = some (places, left)) :
    (∀ c ∈ places, isDigit c = true) ∧
      cs = (if places = [] then [] else '.' :: places) ++ left := by
  unfold readFraction at h
  split at h
  · split at h
    rename_i digits left' htake
    obtain ⟨rfl, hdigits⟩ := takeDigits_eq htake
    split at h
    · cases h
    · rename_i hempty
      cases h
      rw [if_neg (mt List.isEmpty_iff.2 hempty)]
      exact ⟨hdigits, rfl⟩
  · cases h
    exact ⟨by simp, rfl⟩

theorem takes_of_readNumber {n : Numeral} {cs left : List Char}
    (h : readNumber cs = some (n, left)) : Takes WritesNumber n cs left := by
  unfold readNumber at h
  split at h
  rename_i negative body hsign
  have hcs : cs = (if negative then ['-'] else []) ++ body := by
    split at hsign
    · cases hsign
      rfl
    · cases hsign
      rfl
  split at h
  rename_i whole rest htake
  obtain ⟨rfl, hwhole⟩ := takeDigits_eq htake
  split at h
  · cases h
  rename_i hleading
  rw [not_or, not_and_or, not_not] at hleading
  split at h
  · cases h
  rename_i places rest hfraction
  obtain ⟨hplaces, rfl⟩ := readFraction_eq_some hfraction
  split at h
  · cases h
  rename_i exponent left hexponent
  obtain ⟨chars, hchars, rfl⟩ := takes_of_readExponent hexponent
  cases h
  let n : Written := {
    negative, whole, places
    nonempty := mt List.isEmpty_iff.2 hleading.1
    digits := fun c hc => (List.mem_append.1 hc).elim (hwhole c) (hplaces c)
    leading := fun hhead => hleading.2.resolve_left fun hne => hne hhead }
  have htext : n.text = (if negative then ['-'] else []) ++
      (whole ++ if places = [] then [] else '.' :: places) := by
    cases negative with
    | false => rfl
    | true => rfl
  refine ⟨n.text ++ chars, .mk n hchars, ?_⟩
  rw [hcs, htext]
  simp only [List.append_assoc]

/-! ## Values -/

theorem blanks_takeWhile (cs : List Char) : Blanks (cs.takeWhile isBlank) :=
  fun _ hc => isBlank_iff.1 (List.mem_takeWhile_imp hc)

theorem takeWhile_append_skipBlanks (cs : List Char) :
    cs.takeWhile isBlank ++ skipBlanks cs = cs :=
  List.takeWhile_append_dropWhile

theorem Takes.of_skipBlanks {v : Value} {cs left : List Char}
    (h : Takes Writes v (skipBlanks cs) left) : Takes Writes v cs left := by
  obtain ⟨chars, hchars, hcs⟩ := h
  refine ⟨cs.takeWhile isBlank ++ (chars ++ []),
    .padded (blanks_takeWhile cs) hchars blanks_nil, ?_⟩
  rw [List.append_nil, List.append_assoc, ← hcs, takeWhile_append_skipBlanks]

/-- A value is taken with the blanks behind it. -/
theorem Takes.skipBlanks_left {v : Value} {cs left : List Char}
    (h : Takes Writes v cs left) : Takes Writes v cs (skipBlanks left) := by
  obtain ⟨chars, hchars, rfl⟩ := h
  refine ⟨[] ++ (chars ++ left.takeWhile isBlank),
    .padded blanks_nil hchars (blanks_takeWhile left), ?_⟩
  rw [List.nil_append, List.append_assoc, takeWhile_append_skipBlanks]

theorem takes_name {name : Text} {cs body behind left : List Char}
    (hopen : skipBlanks cs = '"' :: body)
    (h : readString body = some (name, behind))
    (hclose : skipBlanks behind = ':' :: left) :
    Takes WritesName name cs (':' :: left) := by
  obtain ⟨chars, hchars, hbody⟩ := takes_of_readString h
  refine ⟨_, .mk (blanks_takeWhile cs) hchars (blanks_takeWhile behind), ?_⟩
  rw [List.append_assoc, List.append_assoc, ← hclose,
    takeWhile_append_skipBlanks, ← hbody, ← hopen, takeWhile_append_skipBlanks]

def WritesItems (items : List Value) (cs : List Char) : Prop :=
  ∃ pieces : List (Value × List Char), pieces ≠ [] ∧
    (∀ i ∈ pieces, Writes i.1 i.2) ∧
    items = pieces.map (·.1) ∧
    cs = [','].intercalate (pieces.map (·.2)) ++ [']']

def WritesMembers (members : List (Text × Value)) (cs : List Char) : Prop :=
  ∃ pieces : List Member, pieces ≠ [] ∧
    (∀ m ∈ pieces, WritesName m.name m.nameChars) ∧
    (∀ m ∈ pieces, Writes m.value m.valueChars) ∧
    members = pieces.map Member.entry ∧
    cs = [','].intercalate (pieces.map Member.chars) ++ ['\x7d']

theorem takes_lastItem {v : Value} {cs left : List Char}
    (h : Takes Writes v cs (']' :: left)) : Takes WritesItems [v] cs left := by
  obtain ⟨chars, hchars, rfl⟩ := h
  refine ⟨chars ++ [']'], ⟨[(v, chars)], List.cons_ne_nil _ _, ?_, rfl, ?_⟩,
    by simp⟩
  · rintro _ (_ | ⟨_, ⟨⟩⟩)
    exact hchars
  · rw [List.map_singleton, List.intercalate_singleton]

theorem takes_nextItem {v : Value} {items : List Value}
    {cs rest left : List Char} (h : Takes Writes v cs (',' :: rest))
    (hrest : Takes WritesItems items rest left) :
    Takes WritesItems (v :: items) cs left := by
  obtain ⟨chars, hchars, rfl⟩ := h
  obtain ⟨_, ⟨pieces, hnonempty, hpieces, rfl, rfl⟩, rfl⟩ := hrest
  refine ⟨chars ++ ',' :: ([','].intercalate (pieces.map (·.2)) ++ [']']),
    ⟨(v, chars) :: pieces, List.cons_ne_nil _ _, ?_, rfl, ?_⟩, by simp⟩
  · exact List.forall_mem_cons.2 ⟨hchars, hpieces⟩
  · obtain ⟨p, pieces, rfl⟩ := List.exists_cons_of_ne_nil hnonempty
    simp [List.intercalate_cons_cons]

theorem takes_lastMember {name : Text} {v : Value} {cs rest left : List Char}
    (hname : Takes WritesName name cs (':' :: rest))
    (h : Takes Writes v rest ('\x7d' :: left)) :
    Takes WritesMembers [(name, v)] cs left := by
  obtain ⟨nameChars, hnameChars, rfl⟩ := hname
  obtain ⟨chars, hchars, rfl⟩ := h
  refine ⟨nameChars ++ ':' :: (chars ++ ['\x7d']),
    ⟨[⟨name, nameChars, v, chars⟩], List.cons_ne_nil _ _, ?_, ?_, rfl, ?_⟩,
    by simp⟩
  · rintro _ (_ | ⟨_, ⟨⟩⟩)
    exact hnameChars
  · rintro _ (_ | ⟨_, ⟨⟩⟩)
    exact hchars
  · simp [Member.chars]

theorem takes_nextMember {name : Text} {v : Value}
    {members : List (Text × Value)} {cs behind rest left : List Char}
    (hname : Takes WritesName name cs (':' :: behind))
    (h : Takes Writes v behind (',' :: rest))
    (hrest : Takes WritesMembers members rest left) :
    Takes WritesMembers ((name, v) :: members) cs left := by
  obtain ⟨nameChars, hnameChars, rfl⟩ := hname
  obtain ⟨chars, hchars, rfl⟩ := h
  obtain ⟨_, ⟨pieces, hnonempty, hnames, hvalues, rfl, rfl⟩, rfl⟩ := hrest
  refine ⟨nameChars ++ ':' :: (chars ++ ',' ::
      ([','].intercalate (pieces.map Member.chars) ++ ['\x7d'])),
    ⟨⟨name, nameChars, v, chars⟩ :: pieces, List.cons_ne_nil _ _, ?_, ?_,
      rfl, ?_⟩, by simp⟩
  · exact List.forall_mem_cons.2 ⟨hnameChars, hnames⟩
  · exact List.forall_mem_cons.2 ⟨hchars, hvalues⟩
  · obtain ⟨p, pieces, rfl⟩ := List.exists_cons_of_ne_nil hnonempty
    simp [Member.chars, List.intercalate_cons_cons]

theorem takes_array {items : List Value} {cs left : List Char}
    (h : Takes WritesItems items cs left) :
    Takes Writes (.array items) ('[' :: cs) left := by
  obtain ⟨_, ⟨pieces, hnonempty, hpieces, rfl, rfl⟩, rfl⟩ := h
  exact ⟨_, .array hnonempty hpieces, rfl⟩

theorem takes_object {members : List (Text × Value)} {cs left : List Char}
    (h : Takes WritesMembers members cs left) :
    Takes Writes (.object members) ('\x7b' :: cs) left := by
  obtain ⟨_, ⟨pieces, hnonempty, hnames, hvalues, rfl, rfl⟩, rfl⟩ := h
  exact ⟨_, .object hnonempty hnames hvalues, rfl⟩

theorem takes_emptyArray {cs left : List Char}
    (h : skipBlanks cs = ']' :: left) :
    Takes Writes (.array []) ('[' :: cs) left := by
  refine ⟨_, .emptyArray (blanks_takeWhile cs), ?_⟩
  rw [List.cons_append, List.append_assoc, List.singleton_append, ← h,
    takeWhile_append_skipBlanks]

theorem takes_emptyObject {cs left : List Char}
    (h : skipBlanks cs = '\x7d' :: left) :
    Takes Writes (.object []) ('\x7b' :: cs) left := by
  refine ⟨_, .emptyObject (blanks_takeWhile cs), ?_⟩
  rw [List.cons_append, List.append_assoc, List.singleton_append, ← h,
    takeWhile_append_skipBlanks]

/-- What the readers of values take with so many steps is of the grammar. -/
structure TakesWithin (bound : Nat) : Prop where
  value : ∀ {cs v left}, readValue bound cs = some (v, left) →
    Takes Writes v cs left
  items : ∀ {cs items left}, readItems bound cs = some (items, left) →
    Takes WritesItems items cs left
  members : ∀ {cs members left}, readMembers bound cs = some (members, left) →
    Takes WritesMembers members cs left

namespace TakesWithin

variable {bound : Nat}

theorem value_succ (h : TakesWithin bound) {cs left : List Char} {v : Value}
    (hread : readValue (bound + 1) cs = some (v, left)) :
    Takes Writes v cs left := by
  apply Takes.of_skipBlanks
  rw [readValue] at hread
  split at hread
  · rename_i heq
    cases hread
    exact ⟨_, .null, heq⟩
  · rename_i heq
    cases hread
    exact ⟨_, .trueWord, heq⟩
  · rename_i heq
    cases hread
    exact ⟨_, .falseWord, heq⟩
  · rename_i heq
    obtain ⟨⟨t, left⟩, hstring, heq'⟩ := Option.map_eq_some_iff.1 hread
    cases heq'
    obtain ⟨chars, hchars, hcs⟩ := takes_of_readString hstring
    exact ⟨chars, .text hchars, heq.trans hcs⟩
  · rename_i rest heq
    rw [heq]
    split at hread
    · rename_i hclose
      cases hread
      exact takes_emptyArray hclose
    · obtain ⟨⟨items, left⟩, hitems, heq'⟩ := Option.map_eq_some_iff.1 hread
      cases heq'
      rw [readItems_congr (skipBlanks_skipBlanks rest)] at hitems
      exact takes_array (h.items hitems)
  · rename_i rest heq
    rw [heq]
    split at hread
    · rename_i hclose
      cases hread
      exact takes_emptyObject hclose
    · obtain ⟨⟨members, left⟩, hmembers, heq'⟩ := Option.map_eq_some_iff.1 hread
      cases heq'
      rw [readMembers_congr (skipBlanks_skipBlanks rest)] at hmembers
      exact takes_object (h.members hmembers)
  · obtain ⟨⟨n, left⟩, hnumber, heq'⟩ := Option.map_eq_some_iff.1 hread
    cases heq'
    obtain ⟨chars, hchars, hcs⟩ := takes_of_readNumber hnumber
    exact ⟨chars, .number hchars, hcs⟩

theorem items_succ (h : TakesWithin bound) {cs left : List Char}
    {items : List Value}
    (hread : readItems (bound + 1) cs = some (items, left)) :
    Takes WritesItems items cs left := by
  rw [readItems] at hread
  split at hread
  · cases hread
  rename_i v rest hvalue
  have hv := (h.value hvalue).skipBlanks_left
  split at hread
  · rename_i hclose
    cases hread
    rw [hclose] at hv
    exact takes_lastItem hv
  · rename_i hcomma
    obtain ⟨⟨items, left⟩, hitems, heq⟩ := Option.map_eq_some_iff.1 hread
    cases heq
    rw [hcomma] at hv
    exact takes_nextItem hv (h.items hitems)
  · cases hread

theorem members_succ (h : TakesWithin bound) {cs left : List Char}
    {members : List (Text × Value)}
    (hread : readMembers (bound + 1) cs = some (members, left)) :
    Takes WritesMembers members cs left := by
  rw [readMembers] at hread
  split at hread
  · rename_i hopen
    split at hread
    · cases hread
    rename_i name behind hstring
    split at hread
    · rename_i hcolon
      have hname := takes_name hopen hstring hcolon
      split at hread
      · cases hread
      rename_i v rest hvalue
      have hv := (h.value hvalue).skipBlanks_left
      split at hread
      · rename_i hclose
        cases hread
        rw [hclose] at hv
        exact takes_lastMember hname hv
      · rename_i hcomma
        obtain ⟨⟨members, left⟩, hmembers, heq⟩ :=
          Option.map_eq_some_iff.1 hread
        cases heq
        rw [hcomma] at hv
        exact takes_nextMember hname hv (h.members hmembers)
      · cases hread
    · cases hread
  · cases hread

end TakesWithin

/-- With no step left nothing is read, and with one more step every part is read
with the others. -/
theorem takesWithin (bound : Nat) : TakesWithin bound := by
  induction bound with
  | zero =>
      exact ⟨fun h => by simp [readValue] at h, fun h => by
        simp [readItems] at h, fun h => by simp [readMembers] at h⟩
  | succ bound ih => exact ⟨ih.value_succ, ih.items_succ, ih.members_succ⟩

/-- Reading accepts the texts of the grammar and no others. -/
theorem read?_eq_some_iff {s : String} {v : Value} : read? s = some v ↔
    Writes v s.toList := by
  refine ⟨fun h => ?_, read?_of_writes⟩
  unfold read? at h
  dsimp only at h
  split at h
  · rename_i v' left hread
    split at h
    · rename_i hempty
      cases h
      obtain ⟨chars, hchars, hcs⟩ :=
        ((takesWithin _).value hread).skipBlanks_left
      rw [List.isEmpty_iff.1 hempty, List.append_nil] at hcs
      rwa [hcs]
    · cases h
  · cases h

end FileDigest.Json
