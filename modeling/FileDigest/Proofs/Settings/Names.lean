import FileDigest.Proofs.Settings.Schema
import FileDigest.Settings.SettingPath
import FileDigest.Settings.Variable

/-!
# Names of settings in the environment

The way to a setting is a list of names, and the variable that sets it is named
by the mark and these names with two underscores between them. If every name is
a word, that is of small letters and digits with single underscores between
them, then the variable is read as the way that it was named for
(`Variable.settingName?_of_lower`, `SettingPath.parse_dots`), and what it says
is merged in there, as if it were a tree of one value
(`Setting.assign_ofSteps`).
-/

namespace FileDigest

namespace Text

/-- A character below 128 that is no capital letter. -/
def isPlain (c : Char) : Bool :=
  c.toNat < 0x80 && c.toLower == c

theorem lowerFrom_eq_self (before : List Char) {cs : List Char}
    (h : ∀ c ∈ cs, isPlain c = true) :
    lowerFrom before cs = cs := by
  induction cs generalizing before with
  | nil => rfl
  | cons c cs ih =>
      have hc := h c List.mem_cons_self
      simp only [isPlain, Bool.and_eq_true, decide_eq_true_eq, beq_iff_eq] at hc
      have hsigma : c ≠ 'Σ' := by
        rintro rfl
        exact absurd hc.1 (by decide)
      have hdotted : c ≠ 'İ' := by
        rintro rfl
        exact absurd hc.1 (by decide)
      have hrest := ih (c :: before) fun c' hc' =>
        h c' (List.mem_cons_of_mem c hc')
      simp [lowerFrom, hsigma, hdotted, lowerChar, hc.1, hc.2, hrest]

theorem lower_eq_self {s : String} (h : ∀ c ∈ s.toList, isPlain c = true) :
    lower s = s := by
  rw [lower, lowerFrom_eq_self [] h, String.ofList_toList]

end Text

def isWordChar (c : Char) : Bool :=
  ('a' ≤ c && c ≤ 'z') || ('0' ≤ c && c ≤ '9')

/-- Small letters and digits, at least one, with single underscores between
them. -/
def isWord : List Char → Bool
  | [] => false
  | [c] => isWordChar c
  | c :: '_' :: rest => isWordChar c && isWord rest
  | c :: rest => isWordChar c && isWord rest

theorem isWordChar_bounds {c : Char} (h : isWordChar c = true) :
    97 ≤ c.toNat ∧ c.toNat ≤ 122 ∨ 48 ≤ c.toNat ∧ c.toNat ≤ 57 := by
  simp only [isWordChar, Bool.or_eq_true, Bool.and_eq_true,
    decide_eq_true_eq] at h
  exact h

theorem ne_underscore_of_isWordChar {c : Char} (h : isWordChar c = true) :
    c ≠ '_' := by
  rintro rfl
  exact absurd h (by decide)

theorem isNameChar_of_isWordChar {c : Char} (h : isWordChar c = true) :
    SettingPath.isNameChar c = true := by
  simp only [isWordChar, SettingPath.isNameChar, Bool.or_eq_true] at h ⊢
  rcases h with h | h <;> simp [h]

theorem isPlain_of_isWordChar {c : Char} (h : isWordChar c = true) :
    Text.isPlain c = true := by
  have hbounds := isWordChar_bounds h
  have hcapital : ¬(c.val ≥ 'A'.val ∧ c.val ≤ 'Z'.val) := by
    rintro ⟨hlow, hhigh⟩
    have hlow' : 65 ≤ c.toNat := hlow
    have hhigh' : c.toNat ≤ 90 := hhigh
    omega
  have hlower : c.toLower = c := dif_neg hcapital
  have hlt : c.toNat < 0x80 := by omega
  simp [Text.isPlain, hlower, hlt]

theorem forall_of_isWord {p : Char → Prop}
    (hchar : ∀ c, isWordChar c = true → p c) (hspace : p '_') {cs : List Char}
    (h : isWord cs = true) : ∀ c ∈ cs, p c := by
  induction cs using isWord.induct with
  | case1 => cases h
  | case2 c =>
      intro c' hc'
      rw [List.mem_singleton.1 hc']
      exact hchar c h
  | case3 c rest ih =>
      simp only [isWord, Bool.and_eq_true] at h
      intro c' hc'
      rcases List.mem_cons.1 hc' with rfl | hc'
      · exact hchar c' h.1
      · rcases List.mem_cons.1 hc' with rfl | hc'
        · exact hspace
        · exact ih h.2 c' hc'
  | case4 c rest hne hne' ih =>
      rw [isWord, Bool.and_eq_true] at h
      · intro c' hc'
        rcases List.mem_cons.1 hc' with rfl | hc'
        · exact hchar c' h.1
        · exact ih h.2 c' hc'
      · exact hne
      · exact hne'

theorem lower_eq_self_of_isWord {name : String}
    (h : isWord name.toList = true) : Text.lower name = name :=
  Text.lower_eq_self (forall_of_isWord (fun _ => isPlain_of_isWordChar)
    (by decide) h)

theorem exists_cons_of_isWord {cs : List Char} (h : isWord cs = true) :
    ∃ c rest, cs = c :: rest ∧ isWordChar c = true := by
  cases cs using isWord.fun_cases with
  | case1 => cases h
  | case2 c => exact ⟨c, [], rfl, h⟩
  | case3 c rest =>
      rw [isWord, Bool.and_eq_true] at h
      exact ⟨c, _, rfl, h.1⟩
  | case4 c rest hne hne' =>
      rw [isWord, Bool.and_eq_true] at h
      · exact ⟨c, _, rfl, h.1⟩
      · exact hne
      · exact hne'

theorem toList_intercalate_cons (separator first : String)
    (rest : List String) :
    (separator.intercalate (first :: rest)).toList =
      first.toList ++ rest.flatMap fun name =>
        separator.toList ++ name.toList := by
  rw [String.toList_intercalate]
  induction rest generalizing first with
  | nil => simp
  | cons name rest ih =>
      rw [List.map_cons, List.map_cons, List.intercalate_cons_cons,
        ← List.map_cons, ih]
      simp

theorem toList_intercalate_underscores (first : String) (rest : List String) :
    ("__".intercalate (first :: rest)).toList =
      first.toList ++ rest.flatMap fun name => '_' :: '_' :: name.toList :=
  toList_intercalate_cons "__" first rest

theorem toList_intercalate_dots (first : String) (rest : List String) :
    (".".intercalate (first :: rest)).toList =
      first.toList ++ rest.flatMap fun name => '.' :: name.toList :=
  toList_intercalate_cons "." first rest

namespace Variable

theorem dotted_cons_of_ne {c : Char} (h : c ≠ '_') (cs : List Char) :
    dotted (c :: cs) = c :: dotted cs := by
  rw [dotted]
  intro rest heq
  exact absurd heq h

theorem dotted_underscore_of_ne {c : Char} (h : c ≠ '_') (cs : List Char) :
    dotted ('_' :: c :: cs) = '_' :: dotted (c :: cs) := by
  rw [dotted]
  intro rest _ heq
  exact absurd (List.cons.inj heq).1 h

theorem dotted_append_of_isWord {cs : List Char} (h : isWord cs = true)
    (rest : List Char) : dotted (cs ++ rest) = cs ++ dotted rest := by
  induction cs using isWord.induct with
  | case1 => cases h
  | case2 c => exact dotted_cons_of_ne (ne_underscore_of_isWordChar h) rest
  | case3 c cs ih =>
      rw [isWord, Bool.and_eq_true] at h
      obtain ⟨d, ds, rfl, hd⟩ := exists_cons_of_isWord h.2
      rw [List.cons_append, List.cons_append,
        dotted_cons_of_ne (ne_underscore_of_isWordChar h.1), List.cons_append,
        dotted_underscore_of_ne (ne_underscore_of_isWordChar hd),
        ← List.cons_append, ih h.2]
      rfl
  | case4 c cs hne hne' ih =>
      rw [isWord, Bool.and_eq_true] at h
      · rw [List.cons_append,
          dotted_cons_of_ne (ne_underscore_of_isWordChar h.1), ih h.2,
          List.cons_append]
      · exact hne
      · exact hne'

theorem dotted_words {names : List String}
    (h : ∀ name ∈ names, isWord name.toList = true) :
    dotted (names.flatMap fun name => '_' :: '_' :: name.toList) =
      names.flatMap fun name => '.' :: name.toList := by
  induction names with
  | nil => rfl
  | cons name names ih =>
      have hname := h name List.mem_cons_self
      have hnames := ih fun name' hname' =>
        h name' (List.mem_cons_of_mem name hname')
      simp only [List.flatMap_cons, List.cons_append, dotted,
        dotted_append_of_isWord hname, hnames]

/-- The name, in lower case, of the variable that sets what a way leads to. -/
def nameOf (way : List String) : String :=
  "vfs_digest__" ++ "__".intercalate way

theorem toList_nameOf (way : List String) :
    (nameOf way).toList = mark ++ ("__".intercalate way).toList := by
  unfold nameOf mark
  exact String.toList_append

/-- A variable is read as the way that it was named for. -/
theorem settingName?_of_lower {name first : String} {rest : List String}
    (hname : Text.lower name = nameOf (first :: rest))
    (hwords : ∀ word ∈ first :: rest, isWord word.toList = true) :
    settingName? name = some (".".intercalate (first :: rest)) := by
  have hrest : ∀ word ∈ rest, isWord word.toList = true :=
    fun word hword => hwords word (List.mem_cons_of_mem first hword)
  unfold settingName?
  simp only [hname, toList_nameOf, List.isPrefixOf?_eq_some_iff_append_eq.2 rfl,
    Option.map_some, toList_intercalate_underscores,
    dotted_append_of_isWord (hwords first List.mem_cons_self),
    dotted_words hrest]
  rw [← toList_intercalate_dots, String.ofList_toList]

end Variable

namespace SettingPath

theorem readName_append {name : String} (h : isWord name.toList = true)
    {rest : List Char}
    (hrest : ∀ c, rest.head? = some c → isNameChar c = false) :
    readName (name.toList ++ rest) = some (name, rest) := by
  have hname : ∀ c ∈ name.toList, isNameChar c = true :=
    forall_of_isWord (fun _ => isNameChar_of_isWordChar) (by decide) h
  have htake : (name.toList ++ rest).takeWhile isNameChar = name.toList := by
    rw [List.takeWhile_append_of_pos hname]
    cases rest with
    | nil => simp
    | cons c rest => simp [hrest c rfl]
  have hdrop : (name.toList ++ rest).dropWhile isNameChar = rest := by
    rw [List.dropWhile_append_of_pos hname]
    cases rest with
    | nil => rfl
    | cons c rest => simp [hrest c rfl]
  obtain ⟨c, cs, hcs, -⟩ := exists_cons_of_isWord h
  have hsome : name.toList.isEmpty = false := by rw [hcs]; rfl
  simp only [readName, htake, hdrop, hsome, String.ofList_toList,
    Bool.false_eq_true, if_false]

theorem head_dots (names : List String) (c : Char)
    (h : (names.flatMap fun name => '.' :: name.toList).head? = some c) :
    isNameChar c = false := by
  cases names with
  | nil => cases h
  | cons name names =>
      cases h
      decide

theorem readSteps_words {names : List String}
    (h : ∀ name ∈ names, isWord name.toList = true) {bound : Nat}
    (hbound : names.length ≤ bound) :
    readSteps bound (names.flatMap fun name => '.' :: name.toList) =
      some (names.map .child) := by
  induction names generalizing bound with
  | nil => cases bound <;> rfl
  | cons name names ih =>
      cases bound with
      | zero => cases hbound
      | succ bound =>
          have hnames :=
            ih (fun name' hname' => h name' (List.mem_cons_of_mem name hname'))
              (Nat.le_of_succ_le_succ hbound)
          rw [List.flatMap_cons, List.cons_append, readSteps,
            readName_append (h name List.mem_cons_self) (head_dots names)]
          simp only [hnames, Option.map_some, List.map_cons]

theorem length_le_length_dots (names : List String) :
    names.length ≤ (names.flatMap fun name => '.' :: name.toList).length := by
  induction names with
  | nil => exact Nat.le_refl 0
  | cons name names ih =>
      simp only [List.flatMap_cons, List.length_append, List.length_cons]
      omega

/-- Words with dots between them are the way that they name. -/
theorem parse_dots {first : String} {rest : List String}
    (hwords : ∀ word ∈ first :: rest, isWord word.toList = true) :
    parse (".".intercalate (first :: rest)) =
      ofSteps first (rest.map .child) := by
  have hrest : ∀ word ∈ rest, isWord word.toList = true :=
    fun word hword => hwords word (List.mem_cons_of_mem first hword)
  have hlength := length_le_length_dots rest
  have hread := readName_append (hwords first List.mem_cons_self)
    (head_dots rest)
  have hsteps : ∀ bound, rest.length ≤ bound →
      readSteps bound (rest.flatMap fun name => '.' :: name.toList) =
        some (rest.map .child) :=
    fun bound hbound => readSteps_words hrest hbound
  unfold parse parse?
  simp only [toList_intercalate_dots, hread]
  rw [hsteps _ (by rw [List.length_append]; omega)]
  rfl

theorem way_ofSteps (name : String) (steps : List PathStep) :
    (ofSteps name steps).way ++ [(ofSteps name steps).last] =
      .child name :: steps := by
  unfold ofSteps
  cases h : steps.getLast? with
  | none =>
      rw [List.getLast?_eq_none_iff.1 h]
      rfl
  | some last =>
      obtain ⟨ys, rfl⟩ := List.getLast?_eq_some_iff.1 h
      simp

end SettingPath

namespace Setting

/-- It does not matter whether an empty table stands where something is to be
merged in, or nothing at all. -/
theorem merge_nothing (key : String) (w : Setting) :
    nothing.merge key w = emptyTable.merge key w := by
  cases w <;> rfl

theorem getD_nothing_merge (found : Option Setting) (key : String)
    (w : Setting) :
    (found.getD nothing).merge key w = (found.getD emptyTable).merge key w := by
  cases found with
  | none => exact merge_nothing key w
  | some v => rfl

/-- A value is put at the end of a way down tables as the tree is merged in that
holds nothing else. The induction is on the way. -/
theorem alterAt_children {name : String} {rest : List String}
    {way : List PathStep} {last : PathStep}
    (hway : way ++ [last] = (name :: rest).map .child) (v w : Setting) :
    alterAt (assignStep w last) way v =
      some (v.merge name (w.single rest)) := by
  induction rest generalizing name way v with
  | nil =>
      cases way with
      | nil =>
          obtain rfl : last = .child name := by simpa using hway
          rfl
      | cons step way => simp at hway
  | cons next rest ih =>
      cases way with
      | nil => simp at hway
      | cons step way =>
          simp only [List.map_cons, List.cons_append, List.cons.injEq] at hway
          obtain ⟨rfl, hway⟩ := hway
          have hway' : way ++ [last] = (next :: rest).map .child := by
            simpa using hway
          have hrest := ih hway' ((v.under? (Text.lower name)).getD nothing)
          rw [alterAt, alterStep, hrest, Option.map_some, getD_nothing_merge]
          rfl

theorem assign_ofSteps (root : Setting) (name : String) (rest : List String)
    (w : Setting) :
    root.assign (SettingPath.ofSteps name (rest.map .child)) w =
      some (root.merge name (w.single rest)) :=
  alterAt_children (by rw [SettingPath.way_ofSteps, List.map_cons]) root w

end Setting

end FileDigest
