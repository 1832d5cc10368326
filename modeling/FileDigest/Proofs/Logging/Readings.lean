import FileDigest.Logging.Setup
import FileDigest.Proofs.Logging.Names

/-!
# Reading directives one after the other

A text can be read as a directive (`Directive.Readable`), or is faulty, or would
be cut inside a character, which stops the program (`Directive.Torn`); this
happens only to texts that begin with a blank
(`Directive.not_torn_of_trimStart`). Of several texts that all have to be
directives, the first one that is none decides: if it is torn, the program stops
there (`StopsIn`). Where faulty texts are left out, any torn one stops the
program.
-/

namespace FileDigest

namespace Text

theorem exists_append_trimEnd (cs : List Char) : ∃ blanks,
    cs = trimEnd cs ++ blanks := by
  refine ⟨(cs.reverse.takeWhile isBlank).reverse, ?_⟩
  rw [trimEnd, ← List.reverse_append, List.takeWhile_append_dropWhile,
    List.reverse_reverse]

/-- No blank stands in front of a text without the blanks at its two ends. -/
theorem trimStart_trim_append (cs : List Char) {c : Char}
    (h : isBlank c = false) (rest : List Char) :
    trimStart (trim cs ++ c :: rest) = trim cs ++ c :: rest := by
  cases htrim : trim cs with
  | nil => exact trimStart_cons_of_not_isBlank h rest
  | cons d ds =>
      obtain ⟨blanks, hblanks⟩ := exists_append_trimEnd (trimStart cs)
      have hhead := List.head?_dropWhile_not isBlank cs
      rw [← trimStart, hblanks, ← trim, htrim] at hhead
      exact trimStart_cons_of_not_isBlank (by simpa using hhead) _

end Text

namespace Directive

variable {α β : Type}

/-- Nothing is torn, and something holds of what was read. -/
def Untorn (p : α → Prop) : Except DirectiveFailure α → Prop
  | .ok a => p a
  | .error (.fault _) => True
  | .error .torn => False

theorem Untorn.bind {p : α → Prop} {q : β → Prop}
    {x : Except DirectiveFailure α} {f : α → Except DirectiveFailure β}
    (h : Untorn p x) (hf : ∀ a, p a → Untorn q (f a)) : Untorn q (x >>= f) := by
  match x, h with
  | .ok a, h => exact hf a h
  | .error (.fault _), _ => trivial

theorem Untorn.ne_torn {p : α → Prop} {x : Except DirectiveFailure α}
    (h : Untorn p x) : x ≠ .error .torn := by
  rintro rfl
  exact h

def Boundary (cs : List Char) (position : Nat) : Prop :=
  ∃ before after, cs = before ++ after ∧ position = Text.byteSize before

/-- The start that a stage keeps lies between two of the characters that have
been read. -/
def Stage.StartsIn (done : List Char) : Stage → Prop
  | .span position | .field position | .level position => Boundary done position
  | .start | .levelOrTarget | .fields | .target | .complete => True

variable {patterns : ValuePatterns} {text done rest : List Char} {c : Char}
  {stage : Stage} {d : Directive}

theorem Boundary.concat {position : Nat} (h : Boundary done position)
    (c : Char) : Boundary (done ++ [c]) position := by
  obtain ⟨before, after, rfl, rfl⟩ := h
  exact ⟨before, after ++ [c], List.append_assoc _ _ _, rfl⟩

theorem boundary_next (done : List Char) {c : Char} (hsize : c.utf8Size = 1) :
    Boundary (done ++ [c]) (Text.byteSize done + 1) :=
  ⟨done ++ [c], [], by simp, by simp [hsize]⟩

theorem Stage.StartsIn.concat (h : stage.StartsIn done) (c : Char) :
    stage.StartsIn (done ++ [c]) := by
  cases stage with
  | span _ => exact Boundary.concat h c
  | field _ => exact Boundary.concat h c
  | level _ => exact Boundary.concat h c
  | _ => trivial

theorem untorn_withLevel (d : Directive) (cs : List Char) :
    Untorn (fun _ => True) (withLevel d cs) := by
  unfold withLevel
  split <;> trivial

theorem untorn_withField (d : Directive) (cs : List Char) :
    Untorn (fun _ => True) (withField patterns d cs) := by
  unfold withField FieldMatch.read
  split
  · trivial
  · split
    · trivial
    · trivial
    · split <;> trivial

theorem untorn_part (htext : text = done ++ rest) {start : Nat}
    (h : Boundary done start) :
    Untorn (fun _ => True) (part text start (Text.byteSize done)) := by
  obtain ⟨before, after, rfl, rfl⟩ := h
  rw [part_byteSize htext]
  trivial

/-- A character that is read tears nothing, and the start that is kept stays
where it was or is behind the character. -/
theorem step_untorn (htext : text = done ++ c :: rest)
    (h : stage.StartsIn done) :
    Untorn (fun next => next.2.StartsIn (done ++ [c]))
      (step patterns text (Text.byteSize done) c d stage) := by
  have hstays := h.concat c
  have hnext : c.utf8Size = 1 →
      Boundary (done ++ [c]) (Text.byteSize done + 1) :=
    boundary_next done
  cases stage with
  | start =>
      rw [step]
      split
      · rename_i hc
        exact hnext (by rw [hc]; rfl)
      · split <;> trivial
  | levelOrTarget =>
      have hpart := untorn_part htext ⟨[], done, rfl, rfl⟩
      rw [step]
      split
      · rename_i hc
        exact hpart.bind fun _ _ => hnext (by rw [hc]; rfl)
      · split
        · rename_i hc
          exact hpart.bind fun _ _ => hnext (by rw [hc]; rfl)
        · split <;> trivial
  | span start =>
      have hpart := untorn_part htext h
      rw [step]
      split
      · exact hpart.bind fun _ _ => trivial
      · split
        · rename_i hc
          exact hpart.bind fun _ _ => hnext (by rw [hc]; rfl)
        · exact hstays
  | field start =>
      have hpart := untorn_part htext h
      rw [step]
      split
      · exact hpart.bind fun cs _ => (untorn_withField d cs).bind fun _ _ =>
          trivial
      · split
        · rename_i hc
          exact hpart.bind fun cs _ => (untorn_withField d cs).bind fun _ _ =>
            hnext (by rw [hc]; rfl)
        · exact hstays
  | fields =>
      rw [step]
      split <;> trivial
  | target =>
      rw [step]
      split
      · rename_i hc
        exact hnext (by rw [hc]; rfl)
      · trivial
  | level start =>
      have hpart := untorn_part htext h
      rw [step]
      split
      · exact hpart.bind fun cs _ => (untorn_withLevel d cs).bind fun _ _ =>
          trivial
      · exact hstays
  | complete => trivial

theorem finish_untorn (htext : text = done ++ rest) (h : stage.StartsIn done) :
    Untorn (fun _ => True) (finish text d stage) := by
  cases stage with
  | level start =>
      obtain ⟨cs, ds, rfl, rfl⟩ := h
      rw [List.append_assoc] at htext
      rw [finish, behind_byteSize htext]
      exact untorn_withLevel d _
  | _ => trivial

/-- Where the characters stand in the text at the positions that are counted,
nothing is torn. -/
theorem run_untorn (cs : List Char) (htext : text = done ++ cs ++ rest)
    (h : stage.StartsIn done) :
    Untorn (fun _ => True)
      (run patterns text (Text.byteSize done) cs d stage) := by
  induction cs generalizing done d stage with
  | nil =>
      rw [List.append_nil] at htext
      exact finish_untorn htext h
  | cons c cs ih =>
      have hnext : text = done ++ c :: (cs ++ rest) := by simp [htext]
      have hsize : Text.byteSize (done ++ [c]) = Text.byteSize done +
          c.utf8Size := by simp
      rw [run]
      refine (step_untorn hnext h).bind fun next hstarts => ?_
      rw [← hsize]
      exact ih (by simp [htext]) hstarts

def Readable (patterns : ValuePatterns) (text : List Char) : Prop :=
  ∃ d, read patterns text = .ok d

/-- A text of which a part would be cut inside a character. -/
def Torn (patterns : ValuePatterns) (text : List Char) : Prop :=
  read patterns text = .error .torn

/-- A text that does not begin with a blank is not torn. -/
theorem not_torn_of_trimStart (patterns : ValuePatterns) {text : List Char}
    (h : Text.trimStart text = text) : ¬Torn patterns text := by
  obtain ⟨blanks, hblanks⟩ := Text.exists_append_trimEnd text
  have htext : text = [] ++ Text.trim text ++ blanks := by
    rw [Text.trim, h]
    exact hblanks
  have hstart : Stage.StartsIn [] .start := trivial
  exact (run_untorn (Text.trim text) htext hstart).ne_torn

end Directive

open Directive

/-- Texts that all have to be directives, where the first one that is none is
torn. -/
inductive StopsIn (patterns : ValuePatterns) : List (List Char) → Prop
  | here {text : List Char} {rest : List (List Char)} (h : Torn patterns text) :
      StopsIn patterns (text :: rest)
  | later {text : List Char} {rest : List (List Char)}
      (h : Readable patterns text)
      (hrest : StopsIn patterns rest) : StopsIn patterns (text :: rest)

variable {patterns : ValuePatterns} {text : List Char}
  {texts : List (List Char)}

theorem stopsIn_cons_of_readable (h : Readable patterns text) :
    StopsIn patterns (text :: texts) ↔ StopsIn patterns texts := by
  refine ⟨fun hstops => ?_, .later h⟩
  cases hstops with
  | here htorn =>
      obtain ⟨d, hd⟩ := h
      cases hd.symm.trans htorn
  | later _ hrest => exact hrest

theorem stopsIn_cons_of_not_readable (h : ¬Readable patterns text) :
    StopsIn patterns (text :: texts) ↔ Torn patterns text := by
  refine ⟨fun hstops => ?_, .here⟩
  cases hstops with
  | here htorn => exact htorn
  | later hreadable => exact absurd hreadable h

theorem StopsIn.exists_torn (h : StopsIn patterns texts) :
    ∃ text ∈ texts, Torn patterns text := by
  induction h with
  | here h => exact ⟨_, List.mem_cons_self, h⟩
  | later _ _ ih =>
      obtain ⟨text, hmem, htorn⟩ := ih
      exact ⟨text, List.mem_cons_of_mem _ hmem, htorn⟩

theorem not_stopsIn_of_readable (h : ∀ text ∈ texts, Readable patterns text) :
    ¬StopsIn patterns texts := by
  intro hstops
  obtain ⟨text, hmem, htorn⟩ := hstops.exists_torn
  obtain ⟨d, hd⟩ := h text hmem
  cases hd.symm.trans htorn

namespace LogFilter

theorem exists_readStrictly_iff (patterns : ValuePatterns)
    (texts : List (List Char)) :
    (∃ ds, readStrictly patterns texts = .ok ds) ↔ ∀ text ∈ texts,
      Readable patterns text := by
  induction texts with
  | nil => simp [readStrictly]
  | cons text texts ih =>
      rw [List.forall_mem_cons, ← ih, readStrictly, Readable]
      cases read patterns text with
      | error e => simp
      | ok d => cases readStrictly patterns texts <;> simp

theorem readStrictly_eq_torn_iff (patterns : ValuePatterns)
    (texts : List (List Char)) :
    readStrictly patterns texts = .error .torn ↔ StopsIn patterns texts := by
  induction texts with
  | nil => exact iff_of_false (by simp [readStrictly]) (fun h => nomatch h)
  | cons text texts ih =>
      rw [readStrictly]
      cases hread : read patterns text with
      | error e =>
          rw [stopsIn_cons_of_not_readable (by simp [Readable, hread]), Torn,
            hread]
          simp
      | ok d =>
          rw [stopsIn_cons_of_readable ⟨d, hread⟩, ← ih]
          cases readStrictly patterns texts <;> simp

theorem torn_readLeniently_iff :
    (readLeniently patterns texts).torn = true ↔ ∃ text ∈ texts,
      Torn patterns text := by
  induction texts with
  | nil => simp [readLeniently]
  | cons text texts ih =>
      rw [readLeniently]
      cases hread : read patterns text with
      | ok d => simp [ih, Torn, hread]
      | error e => cases e <;> simp [ih, Torn, hread]

def entryText (e : List Char × List Char) : List Char :=
  e.1 ++ '=' :: e.2

variable (fromEnvironment : Bool) {entries : List (List Char × List Char)}

theorem exists_addModules_iff (f : LogFilter) :
    (∃ f', addModules patterns fromEnvironment f entries = .ok f') ↔
      ∀ text ∈ entries.map entryText, Readable patterns text := by
  induction entries generalizing f with
  | nil => simp [addModules]
  | cons e entries ih =>
      rw [List.map_cons, List.forall_mem_cons, addModules, addModule,
        Readable, entryText]
      cases read patterns (e.1 ++ '=' :: e.2) with
      | ok d => simp [ih]
      | error failure => cases failure <;> simp

theorem addModules_eq_torn_iff (f : LogFilter) :
    addModules patterns fromEnvironment f entries = .error .tornDirective ↔
      StopsIn patterns (entries.map entryText) := by
  induction entries generalizing f with
  | nil => exact iff_of_false (by simp [addModules]) (fun h => nomatch h)
  | cons e entries ih =>
      rw [List.map_cons, addModules, addModule]
      change _ ↔ StopsIn patterns ((e.1 ++ '=' :: e.2) :: _)
      cases hread : read patterns (e.1 ++ '=' :: e.2) with
      | ok d => rw [stopsIn_cons_of_readable ⟨d, hread⟩, ← ih]
      | error failure =>
          rw [stopsIn_cons_of_not_readable (by simp [Readable, hread]), Torn,
            hread]
          cases failure <;> simp

/-- The entries of a variable have no blanks in front, so they are not torn. -/
theorem not_torn_of_mem_modulesOf {variableText : List Char} :
    ∀ text ∈ (modulesOf variableText).map entryText, ¬Torn patterns text := by
  intro text htext
  obtain ⟨e, he, rfl⟩ := List.mem_map.1 htext
  obtain ⟨p, -, hp⟩ := List.mem_filterMap.1 he
  split at hp
  · cases hp
    exact not_torn_of_trimStart patterns
      (Text.trimStart_trim_append _ (by decide) _)
  · cases hp

end LogFilter

end FileDigest
