import FileDigest.Proofs.Path.Names
import Mathlib.Logic.Relation

/-!
# Spellings of a path

Two paths have the same components exactly when one is written into the other by
four rules, forwards and backwards: a second slash, a dot between slashes, a
slash at the end and a dot behind it are left out (`components_eq_iff_eqvGen`).
No rule touches a dot at the beginning, the slash that is a whole path, or the
empty path.

In pieces the components are two things: what the beginning stands for, and the
pieces that count for something (`Path.steps`). Each rule keeps both. The other
way round a path is written into the plainest one that has them, from left to
right; the part that is done already is never the empty text, so the rules apply
behind it.
-/

namespace FileDigest

namespace Component

theorem ofPiece_isSome {piece : Bytes} :
    (ofPiece piece).isSome = true ↔ ¬ (piece = [] ∨ piece = [Path.dot]) := by
  unfold ofPiece
  split
  · simp [*]
  · split <;> simp [*]

theorem bytes_of_ofPiece {piece : Bytes} {c : Component}
    (h : ofPiece piece = some c) : c.bytes = piece := by
  unfold ofPiece at h
  split at h
  · cases h
  · split at h
    · cases h
      exact Eq.symm ‹_›
    · cases h
      rfl

/-- Whether a component can only stand at the beginning of a path. -/
def isMarker : Component → Bool
  | root => true
  | here => true
  | _ => false

theorem isMarker_of_ofPiece {piece : Bytes} {c : Component}
    (h : ofPiece piece = some c) : c.isMarker = false := by
  unfold ofPiece at h
  split at h
  · cases h
  · split at h <;> cases h <;> rfl

end Component

namespace Path

def steps (ps : List Bytes) : List Bytes :=
  ps.filter fun piece => (Component.ofPiece piece).isSome

variable {ps qs : List Bytes} {piece : Bytes} {p q : Path}

@[simp] theorem steps_nil : steps [] = [] := rfl

@[simp] theorem steps_append (ps qs : List Bytes) :
    steps (ps ++ qs) = steps ps ++ steps qs :=
  List.filter_append ..

theorem steps_cons_of_counts (h : ¬ (piece = [] ∨ piece = [dot]))
    (ps : List Bytes) : steps (piece :: ps) = piece :: steps ps :=
  List.filter_cons_of_pos (Component.ofPiece_isSome.2 h)

theorem steps_cons_of_not_counts (h : piece = [] ∨ piece = [dot])
    (ps : List Bytes) : steps (piece :: ps) = steps ps :=
  List.filter_cons_of_neg fun hsome => Component.ofPiece_isSome.1 hsome h

theorem map_bytes_filterMap (ps : List Bytes) :
    (ps.filterMap Component.ofPiece).map Component.bytes = steps ps := by
  induction ps with
  | nil => rfl
  | cons piece ps ih =>
      cases h : Component.ofPiece piece with
      | none =>
          rw [List.filterMap_cons_none h, ih, steps, steps,
            List.filter_cons_of_neg (by simp [h])]
      | some c =>
          rw [List.filterMap_cons_some h, List.map_cons, ih,
            Component.bytes_of_ofPiece h, steps, steps,
            List.filter_cons_of_pos (by simp [h])]

theorem filterMap_steps (ps : List Bytes) :
    (steps ps).filterMap Component.ofPiece =
      ps.filterMap Component.ofPiece := by
  induction ps with
  | nil => rfl
  | cons piece ps ih =>
      cases h : Component.ofPiece piece with
      | none =>
          rw [List.filterMap_cons_none h, ← ih, steps,
            List.filter_cons_of_neg (by simp [h]), ← steps]
      | some c =>
          rw [List.filterMap_cons_some h, ← ih, steps,
            List.filter_cons_of_pos (by simp [h]),
            List.filterMap_cons_some h, ← steps]

theorem filter_isMarker_marker (ps : List Bytes) :
    (marker ps).filter Component.isMarker = marker ps := by
  unfold marker
  split
  · rfl
  · split <;> rfl
  · rfl

theorem filter_isMarker_filterMap (ps : List Bytes) :
    (ps.filterMap Component.ofPiece).filter Component.isMarker = [] := by
  rw [List.filter_eq_nil_iff]
  intro c hc
  obtain ⟨piece, -, hpiece⟩ := List.mem_filterMap.1 hc
  rw [Component.isMarker_of_ofPiece hpiece]
  exact Bool.false_ne_true

/-- The components are what the beginning stands for and the pieces that
count. -/
theorem components_eq_iff_steps :
    p.components = q.components ↔
      marker (pieces p.bytes) = marker (pieces q.bytes) ∧
        steps (pieces p.bytes) = steps (pieces q.bytes) := by
  constructor
  · intro h
    have hmarker := congrArg (List.filter Component.isMarker) h
    simp only [components, List.filter_append, filter_isMarker_marker,
      filter_isMarker_filterMap, List.append_nil] at hmarker
    rw [components, components, hmarker, List.append_cancel_left_eq] at h
    refine ⟨hmarker, ?_⟩
    rw [← map_bytes_filterMap, h, map_bytes_filterMap]
  · rintro ⟨hmarker, hsteps⟩
    rw [components, components, hmarker, ← filterMap_steps, hsteps,
      filterMap_steps]

/-- One simplification in the spelling of a path. -/
inductive Respelled : Bytes → Bytes → Prop where
  | slash (xs ys : Bytes) :
      Respelled (xs ++ Path.slash :: Path.slash :: ys) (xs ++ Path.slash :: ys)
  | dot (xs ys : Bytes) :
      Respelled (xs ++ Path.slash :: Path.dot :: Path.slash :: ys)
        (xs ++ Path.slash :: ys)
  | lastSlash (xs : Bytes) : xs ≠ [] → Respelled (xs ++ [Path.slash]) xs
  | lastDot (xs : Bytes) : Respelled (xs ++ [Path.slash, Path.dot])
      (xs ++ [Path.slash])

/-- What follows the first piece does not matter for the beginning, as long as
something does. -/
theorem marker_append (hps : ps ≠ []) {qs qs' : List Bytes} (h : qs ≠ [])
    (h' : qs' ≠ []) : marker (ps ++ qs) = marker (ps ++ qs') := by
  obtain ⟨a, as, rfl⟩ := List.exists_cons_of_ne_nil hps
  obtain ⟨b, bs, rfl⟩ := List.exists_cons_of_ne_nil h
  obtain ⟨b', bs', rfl⟩ := List.exists_cons_of_ne_nil h'
  cases as <;> cases a <;> rfl

theorem pieces_append_slash_cons (xs ys : Bytes) :
    pieces (xs ++ slash :: ys) = pieces xs ++ pieces ys :=
  piecesBetween_append slash xs ys

theorem components_skip (xs ys : Bytes) {skipped : Bytes}
    (hpieces : pieces skipped = [skipped])
    (h : skipped = [] ∨ skipped = [dot]) :
    (Path.mk (xs ++ slash :: (skipped ++ slash :: ys))).components =
      (Path.mk (xs ++ slash :: ys)).components := by
  rw [components_eq_iff_steps]
  simp only [pieces_append_slash_cons, hpieces, steps_append,
    steps_cons_of_not_counts h]
  exact ⟨marker_append (pieces_ne_nil xs) (List.cons_ne_nil _ _)
    (pieces_ne_nil ys), rfl⟩

theorem Respelled.components_eq {b b' : Bytes} (h : Respelled b b') :
    (Path.mk b).components = (Path.mk b').components := by
  cases h with
  | slash xs ys => exact components_skip xs ys rfl (Or.inl rfl)
  | dot xs ys => exact components_skip xs ys rfl (Or.inr rfl)
  | lastSlash _ hxs =>
      have hpieces : pieces b' ≠ [[]] := fun hempty =>
        hxs (bytes_eq_nil_of_pieces hempty)
      rw [components_eq_iff_steps]
      simp only [pieces_concat_slash, steps_append,
        steps_cons_of_not_counts (Or.inl rfl), steps_nil, List.append_nil]
      exact ⟨marker_concat (pieces_ne_nil b') hpieces [], trivial⟩
  | lastDot xs =>
      have hpieces : pieces [Path.dot] = [[Path.dot]] := rfl
      rw [components_eq_iff_steps]
      simp only [pieces_append_slash_cons, hpieces, pieces_nil, steps_append,
        steps_cons_of_not_counts (Or.inr rfl),
        steps_cons_of_not_counts (Or.inl rfl)]
      exact ⟨marker_append (pieces_ne_nil xs) (List.cons_ne_nil _ _)
        (List.cons_ne_nil _ _), trivial⟩

def spell (ps : List Bytes) : Bytes :=
  List.intercalate [slash] ps

@[simp] theorem spell_singleton (a : Bytes) : spell [a] = a :=
  List.intercalate_singleton

theorem spell_cons (a : Bytes) (h : ps ≠ []) :
    spell (a :: ps) = a ++ slash :: spell ps := by
  rw [spell, List.intercalate_cons_of_ne_nil h, List.append_assoc]
  rfl

theorem spell_append (hps : ps ≠ []) (hqs : qs ≠ []) :
    spell (ps ++ qs) = spell ps ++ slash :: spell qs := by
  induction ps with
  | nil => exact absurd rfl hps
  | cons a as ih =>
      cases as with
      | nil =>
          rw [List.singleton_append, spell_cons a hqs, spell_singleton]
      | cons b bs =>
          rw [List.cons_append, spell_cons a (by simp),
            ih (List.cons_ne_nil b bs), spell_cons a (List.cons_ne_nil b bs),
            List.append_assoc, List.cons_append]

theorem spell_pieces (b : Bytes) : spell (pieces b) = b := by
  induction b with
  | nil => rfl
  | cons x b ih =>
      by_cases hx : x = slash
      · subst hx
        rw [pieces_slash_cons, spell_cons [] (pieces_ne_nil b), ih,
          List.nil_append]
      · rw [pieces, piecesBetween, if_neg hx, ← pieces]
        cases hb : pieces b with
        | nil => exact absurd hb (pieces_ne_nil b)
        | cons p ps =>
            rw [hb] at ih
            rw [← ih]
            cases ps <;> rfl

theorem spell_ne_nil (h : ps ≠ []) (hempty : ps ≠ [[]]) : spell ps ≠ [] := by
  cases ps with
  | nil => exact absurd rfl h
  | cons a as =>
      cases as with
      | nil =>
          rw [spell_singleton]
          exact fun ha => hempty (by rw [ha])
      | cons b bs =>
          rw [spell_cons a (List.cons_ne_nil _ _)]
          simp

open Relation

/-- A piece that does not count is left out behind some text. -/
theorem eqvGen_skip (hps : ps ≠ []) (hempty : ps ≠ [[]])
    (h : piece = [] ∨ piece = [dot]) :
    EqvGen Respelled (spell (ps ++ piece :: qs)) (spell (ps ++ qs)) := by
  rw [spell_append hps (List.cons_ne_nil piece qs)]
  cases qs with
  | nil =>
      have hlast : EqvGen Respelled (spell ps ++ [slash]) (spell ps) :=
        .rel _ _ (.lastSlash (spell ps) (spell_ne_nil hps hempty))
      rw [List.append_nil, spell_singleton]
      rcases h with rfl | rfl
      · exact hlast
      · exact .trans _ _ _ (.rel _ _ (.lastDot (spell ps))) hlast
  | cons q qs =>
      rw [spell_cons piece (List.cons_ne_nil q qs),
        spell_append hps (List.cons_ne_nil q qs)]
      rcases h with rfl | rfl
      · exact .rel _ _ (.slash (spell ps) (spell (q :: qs)))
      · exact .rel _ _ (.dot (spell ps) (spell (q :: qs)))

theorem eqvGen_steps {ps : List Bytes} (qs : List Bytes) (hps : ps ≠ [])
    (hempty : ps ≠ [[]]) :
    EqvGen Respelled (spell (ps ++ qs)) (spell (ps ++ steps qs)) := by
  induction qs generalizing ps with
  | nil => exact .refl _
  | cons piece qs ih =>
      by_cases h : piece = [] ∨ piece = [dot]
      · rw [steps_cons_of_not_counts h]
        exact .trans _ _ _ (eqvGen_skip hps hempty h) (ih hps hempty)
      · have hpiece : ps ++ [piece] ≠ [[]] := by
          intro hnil
          obtain ⟨rfl, -⟩ :=
            List.append_eq_singleton_iff.1 hnil |>.resolve_right (by simp)
          exact hps rfl
        rw [steps_cons_of_counts h, List.append_cons,
          List.append_cons ps piece (steps qs)]
        exact ih (by simp) hpiece

/-- The pieces with which the plainest path with a beginning starts. -/
def start : List Component → List Bytes
  | [.root] => [[], []]
  | [.here] => [[dot]]
  | _ => []

/-- Every path is written into the plainest one with its components. -/
theorem eqvGen_plain (b : Bytes) :
    EqvGen Respelled b
      (spell (start (marker (pieces b)) ++ steps (pieces b))) := by
  obtain ⟨a, as, hb⟩ := List.exists_cons_of_ne_nil (pieces_ne_nil b)
  have hspell : b = spell (a :: as) := by rw [← hb, spell_pieces]
  rw [hb]
  nth_rewrite 1 [hspell]
  by_cases ha : a = [] ∨ a = [dot]
  · rw [steps_cons_of_not_counts ha]
    rcases ha with rfl | rfl
    · cases as with
      | nil => exact .refl _
      | cons a as =>
          -- a second slash is put in front of the others
          have htwice : EqvGen Respelled (spell ([] :: a :: as))
              (spell ([[], []] ++ a :: as)) := by
            refine .symm _ _ (.rel _ _ ?_)
            exact .slash [] (spell (a :: as))
          exact .trans _ _ _ htwice (eqvGen_steps (a :: as) (by simp) (by simp))
    · exact eqvGen_steps as (List.cons_ne_nil [dot] []) (by simp)
  · have hmarker : marker (a :: as) = [] := by
      cases a with
      | nil => exact absurd (Or.inl rfl) ha
      | cons x a => exact if_neg fun hdot => ha (Or.inr hdot)
    rw [hmarker, steps_cons_of_counts ha]
    exact eqvGen_steps as (List.cons_ne_nil a [])
      (by simpa using fun h => ha (Or.inl h))

theorem components_eq_of_eqvGen {b b' : Bytes} (h : EqvGen Respelled b b') :
    (Path.mk b).components = (Path.mk b').components := by
  induction h with
  | rel b b' h => exact h.components_eq
  | refl b => rfl
  | symm b b' _ ih => exact ih.symm
  | trans b b' b'' _ _ ih ih' => exact ih.trans ih'

/-- Paths have the same components exactly when their spellings are simplified
into each other, forwards and backwards. -/
theorem components_eq_iff_eqvGen :
    p.components = q.components ↔ EqvGen Respelled p.bytes q.bytes := by
  constructor
  · intro h
    obtain ⟨hmarker, hsteps⟩ := components_eq_iff_steps.1 h
    have hq := eqvGen_plain q.bytes
    rw [← hmarker, ← hsteps] at hq
    exact .trans _ _ _ (eqvGen_plain p.bytes) (.symm _ _ hq)
  · exact components_eq_of_eqvGen

end Path

end FileDigest
