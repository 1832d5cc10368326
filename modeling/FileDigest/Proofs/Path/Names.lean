import FileDigest.TreeDigest
import Mathlib.Data.List.Basic

/-!
# Names added to a path

How the pieces and the components of a path grow when names are added to it one
after another, as a walk does below its root. A slash at the end of the path
leaves an empty piece there, which goes away with the first name; what is left
is the stem of the path (`Path.stem`), and every name is one piece more. In
components there is no such difference: `components_under` holds for every
spelling, so taking the path away again leaves the names, whatever it looked
like (`below_under`).
-/

namespace FileDigest

theorem piecesBetween_append {α : Type} [DecidableEq α] (separator : α)
    (xs ys : List α) :
    piecesBetween separator (xs ++ separator :: ys) =
      piecesBetween separator xs ++ piecesBetween separator ys := by
  induction xs with
  | nil => exact piecesBetween_separator_cons separator ys
  | cons x xs ih =>
      rw [List.cons_append, piecesBetween, piecesBetween, ih]
      split
      · rfl
      · cases h : piecesBetween separator xs with
        | nil => exact absurd h (piecesBetween_ne_nil separator xs)
        | cons p ps => rfl

namespace Path

/-- What a directory can call an entry. -/
structure IsName (b : Bytes) : Prop where
  ne_nil : b ≠ []
  slash_notMem : slash ∉ b
  ne_dot : b ≠ [dot]
  ne_dots : b ≠ [dot, dot]

instance (b : Bytes) : Decidable (IsName b) :=
  decidable_of_iff (b ≠ [] ∧ slash ∉ b ∧ b ≠ [dot] ∧ b ≠ [dot, dot])
    ⟨fun ⟨h₁, h₂, h₃, h₄⟩ => ⟨h₁, h₂, h₃, h₄⟩, fun ⟨h₁, h₂, h₃, h₄⟩ =>
      ⟨h₁, h₂, h₃, h₄⟩⟩

theorem IsName.pieces {b : Bytes} (h : IsName b) : pieces b = [b] :=
  piecesBetween_eq_singleton h.slash_notMem

theorem IsName.ofPiece {b : Bytes} (h : IsName b) :
    Component.ofPiece b = some (.name b) := by
  simp [Component.ofPiece, h.ne_nil, h.ne_dot, h.ne_dots]

theorem IsName.isAbsolute {b : Bytes} (h : IsName b) :
    (Path.mk b).isAbsolute = false := by
  cases b with
  | nil => rfl
  | cons x b =>
      have hx : x ≠ slash := by
        rintro rfl
        exact h.slash_notMem List.mem_cons_self
      simpa [Path.isAbsolute] using hx

theorem IsName.getLast? {b : Bytes} (h : IsName b) (xs : Bytes) :
    (xs ++ b).getLast? ≠ some slash := by
  intro hlast
  have hb := List.getLast?_eq_some_getLast h.ne_nil
  rw [List.getLast?_append, hb, Option.some_or] at hlast
  exact h.slash_notMem (List.mem_of_getLast? (hb.trans hlast))

def under (p : Path) (names : List Bytes) : Path :=
  names.foldl (fun p name => p.join ⟨name⟩) p

@[simp] theorem under_nil (p : Path) : p.under [] = p := rfl

@[simp] theorem under_cons (p : Path) (name : Bytes) (names : List Bytes) :
    p.under (name :: names) = (p.join ⟨name⟩).under names := rfl

/-- The pieces of a path without an empty one behind a slash at its end. -/
def stem (p : Path) : List Bytes :=
  if p.bytes.getLast? = some slash then (pieces p.bytes).dropLast
  else pieces p.bytes

theorem pieces_concat_slash (xs : Bytes) : pieces (xs ++ [slash]) =
    pieces xs ++ [[]] :=
  piecesBetween_append slash xs []

theorem stem_of_slash {p : Path} {xs : Bytes} (h : p.bytes = xs ++ [slash]) :
    p.stem = pieces xs := by
  rw [stem, h, if_pos List.getLast?_concat, pieces_concat_slash,
    List.dropLast_concat]

theorem stem_of_not_slash {p : Path} (h : p.bytes.getLast? ≠ some slash) :
    p.stem = pieces p.bytes :=
  if_neg h

theorem pieces_eq_stem (p : Path) :
    pieces p.bytes = p.stem ∨ pieces p.bytes = p.stem ++ [[]] := by
  by_cases h : p.bytes.getLast? = some slash
  · obtain ⟨xs, hxs⟩ := List.getLast?_eq_some_iff.1 h
    rw [stem_of_slash hxs, hxs]
    exact Or.inr (pieces_concat_slash xs)
  · exact Or.inl (stem_of_not_slash h).symm

variable {p : Path} {name : Bytes} {names : List Bytes}

theorem bytes_join (hp : p.bytes ≠ []) (h : IsName name) :
    (p.join ⟨name⟩).bytes =
      if p.bytes.getLast? = some slash then p.bytes ++ name
        else p.bytes ++ slash :: name := by
  unfold join endsOpen
  rw [h.isAbsolute]
  by_cases hlast : p.bytes.getLast? = some slash
  · simp [hlast]
  · simp [hlast, hp]

theorem bytes_join_ne_nil (hp : p.bytes ≠ []) (h : IsName name) :
    (p.join ⟨name⟩).bytes ≠ [] := by
  rw [bytes_join hp h]
  split <;> simp [hp]

theorem bytes_join_name_ne_nil (p : Path) (h : IsName name) :
    (p.join ⟨name⟩).bytes ≠ [] := by
  unfold join
  rw [h.isAbsolute]
  by_cases hopen : p.endsOpen <;> simp [hopen, h.ne_nil]

theorem pieces_join (hp : p.bytes ≠ []) (h : IsName name) :
    pieces (p.join ⟨name⟩).bytes = p.stem ++ [name] := by
  rw [bytes_join hp h]
  split
  · obtain ⟨xs, hxs⟩ :=
      List.getLast?_eq_some_iff.1 ‹p.bytes.getLast? = some slash›
    rw [stem_of_slash hxs, hxs, List.append_assoc, List.singleton_append,
      pieces, piecesBetween_append]
    exact congrArg _ h.pieces
  · rw [stem_of_not_slash ‹_›, pieces, piecesBetween_append]
    exact congrArg _ h.pieces

theorem stem_join (hp : p.bytes ≠ []) (h : IsName name) :
    (p.join ⟨name⟩).stem = p.stem ++ [name] := by
  have hlast : (p.join ⟨name⟩).bytes.getLast? ≠ some slash := by
    rw [bytes_join hp h]
    split
    · exact h.getLast? p.bytes
    · have hassoc : p.bytes ++ slash :: name = (p.bytes ++ [slash]) ++
          name := by simp
      rw [hassoc]
      exact h.getLast? (p.bytes ++ [slash])
  rw [stem_of_not_slash hlast, pieces_join hp h]

theorem pieces_under (hp : p.bytes ≠ []) (h : ∀ n ∈ names, IsName n)
    (hnames : names ≠ []) : pieces (p.under names).bytes = p.stem ++ names := by
  induction names generalizing p with
  | nil => exact absurd rfl hnames
  | cons name names ih =>
      have hname := h name List.mem_cons_self
      rw [under_cons]
      cases names with
      | nil => exact pieces_join hp hname
      | cons name' names =>
          rw [ih (bytes_join_ne_nil hp hname) (fun n hn =>
            h n (List.mem_cons_of_mem _ hn))
            (List.cons_ne_nil _ _), stem_join hp hname, List.append_assoc,
              List.singleton_append]

theorem isAbsolute_join (hp : p.bytes ≠ []) (h : IsName name) :
    (p.join ⟨name⟩).isAbsolute = p.isAbsolute := by
  cases hb : p.bytes with
  | nil => exact absurd hb hp
  | cons x b =>
      rw [isAbsolute, isAbsolute, bytes_join hp h, hb]
      split <;> rfl

theorem isAbsolute_under (hp : p.bytes ≠ []) (h : ∀ n ∈ names, IsName n) :
    (p.under names).isAbsolute = p.isAbsolute := by
  induction names generalizing p with
  | nil => rfl
  | cons name names ih =>
      have hname := h name List.mem_cons_self
      rw [under_cons, ih (bytes_join_ne_nil hp hname) fun n hn =>
        h n (List.mem_cons_of_mem _ hn), isAbsolute_join hp hname]

theorem bytes_eq_nil_of_pieces {b : Bytes} (h : pieces b = [[]]) : b = [] := by
  cases b with
  | nil => rfl
  | cons x rest =>
      rw [pieces, piecesBetween] at h
      split at h
      · have hrest := (List.cons.inj h).2
        exact absurd hrest (piecesBetween_ne_nil slash rest)
      · split at h <;> cases h

/-- What the beginning of a path stands for does not change when a piece is
added, unless the path is empty. -/
theorem marker_concat {ps : List Bytes} (h : ps ≠ []) (hempty : ps ≠ [[]])
    (piece : Bytes) : marker (ps ++ [piece]) = marker ps := by
  cases ps with
  | nil => exact absurd rfl h
  | cons a as =>
      cases as with
      | cons b bs => cases a <;> rfl
      | nil =>
          cases a with
          | nil => exact absurd rfl hempty
          | cons x a => rfl

theorem stem_ne_nil (p : Path) : p.stem ≠ [] := by
  by_cases h : p.bytes.getLast? = some slash
  · obtain ⟨xs, hxs⟩ := List.getLast?_eq_some_iff.1 h
    rw [stem_of_slash hxs]
    exact pieces_ne_nil xs
  · rw [stem_of_not_slash h]
    exact pieces_ne_nil p.bytes

/-- A name is one component more, however the path is spelled. -/
theorem components_join (hp : p.bytes ≠ []) (h : IsName name) :
    (p.join ⟨name⟩).components = p.components ++ [.name name] := by
  have hmarker : marker (p.stem ++ [name]) = marker (pieces p.bytes) := by
    rcases pieces_eq_stem p with hstem | hstem
    · rw [← hstem]
      refine marker_concat (pieces_ne_nil _) (fun hempty => ?_) name
      exact hp (bytes_eq_nil_of_pieces hempty)
    · rw [hstem]
      cases hs : p.stem with
      | nil => exact absurd hs (stem_ne_nil p)
      | cons a as => cases as <;> cases a <;> rfl
  have hpieces : p.stem.filterMap Component.ofPiece =
      (pieces p.bytes).filterMap Component.ofPiece := by
    rcases pieces_eq_stem p with hstem | hstem
    · rw [hstem]
    · simp [hstem, Component.ofPiece]
  simp only [components, pieces_join hp h, hmarker, List.filterMap_append,
    hpieces, List.filterMap_cons, h.ofPiece, List.filterMap_nil,
    List.append_assoc]

theorem components_under (hp : p.bytes ≠ []) (h : ∀ n ∈ names, IsName n) :
    (p.under names).components = p.components ++ names.map .name := by
  induction names generalizing p with
  | nil => simp
  | cons name names ih =>
      have hname := h name List.mem_cons_self
      rw [under_cons, ih (bytes_join_ne_nil hp hname) fun n hn =>
        h n (List.mem_cons_of_mem _ hn), components_join hp hname,
          List.append_assoc]
      rfl

/-- A path that starts nowhere and leads over the given names. -/
def ofNames (names : List Bytes) : Path :=
  ⟨List.intercalate [slash] names⟩

theorem ofComponents_names (names : List Bytes) :
    ofComponents (names.map .name) = ofNames names := by
  have hroot : names.map Component.name ≠ [.root] := by
    intro h
    cases names with
    | nil => cases h
    | cons name names => cases (List.cons.inj h).1
  have hbytes : (names.map Component.name).map Component.bytes = names := by
    rw [List.map_map]
    exact List.map_id names
  rw [ofComponents, if_neg hroot, hbytes, ofNames]

theorem below_under (hp : p.bytes ≠ []) (h : ∀ n ∈ names, IsName n) :
    (p.under names).below p = ofNames names := by
  rw [below, relativeTo?, components_under hp h,
    List.isPrefixOf?_eq_some_iff_append_eq.2 rfl, Option.map_some,
    Option.getD_some, ofComponents_names]

theorem pieces_ofNames (h : ∀ n ∈ names, IsName n) (hnames : names ≠ []) :
    pieces (ofNames names).bytes = names := by
  induction names with
  | nil => exact absurd rfl hnames
  | cons name names ih =>
      have hname := h name List.mem_cons_self
      have hrest : ∀ n ∈ names, IsName n := fun n hn =>
        h n (List.mem_cons_of_mem _ hn)
      cases names with
      | nil =>
          rw [ofNames, List.intercalate_singleton]
          exact hname.pieces
      | cons name' names =>
          have ih' := ih hrest (List.cons_ne_nil _ _)
          rw [ofNames, List.intercalate_cons_cons, List.append_assoc,
            List.singleton_append, pieces,
            piecesBetween_append_separator hname.slash_notMem]
          exact congrArg (name :: ·) ih'

theorem components_ofNames (h : ∀ n ∈ names, IsName n) :
    (ofNames names).components = names.map .name := by
  cases names with
  | nil => rfl
  | cons name names =>
      have hname := h name List.mem_cons_self
      have hmarker : marker (name :: names) = [] := by
        cases name with
        | nil => exact absurd rfl hname.ne_nil
        | cons x name => exact if_neg hname.ne_dot
      have hall : ∀ ns : List Bytes, (∀ n ∈ ns, IsName n) →
          ns.filterMap Component.ofPiece = ns.map .name := by
        intro ns hns
        induction ns with
        | nil => rfl
        | cons n ns ih =>
            rw [List.filterMap_cons_some (hns n List.mem_cons_self).ofPiece,
              List.map_cons, ih fun m hm => hns m (List.mem_cons_of_mem _ hm)]
      rw [components, pieces_ofNames h (List.cons_ne_nil _ _), hmarker,
        hall _ h, List.nil_append]

/-- Different names make different paths, in the sense in which an aggregate
compares them. -/
theorem same_ofNames {names' : List Bytes} (h : ∀ n ∈ names, IsName n)
    (h' : ∀ n ∈ names', IsName n)
    (hsame : (ofNames names).same (ofNames names') = true) :
    names = names' := by
  rw [same_iff, components_ofNames h, components_ofNames h'] at hsame
  exact List.map_inj_right (fun a b hab => Component.name.inj hab) |>.1 hsame

end Path

end FileDigest
