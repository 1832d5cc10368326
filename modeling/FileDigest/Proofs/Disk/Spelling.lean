import FileDigest.Proofs.Disk.Resolution
import FileDigest.Proofs.Path.Spelling

/-!
# Spellings of a path on a disk

Paths with the same components lead to the same node, if both lead anywhere.
They need not: a slash or a dot behind a file asks for a directory, and more
bytes may be too many. So a piece that does not count can stop a way, but it
cannot turn it (`turn_of_not_counts`), and a way that came to its end comes to
the same end without such pieces, over the same links.
-/

namespace FileDigest

namespace Path

/-- The second list is the first without some of the pieces that do not
count. -/
inductive Thinned : List Bytes → List Bytes → Prop where
  | nil : Thinned [] []
  | keep (piece : Bytes) {ps qs : List Bytes} : Thinned ps qs →
      Thinned (piece :: ps) (piece :: qs)
  | skip {piece : Bytes} {ps qs : List Bytes} :
      piece = [] ∨ piece = [dot] → Thinned ps qs → Thinned (piece :: ps) qs

theorem Thinned.append_left {ps qs : List Bytes} (h : Thinned ps qs)
    (ts : List Bytes) : Thinned (ts ++ ps) (ts ++ qs) := by
  induction ts with
  | nil => exact h
  | cons t ts ih => exact .keep t ih

theorem thinned_steps (ps : List Bytes) : Thinned ps (steps ps) := by
  induction ps with
  | nil => exact .nil
  | cons piece ps ih =>
      by_cases h : piece = [] ∨ piece = [dot]
      · rw [steps_cons_of_not_counts h]
        exact .skip h ih
      · rw [steps_cons_of_counts h]
        exact .keep piece ih

theorem isAbsolute_iff_marker {p : Path} :
    p.isAbsolute = true ↔ marker (pieces p.bytes) = [.root] := by
  cases hb : p.bytes with
  | nil => simp [isAbsolute, hb, marker]
  | cons x b =>
      by_cases hx : x = slash
      · subst hx
        obtain ⟨a, as, hps⟩ := List.exists_cons_of_ne_nil (pieces_ne_nil b)
        rw [pieces_slash_cons, hps]
        simp [isAbsolute, hb, marker]
      · obtain ⟨piece, rest, hps⟩ :=
          List.exists_cons_of_ne_nil (pieces_ne_nil b)
        have hpieces : pieces (x :: b) = (x :: piece) :: rest := by
          rw [pieces, piecesBetween, if_neg hx, ← pieces, hps]
        have hmarker : marker ((x :: piece) :: rest) ≠ [.root] := by
          change (if x :: piece = [dot] then [Component.here] else []) ≠ [.root]
          split <;> simp
        rw [hpieces]
        simp [isAbsolute, hb, hx, hmarker]

end Path

namespace Disk

variable {disk : Disk} {position q : List Bytes} {n : Node}
  {ps ps' : List Bytes} {behind : List Bytes → List Bytes → Except IoError Spot}

theorem turn_of_not_counts {piece : Bytes}
    (h : piece = [] ∨ piece = [Path.dot]) :
    disk.turn position piece = .on position ∨ ∃ e, disk.turn position piece =
      .error e := by
  unfold turn
  split
  · rw [if_pos h]
    exact Or.inl rfl
  · exact Or.inr ⟨_, rfl⟩
  · exact Or.inr ⟨_, rfl⟩

theorem followPieces_thinned
    (hbehind : ∀ {start ts ts' q n}, Path.Thinned ts ts' → behind start ts =
      .ok (.there q n) → behind start ts' = .ok (.there q n))
    (hps : Path.Thinned ps ps')
    (h : disk.followPieces true behind position ps = .ok (.there q n)) :
    disk.followPieces true behind position ps' = .ok (.there q n) := by
  induction hps generalizing position with
  | nil => exact h
  | skip hpiece _ ih =>
      rw [followPieces_cons] at h
      rcases turn_of_not_counts hpiece with hturn | ⟨e, hturn⟩
      · rw [hturn] at h
        exact ih h
      · rw [hturn] at h
        cases h
  | keep piece hrest ih =>
      rw [followPieces_cons] at h ⊢
      cases hturn : disk.turn position piece with
      | on position' =>
          rw [hturn] at h
          exact ih h
      | link position' start target =>
          rw [hturn] at h
          dsimp only at h ⊢
          rw [if_neg (by simp)] at h ⊢
          exact hbehind (hrest.append_left _) h
      | absent position' =>
          rw [hturn] at h
          dsimp only at h
          split at h <;> cases h
      | error e =>
          rw [hturn] at h
          cases h

theorem follow_thinned {links : Nat} (hps : Path.Thinned ps ps')
    (h : disk.follow true links position ps = .ok (.there q n)) :
    disk.follow true links position ps' = .ok (.there q n) := by
  induction links generalizing position ps ps' q n with
  | zero => exact followPieces_thinned (fun _ h => by cases h) hps h
  | succ links ih => exact followPieces_thinned (fun hts h => ih hts h) hps h

/-- Where a path leads, its pieces that count lead. -/
theorem follow_steps_of_find {path : Path} (h : disk.find true path = .ok n) :
    ∃ q, disk.follow true linkLimit (if path.isAbsolute then []
      else disk.working)
      (Path.steps (Path.pieces path.bytes)) = .ok (.there q n) := by
  obtain ⟨q, hq⟩ := find_eq_ok.1 h
  obtain ⟨-, -, -, hfollow⟩ := locate_eq_there.1 hq
  exact ⟨q, follow_thinned (Path.thinned_steps _) hfollow⟩

variable {p p' : Path}

/-- All spellings of a path that lead anywhere lead to one node. -/
theorem find_eq_of_same {m : Node} (hsame : p.same p' = true)
    (hp : disk.find true p = .ok n) (hp' : disk.find true p' = .ok m) :
    n = m := by
  obtain ⟨hmarker, hsteps⟩ :=
    Path.components_eq_iff_steps.1 (Path.same_iff.1 hsame)
  have habsolute : p.isAbsolute = p'.isAbsolute := by
    rw [Bool.eq_iff_iff, Path.isAbsolute_iff_marker,
      Path.isAbsolute_iff_marker, hmarker]
  obtain ⟨q, hq⟩ := follow_steps_of_find hp
  obtain ⟨q', hq'⟩ := follow_steps_of_find hp'
  rw [habsolute, hsteps, hq'] at hq
  cases hq
  rfl

theorem stat_eq_ok {status : FileStatus} :
    disk.stat p = .ok status ↔ ∃ n, disk.find true p = .ok n ∧
    statusOf n = status := by
  unfold stat
  cases disk.find true p <;> simp

theorem read_eq_ok {x : Option Digest} :
    disk.read p = .ok x ↔ ∃ content, disk.content p = .ok content ∧
    some (Blake3.hash content) = x := by
  unfold read
  cases disk.content p <;> simp

theorem content_of_find {id : UInt64} {modified : Timestamp} {content : Bytes}
    (h : disk.find true p = .ok (.file id modified content)) :
    disk.content p = .ok content := by
  rw [Disk.content, h]

theorem stat_eq_of_same {status status' : FileStatus} (hsame : p.same p' = true)
    (hp : disk.stat p = .ok status) (hp' : disk.stat p' = .ok status') :
    status = status' := by
  obtain ⟨n, hn, rfl⟩ := stat_eq_ok.1 hp
  obtain ⟨m, hm, rfl⟩ := stat_eq_ok.1 hp'
  rw [find_eq_of_same hsame hn hm]

theorem read_of_same {status : FileStatus} {x : Option Digest}
    (hsame : p.same p' = true) (hp : disk.read p = .ok x)
    (hp' : disk.stat p' = .ok status) : disk.read p' = .ok x := by
  obtain ⟨content, hcontent, rfl⟩ := read_eq_ok.1 hp
  obtain ⟨id, modified, hn⟩ := find_of_content hcontent
  obtain ⟨m, hm, -⟩ := stat_eq_ok.1 hp'
  obtain rfl := find_eq_of_same hsame hn hm
  exact read_eq_ok.2 ⟨content, content_of_find hm, rfl⟩

theorem exists_stat_of_read {x : Option Digest} (h : disk.read p = .ok x) :
    ∃ status, disk.stat p = .ok status := by
  obtain ⟨content, hcontent, -⟩ := read_eq_ok.1 h
  obtain ⟨id, modified, hn⟩ := find_of_content hcontent
  exact ⟨_, stat_eq_ok.2 ⟨_, hn, rfl⟩⟩

theorem read_eq_of_same {x y : Option Digest} (hsame : p.same p' = true)
    (hp : disk.read p = .ok x) (hp' : disk.read p' = .ok y) : x = y := by
  obtain ⟨status, hstat⟩ := exists_stat_of_read hp'
  exact Except.ok.inj ((read_of_same hsame hp hstat).symm.trans hp')

/-- Reading fails for the reason for which asking for the status does. -/
theorem read_of_stat_error {e : IoError} (h : disk.stat p = .error e) :
    disk.read p = .error e := by
  unfold stat at h
  rw [read, Disk.content]
  cases hn : disk.find true p with
  | ok n =>
      rw [hn] at h
      cases h
  | error e' =>
      rw [hn] at h
      cases h
      rfl

end Disk

end FileDigest
