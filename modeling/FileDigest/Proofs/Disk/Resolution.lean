import FileDigest.Proofs.Path.Names

/-!
# Where paths lead

A walk reaches a file by the names below its root, and the file is then opened
under the path that the root and these names make. That this leads to the same
file is not a matter of course: the root may be spelled with slashes, dots and
links in it, and all of these are followed anew. It holds because the way along
the longer path goes first to where the root leads and then straight on, over
directories that the walk has seen (`find_under`). Opening may fail, for
instance when the path is too long; but if it does not fail it opens that file.
-/

namespace FileDigest

def Node.IsLink : Node → Prop
  | link _ => True
  | _ => False

namespace Disk

variable {disk : Disk} {position q : List Bytes} {n : Node} {ps : List Bytes}
  {behind behind' : List Bytes → List Bytes → Except IoError Spot}

theorem find_eq_ok {fl : Bool} {path : Path} :
    disk.find fl path = .ok n ↔ ∃ q, disk.locate fl path =
      .ok (.there q n) := by
  unfold find
  constructor
  · intro h
    split at h
    · cases h
      exact ⟨_, ‹_›⟩
    · cases h
    · cases h
  · rintro ⟨q, h⟩
    rw [h]

theorem find_of_content {path : Path} {content : Bytes}
    (h : disk.content path = .ok content) :
    ∃ id modified, disk.find true path = .ok (.file id modified content) := by
  unfold Disk.content at h
  split at h
  · cases h
    exact ⟨_, _, ‹_›⟩
  · cases h
  · cases h
  · cases h

theorem locate_eq_there {fl : Bool} {path : Path} :
    disk.locate fl path = .ok (.there q n) ↔
      (0 : UInt8) ∉ path.bytes ∧ path.bytes ≠ [] ∧
      path.bytes.length ≤ pathLimit ∧
        disk.follow fl linkLimit (if path.isAbsolute then [] else disk.working)
          (Path.pieces path.bytes) = .ok (.there q n) := by
  unfold locate
  constructor
  · intro h
    split at h
    · cases h
    · split at h
      · cases h
      · split at h
        · cases h
        · exact ⟨‹_›, ‹_›, Nat.le_of_not_lt ‹_›, h⟩
  · rintro ⟨hnul, hempty, hlong, h⟩
    rw [if_neg hnul, if_neg hempty, if_neg (Nat.not_lt.2 hlong), h]

/-- Where one piece of a way leads from a position, whatever follows it. -/
inductive Turn where
  | on (position : List Bytes)
  /-- To a link at a position, whose target starts at another one. -/
  | link (position start : List Bytes) (target : Bytes)
  | absent (position : List Bytes)
  | error (e : IoError)

def turn (disk : Disk) (position : List Bytes) (piece : Bytes) : Turn :=
  match disk.root.at? position with
  | some (.directory _ _ entries) =>
      if piece = [] ∨ piece = [Path.dot] then .on position
      else if piece = [Path.dot, Path.dot] then .on position.dropLast
      else if nameLimit < piece.length then .error .nameTooLong
      else
        match entries.lookup piece with
        | none => .absent (position ++ [piece])
        | some (.link target) =>
            .link (position ++ [piece]) (if target.head? = some Path.slash
              then [] else position)
              target
        | some _ => .on (position ++ [piece])
  | some _ => .error .notADirectory
  | none => .error .notFound

theorem followPieces_cons (fl : Bool) (piece : Bytes) (rest : List Bytes) :
    disk.followPieces fl behind position (piece :: rest) =
      match disk.turn position piece with
      | .on position' => disk.followPieces fl behind position' rest
      | .link position' start target =>
          if rest = [] ∧ fl = false then .ok (.there position' (.link target))
          else behind start (Path.pieces target ++ rest)
      | .absent position' =>
          if rest = [] then .ok (.absent position') else .error .notFound
      | .error e => .error e := by
  rw [followPieces, turn]
  cases hnode : disk.root.at? position with
  | none => rfl
  | some node =>
      cases node with
      | directory id listable entries =>
          by_cases hstay : piece = [] ∨ piece = [Path.dot]
          · simp only [hstay, if_true]
          · by_cases hup : piece = [Path.dot, Path.dot]
            · simp only [hup, if_true]
              rfl
            · by_cases hlong : nameLimit < piece.length
              · simp only [hstay, hup, hlong, if_true, if_false]
              · simp only [hstay, hup, hlong, if_false]
                cases entries.lookup piece with
                | none => rfl
                | some child => cases child <;> rfl
      | _ => rfl

theorem followPieces_nil (fl : Bool) :
    disk.followPieces fl behind position [] =
      match disk.root.at? position with
      | some node => .ok (.there position node)
      | none => .error .notFound := by
  unfold followPieces
  cases disk.root.at? position <;> rfl

/-- A way that does not end at a link is the same whether a link at its end
counts or not. -/
theorem followPieces_of_not_isLink {fl : Bool}
    (hbehind : ∀ {start ts q n}, behind start ts = .ok (.there q n) →
      ¬ n.IsLink → behind' start ts = .ok (.there q n))
    (h : disk.followPieces fl behind position ps = .ok (.there q n))
    (hn : ¬ n.IsLink) :
    disk.followPieces true behind' position ps = .ok (.there q n) := by
  induction ps generalizing position with
  | nil =>
      rw [followPieces_nil] at h ⊢
      exact h
  | cons piece rest ih =>
      rw [followPieces_cons] at h ⊢
      cases hturn : disk.turn position piece with
      | on position' =>
          rw [hturn] at h
          exact ih h
      | link position' start target =>
          rw [hturn] at h
          dsimp only at h ⊢
          rw [if_neg (by simp)]
          split at h
          · cases h
            exact absurd trivial hn
          · exact hbehind h hn
      | absent position' =>
          rw [hturn] at h
          exact h
      | error e =>
          rw [hturn] at h
          exact h

theorem follow_of_not_isLink {fl : Bool} {links : Nat}
    (h : disk.follow fl links position ps = .ok (.there q n))
    (hn : ¬ n.IsLink) :
    disk.follow true links position ps = .ok (.there q n) := by
  induction links generalizing position ps q n with
  | zero => exact followPieces_of_not_isLink (fun h _ => h) h hn
  | succ links ih => exact followPieces_of_not_isLink (fun h hn => ih h hn) h hn

theorem find_of_not_isLink {fl : Bool} {path : Path}
    (h : disk.find fl path = .ok n) (hn : ¬ n.IsLink) :
    disk.find true path = .ok n := by
  obtain ⟨q, hq⟩ := find_eq_ok.1 h
  obtain ⟨hnul, hempty, hlong, hfollow⟩ := locate_eq_there.1 hq
  exact find_eq_ok.2
    ⟨q, locate_eq_there.2 ⟨hnul, hempty, hlong,
      follow_of_not_isLink hfollow hn⟩⟩

theorem at?_of_followPieces
    (hbehind : ∀ {start ts q n}, behind start ts = .ok (.there q n) →
      disk.root.at? q = some n)
    (h : disk.followPieces true behind position ps = .ok (.there q n)) :
    disk.root.at? q = some n := by
  induction ps generalizing position with
  | nil =>
      rw [followPieces_nil] at h
      split at h
      · cases h
        assumption
      · cases h
  | cons piece rest ih =>
      rw [followPieces_cons] at h
      cases hturn : disk.turn position piece with
      | on position' =>
          rw [hturn] at h
          exact ih h
      | link position' start target =>
          rw [hturn] at h
          dsimp only at h
          rw [if_neg (by simp)] at h
          exact hbehind h
      | absent position' =>
          rw [hturn] at h
          dsimp only at h
          split at h <;> cases h
      | error e =>
          rw [hturn] at h
          cases h

theorem at?_of_follow {links : Nat}
    (h : disk.follow true links position ps = .ok (.there q n)) :
    disk.root.at? q = some n := by
  induction links generalizing position ps q n with
  | zero => exact at?_of_followPieces (fun h => by cases h) h
  | succ links ih => exact at?_of_followPieces (fun h => ih h) h

theorem followPieces_dropEmpty
    (hbehind : ∀ {start ts q n}, behind start (ts ++ [[]]) = .ok (.there q n) →
      behind start ts = .ok (.there q n))
    (h : disk.followPieces true behind position (ps ++ [[]]) =
      .ok (.there q n)) :
    disk.followPieces true behind position ps = .ok (.there q n) := by
  induction ps generalizing position with
  | nil =>
      rw [List.nil_append, followPieces_cons, turn] at h
      cases hnode : disk.root.at? position with
      | none =>
          rw [hnode] at h
          cases h
      | some node =>
          rw [hnode] at h
          cases node with
          | directory id listable entries =>
              simp only [true_or, if_true] at h
              exact h
          | _ => cases h
  | cons piece rest ih =>
      rw [List.cons_append, followPieces_cons] at h
      rw [followPieces_cons]
      cases hturn : disk.turn position piece with
      | on position' =>
          rw [hturn] at h
          exact ih h
      | link position' start target =>
          rw [hturn] at h
          dsimp only at h ⊢
          rw [if_neg (by simp)] at h
          rw [if_neg (by simp)]
          rw [← List.append_assoc] at h
          exact hbehind h
      | absent position' =>
          rw [hturn] at h
          dsimp only at h
          split at h <;> cases h
      | error e =>
          rw [hturn] at h
          cases h

theorem follow_dropEmpty {links : Nat}
    (h : disk.follow true links position (ps ++ [[]]) = .ok (.there q n)) :
    disk.follow true links position ps = .ok (.there q n) := by
  induction links generalizing position ps q n with
  | zero => exact followPieces_dropEmpty (fun h => by cases h) h
  | succ links ih => exact followPieces_dropEmpty (fun h => ih h) h

theorem followPieces_append {more : List Bytes}
    (hbehind : ∀ {start ts q n}, behind start ts = .ok (.there q n) →
      ∃ b, behind start (ts ++ more) = disk.followPieces true b q more)
    (h : disk.followPieces true behind position ps = .ok (.there q n)) :
    ∃ b, disk.followPieces true behind position (ps ++ more) =
      disk.followPieces true b q more := by
  induction ps generalizing position with
  | nil =>
      rw [followPieces_nil] at h
      split at h
      · cases h
        exact ⟨behind, rfl⟩
      · cases h
  | cons piece rest ih =>
      rw [followPieces_cons] at h
      rw [List.cons_append, followPieces_cons]
      cases hturn : disk.turn position piece with
      | on position' =>
          rw [hturn] at h
          exact ih h
      | link position' start target =>
          rw [hturn] at h
          dsimp only at h ⊢
          rw [if_neg (by simp)] at h
          rw [if_neg (by simp), ← List.append_assoc]
          exact hbehind h
      | absent position' =>
          rw [hturn] at h
          dsimp only at h
          split at h <;> cases h
      | error e =>
          rw [hturn] at h
          cases h

theorem follow_append {links : Nat}
    (h : disk.follow true links position ps = .ok (.there q n))
    (more : List Bytes) :
    ∃ b, disk.follow true links position (ps ++ more) =
      disk.followPieces true b q more := by
  induction links generalizing position ps q n with
  | zero => exact followPieces_append (fun h => by cases h) h
  | succ links ih => exact followPieces_append (fun h => ih h) h

/-- A name leads from a directory to its entry, unless it is too long. -/
theorem turn_name {id : UInt64} {listable : Bool}
    {entries : List (Bytes × Node)} {name : Bytes} {child : Node}
    (htree : disk.root.at? q = some (.directory id listable entries))
    (hname : Path.IsName name) (hchild : entries.lookup name = some child)
    (hlink : ¬ child.IsLink) :
    disk.turn q name = .on (q ++ [name]) ∨ ∃ e, disk.turn q name =
      .error e := by
  have hstay : ¬ (name = [] ∨ name = [Path.dot]) :=
    fun hor => hor.elim hname.ne_nil hname.ne_dot
  rw [turn, htree]
  dsimp only
  rw [if_neg hstay, if_neg hname.ne_dots, hchild]
  split
  · exact Or.inr ⟨_, rfl⟩
  · cases child with
    | link target => exact absurd trivial hlink
    | _ => exact Or.inl rfl

/-- Names lead from a node straight to what lies below it. -/
theorem eq_of_followPieces_names {names : List Bytes} {tree node m : Node}
    {r : List Bytes} (htree : disk.root.at? q = some tree)
    (hnode : tree.at? names = some node) (hlink : ¬ node.IsLink)
    (hnames : ∀ name ∈ names, Path.IsName name)
    (h : disk.followPieces true behind q names = .ok (.there r m)) :
    m = node := by
  induction names generalizing q tree with
  | nil =>
      rw [followPieces_nil, htree] at h
      cases hnode
      cases h
      rfl
  | cons name names ih =>
      have hname := hnames name List.mem_cons_self
      rw [Node.at?_cons] at hnode
      obtain ⟨child, hchild, hrest⟩ := Option.bind_eq_some_iff.1 hnode
      cases tree with
      | directory id listable entries =>
          have hlookup : entries.lookup name = some child := hchild
          have hchildLink : ¬ child.IsLink := by
            cases names with
            | nil =>
                cases hrest
                exact hlink
            | cons name' names =>
                cases child with
                | link target => cases hrest
                | _ => exact fun h => h
          have hnext : disk.root.at? (q ++ [name]) = some child := by
            rw [Node.at?_append, htree, Option.bind_some, Node.at?_cons, hchild]
            rfl
          rw [followPieces_cons] at h
          rcases turn_name htree hname hlookup hchildLink with
            hturn | ⟨e, hturn⟩
          · rw [hturn] at h
            exact ih hnext hrest (fun n hn =>
              hnames n (List.mem_cons_of_mem _ hn)) h
          · rw [hturn] at h
            cases h
      | _ => cases hchild

/-- If the path of a root with names below it leads anywhere, it leads to what
lies at these names below what the root leads to. -/
theorem find_under {root : Path} {names : List Bytes} {tree node m : Node}
    (htree : disk.find true root = .ok tree)
    (hnode : tree.at? names = some node) (hlink : ¬ node.IsLink)
    (hnames : ∀ name ∈ names, Path.IsName name)
    (h : disk.find true (root.under names) = .ok m) : m = node := by
  by_cases hempty : names = []
  · subst hempty
    cases hnode
    rw [Path.under_nil, htree] at h
    exact (Except.ok.inj h).symm
  · obtain ⟨q, hq⟩ := find_eq_ok.1 htree
    obtain ⟨-, hroot, -, hfollow⟩ := locate_eq_there.1 hq
    obtain ⟨r, hr⟩ := find_eq_ok.1 h
    obtain ⟨-, -, -, hunder⟩ := locate_eq_there.1 hr
    rw [Path.isAbsolute_under hroot hnames,
      Path.pieces_under hroot hnames hempty] at hunder
    have hstem : disk.follow true linkLimit (if root.isAbsolute then []
        else disk.working)
        root.stem = .ok (.there q tree) := by
      rcases Path.pieces_eq_stem root with heq | heq
      · rwa [heq] at hfollow
      · rw [heq] at hfollow
        exact follow_dropEmpty hfollow
    obtain ⟨b, hb⟩ := follow_append hstem names
    rw [hb] at hunder
    exact eq_of_followPieces_names (at?_of_follow hstem) hnode
      hlink hnames hunder

end Disk

end FileDigest
