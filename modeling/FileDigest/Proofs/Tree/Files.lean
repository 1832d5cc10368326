import FileDigest.Proofs.Lists
import FileDigest.Proofs.Path.Names

/-!
# The files of a tree

`Node.files` lists the regular files below a node with the names that lead to
them, in the order in which a walk comes to them. It is what a walk visits
(`walk_eq`), and in a tree whose directories call no two entries by one name it
has every position that holds a regular file once (`mem_files_iff`,
`nodup_files`). So what is said of the list without its order is said of the
tree.
-/

namespace FileDigest.Node

@[elab_as_elim]
theorem inductionOn {motive : Node → Prop} (n : Node)
    (file : ∀ id modified content, motive (.file id modified content))
    (directory : ∀ id listable entries, (∀ e ∈ entries, motive e.2) →
      motive (.directory id listable entries))
    (link : ∀ target, motive (.link target))
    (special : ∀ id, motive (.special id)) : motive n := by
  refine Node.rec (motive_1 := motive) (motive_2 := fun entries =>
    ∀ e ∈ entries, motive e.2)
    (motive_3 := fun e => motive e.2) file directory link special ?_ ?_ ?_ n
  · intro e he
    cases he
  · intro e entries he hentries e' he'
    rcases List.mem_cons.1 he' with rfl | he'
    · exact he
    · exact hentries e' he'
  · exact fun _ _ h => h

mutual

/-- The regular files below a node: their names from there, and their
contents. -/
def files : Node → List (List Bytes × Bytes)
  | .file _ _ content => [([], content)]
  | .directory _ _ entries => filesOf entries
  | .link _ => []
  | .special _ => []

def filesOf : List (Bytes × Node) → List (List Bytes × Bytes)
  | [] => []
  | (name, node) :: rest =>
      node.files.map (fun f => (name :: f.1, f.2)) ++ filesOf rest

end

theorem filesOf_nil : filesOf [] = [] := rfl

theorem filesOf_cons (name : Bytes) (node : Node) (rest : List (Bytes × Node)) :
    filesOf ((name, node) :: rest) =
      node.files.map (fun f => (name :: f.1, f.2)) ++ filesOf rest := rfl

def visit (root : Path) (f : List Bytes × Bytes) : Visit :=
  .file (root.under f.1)
    (if (root.under f.1).isShort then .known (UInt64.ofNat f.2.length)
      else .unknown)

theorem walkEntries_eq {entries : List (Bytes × Node)} {root : Path}
    (hentries : ∀ e ∈ entries, ∀ root,
      (∀ path cause, Visit.failed path cause ∉ e.2.walk root) →
      e.2.walk root = e.2.files.map (visit root))
    (h : ∀ path cause, Visit.failed path cause ∉ walkEntries root entries) :
    walkEntries root entries = (filesOf entries).map (visit root) := by
  induction entries with
  | nil => rfl
  | cons e entries ih =>
      obtain ⟨name, node⟩ := e
      rw [walkEntries_cons] at h ⊢
      have hnode := hentries (name, node) List.mem_cons_self (root.join ⟨name⟩)
        fun path cause hmem => h path cause (List.mem_append_left _ hmem)
      have hrest := ih (fun e he => hentries e (List.mem_cons_of_mem _ he))
        fun path cause hmem => h path cause (List.mem_append_right _ hmem)
      rw [hnode, hrest, filesOf_cons, List.map_append, List.map_map]
      rfl

/-- A walk that can look everywhere visits the files. -/
theorem walk_eq {n : Node} {root : Path}
    (h : ∀ path cause, Visit.failed path cause ∉ n.walk root) :
    n.walk root = n.files.map (visit root) := by
  induction n using inductionOn generalizing root with
  | file id modified content => rfl
  | directory id listable entries ih =>
      rw [walk] at h ⊢
      split at h
      · exact absurd List.mem_cons_self (h _ _)
      · split at h
        · exact absurd List.mem_cons_self (h _ _)
        · rw [if_neg ‹_›, if_neg ‹_›, files]
          exact walkEntries_eq (fun e he root hroot => ih e he hroot) h
  | link target => rfl
  | special id => rfl

/-- Every directory below the node calls its entries by names, and no two of
them by the same. -/
def WellFormed (n : Node) : Prop :=
  ∀ names id listable entries,
    n.at? names = some (.directory id listable entries) →
    (entries.map (·.1)).Nodup ∧ ∀ e ∈ entries, Path.IsName e.1

theorem wellFormed_file (id : UInt64) (modified : Timestamp) (content : Bytes) :
    (file id modified content).WellFormed := by
  intro names id' listable entries h
  cases names <;> cases h

theorem wellFormed_link (target : Bytes) : (link target).WellFormed := by
  intro names id listable entries h
  cases names <;> cases h

theorem wellFormed_directory (id : UInt64) (listable : Bool)
    {entries : List (Bytes × Node)} (hnodup : (entries.map (·.1)).Nodup)
    (hnames : ∀ e ∈ entries, Path.IsName e.1)
    (hentries : ∀ e ∈ entries, e.2.WellFormed) :
    (directory id listable entries).WellFormed := by
  intro names id' listable' entries' h
  cases names with
  | nil =>
      cases h
      exact ⟨hnodup, hnames⟩
  | cons name names =>
      rw [at?_cons] at h
      obtain ⟨node, hlookup, hat⟩ := Option.bind_eq_some_iff.1 h
      exact hentries _ (mem_of_lookup hlookup) names id' listable' entries' hat

theorem WellFormed.of_mem {id : UInt64} {listable : Bool}
    {entries : List (Bytes × Node)}
    (h : (directory id listable entries).WellFormed) {name : Bytes}
    {node : Node} (hmem : (name, node) ∈ entries) : node.WellFormed := by
  intro names id' listable' entries' hat
  refine h (name :: names) id' listable' entries' ?_
  rw [at?_cons, child?, lookup_of_mem (h [] id listable entries rfl).1 hmem]
  exact hat

theorem mem_filesOf {entries : List (Bytes × Node)} {f : List Bytes × Bytes} :
    f ∈ filesOf entries ↔
      ∃ name node names, (name, node) ∈ entries ∧ (names, f.2) ∈ node.files ∧
        f.1 = name :: names := by
  induction entries with
  | nil => simp [filesOf_nil]
  | cons e entries ih =>
      obtain ⟨name, node⟩ := e
      rw [filesOf_cons, List.mem_append, ih, List.mem_map]
      constructor
      · rintro (⟨g, hg, rfl⟩ | ⟨name', node', names, hmem, hf, heq⟩)
        · exact ⟨name, node, g.1, List.mem_cons_self, hg, rfl⟩
        · exact ⟨name', node', names, List.mem_cons_of_mem _ hmem, hf, heq⟩
      · rintro ⟨name', node', names, hmem, hf, heq⟩
        rcases List.mem_cons.1 hmem with hhead | hmem
        · cases hhead
          exact Or.inl ⟨(names, f.2), hf, Prod.ext heq.symm rfl⟩
        · exact Or.inr ⟨name', node', names, hmem, hf, heq⟩

theorem mem_files_iff {n : Node} (h : n.WellFormed) {names : List Bytes}
    {content : Bytes} :
    (names, content) ∈ n.files ↔ ∃ id modified,
      n.at? names = some (.file id modified content) := by
  induction n using inductionOn generalizing names with
  | file id modified content' =>
      cases names with
      | nil => simp [files, eq_comm]
      | cons name names => simp [files, at?_cons, child?]
  | directory id listable entries ih =>
      cases names with
      | nil => simp [files, mem_filesOf]
      | cons name names =>
          rw [files, mem_filesOf, at?_cons, child?]
          constructor
          · rintro ⟨name', node, names', hmem, hf, heq⟩
            cases heq
            rw [lookup_of_mem (h [] id listable entries rfl).1 hmem]
            exact (ih _ hmem (h.of_mem hmem)).1 hf
          · rintro ⟨id', modified, hat⟩
            obtain ⟨node, hlookup, hat⟩ := Option.bind_eq_some_iff.1 hat
            have hmem := mem_of_lookup hlookup
            exact ⟨name, node, names, hmem,
              (ih _ hmem (h.of_mem hmem)).2 ⟨id', modified, hat⟩, rfl⟩
  | link target =>
      cases names with
      | nil => simp [files]
      | cons name names => simp [files, at?_cons, child?]
  | special id =>
      cases names with
      | nil => simp [files]
      | cons name names => simp [files, at?_cons, child?]

theorem isName_of_mem_files {n : Node} (h : n.WellFormed)
    {f : List Bytes × Bytes} (hf : f ∈ n.files) :
    ∀ name ∈ f.1, Path.IsName name := by
  induction n using inductionOn generalizing f with
  | file id modified content =>
      rw [files, List.mem_singleton] at hf
      subst hf
      intro name hname
      cases hname
  | directory id listable entries ih =>
      obtain ⟨name, node, names, hmem, hnode, heq⟩ := mem_filesOf.1 hf
      intro name' hname'
      rw [heq] at hname'
      rcases List.mem_cons.1 hname' with rfl | hname'
      · exact (h [] id listable entries rfl).2 _ hmem
      · exact ih _ hmem (h.of_mem hmem) hnode name' hname'
  | link target => cases hf
  | special id => cases hf

theorem nodup_names_filesOf {entries : List (Bytes × Node)}
    (h : (entries.map (·.1)).Nodup)
    (hentries : ∀ e ∈ entries, (e.2.files.map (·.1)).Nodup) :
    ((filesOf entries).map (·.1)).Nodup := by
  induction entries with
  | nil => exact List.nodup_nil
  | cons e entries ih =>
      obtain ⟨name, node⟩ := e
      rw [List.map_cons, List.nodup_cons] at h
      rw [filesOf_cons, List.map_append, List.map_map, List.nodup_append]
      refine ⟨?_, ih h.2 fun e he => hentries e (List.mem_cons_of_mem _ he), ?_⟩
      · have hnode := hentries (name, node) List.mem_cons_self
        have hmap : node.files.map ((·.1) ∘ fun f => (name :: f.1, f.2)) =
            (node.files.map (·.1)).map (name :: ·) := by
          rw [List.map_map]
          rfl
        rw [hmap]
        exact List.Pairwise.map _ (fun a b hab heq =>
          hab (List.cons.inj heq).2) hnode
      · intro a ha b hb hab
        obtain ⟨f, -, rfl⟩ := List.mem_map.1 ha
        obtain ⟨g, hg, rfl⟩ := List.mem_map.1 hb
        obtain ⟨name', node', names, hmem, -, heq⟩ := mem_filesOf.1 hg
        have hname : name = name' := (List.cons.inj (hab.trans heq)).1
        subst hname
        exact h.1 (List.mem_map.2 ⟨_, hmem, rfl⟩)

theorem nodup_names_files {n : Node} (h : n.WellFormed) :
    (n.files.map (·.1)).Nodup := by
  induction n using inductionOn with
  | file id modified content => simp [files]
  | directory id listable entries ih =>
      exact nodup_names_filesOf (h [] id listable entries rfl).1 fun e he =>
        ih e he (h.of_mem he)
  | link target => exact List.nodup_nil
  | special id => exact List.nodup_nil

theorem nodup_files {n : Node} (h : n.WellFormed) : n.files.Nodup :=
  List.Pairwise.of_map _ (fun _ _ => mt (congrArg Prod.fst))
    (nodup_names_files h)

end FileDigest.Node
