import FileDigest.Bytes.Utf8
import FileDigest.Pieces

/-!
# Paths

A path is the byte string that a caller wrote. Two paths are the same path when
they have the same components: repeated slashes count once, a dot between
slashes and a slash at the end count for nothing, while a leading dot of a
relative path, two dots and the leading slash each are a component of their own.
The bytes are kept beside this reading, because a contribution to an aggregate
hashes them as they were written.
-/

namespace FileDigest

structure Path where
  bytes : Bytes
deriving DecidableEq, Repr

inductive Component where
  | root
  | here
  | up
  | name (bytes : Bytes)
deriving DecidableEq, Repr, Hashable

namespace Path

def slash : UInt8 := 0x2f

def dot : UInt8 := 0x2e

def ofText (s : String) : Path :=
  ⟨Bytes.ofText s⟩

def text (p : Path) : String :=
  Bytes.lossyText p.bytes

/-- What stands between the slashes, in order; there is always at least one
piece. -/
def pieces (b : Bytes) : List Bytes :=
  piecesBetween slash b

@[simp] theorem pieces_nil : pieces [] = [[]] := rfl

theorem pieces_ne_nil (b : Bytes) : pieces b ≠ [] :=
  piecesBetween_ne_nil slash b

theorem pieces_slash_cons (b : Bytes) : pieces (slash :: b) = [] :: pieces b :=
  piecesBetween_separator_cons slash b

end Path

namespace Component

def ofPiece (piece : Bytes) : Option Component :=
  if piece = [] ∨ piece = [Path.dot] then none
  else if piece = [Path.dot, Path.dot] then some .up
  else some (.name piece)

def bytes : Component → Bytes
  | .root => []
  | .here => [Path.dot]
  | .up => [Path.dot, Path.dot]
  | .name b => b

end Component

namespace Path

/-- The component that the beginning of a path stands for, if any. -/
def marker : List Bytes → List Component
  | [] :: _ :: _ => [.root]
  | piece :: _ => if piece = [dot] then [.here] else []
  | [] => []

def components (p : Path) : List Component :=
  let ps := pieces p.bytes
  marker ps ++ ps.filterMap Component.ofPiece

def same (p q : Path) : Bool :=
  p.components == q.components

theorem same_iff {p q : Path} : p.same q = true ↔
    p.components = q.components := by
  simp [same]

@[simp] theorem same_refl (p : Path) : p.same p = true := by simp [same_iff]

theorem same_comm (p q : Path) : p.same q = q.same p := by
  simp [same, Bool.beq_comm]

theorem same_trans {p q r : Path} (h₁ : p.same q = true)
    (h₂ : q.same r = true) : p.same r = true := by
  rw [same_iff] at *
  exact h₁.trans h₂

def isAbsolute (p : Path) : Bool :=
  p.bytes.head? == some slash

/-- Whether nothing has to be put between the path and a step that is added to
it. -/
def endsOpen (p : Path) : Bool :=
  p.bytes == [] || p.bytes.getLast? == some slash

/-- The path with further steps added; an absolute path takes the place of what
it is added to. -/
def join (p q : Path) : Path :=
  if q.isAbsolute then q
  else if p.endsOpen then ⟨p.bytes ++ q.bytes⟩
  else ⟨p.bytes ++ slash :: q.bytes⟩

def ofComponents (cs : List Component) : Path :=
  if cs = [.root] then ⟨[slash]⟩
  else ⟨List.intercalate [slash] (cs.map Component.bytes)⟩

/-- What follows a root in a path below it. -/
def relativeTo? (p root : Path) : Option Path :=
  (root.components.isPrefixOf? p.components).map ofComponents

def fileName? (p : Path) : Option Bytes :=
  match p.components.getLast? with
  | some (.name b) => some b
  | _ => none

/-- What follows the last dot of a name. A dot in front of the whole name starts
no extension. -/
def extensionOfName (name : Bytes) : Option Bytes :=
  let reversed := name.reverse
  let after := reversed.takeWhile (· != dot)
  let before := (reversed.dropWhile (· != dot)).drop 1
  if after.length = name.length ∨ before = [] then none else some after.reverse

def extension? (p : Path) : Option Bytes :=
  p.fileName?.bind extensionOfName

def trimmedBytes (b : Bytes) : Bytes :=
  let reversed := b.reverse
  let rec strip : Bytes → Bytes
    | x :: y :: rest =>
        if x = slash then strip (y :: rest)
        else if x = dot ∧ y = slash then strip (y :: rest)
        else x :: y :: rest
    | rest => rest
  (strip reversed).reverse

/-- The path with a further extension after its last name; a path that ends in
no name has nothing to extend. -/
def withSuffix (p : Path) (suffix : Bytes) : Path :=
  match p.fileName? with
  | some _ => ⟨trimmedBytes p.bytes ++ suffix⟩
  | none => p

example : (ofText "a//b/./c/").components = (ofText "a/b/c").components := by
  decide +kernel

example : (ofText "./a").components = [.here, .name [0x61]] := by decide +kernel

example : (ofText "").components = [] ∧ (ofText "/").components = [.root] := by
  decide +kernel

example : (ofText "t//a/b").relativeTo? (ofText "t/") =
    some (ofText "a/b") := by decide +kernel

example : (ofText ".toml").extension? = none ∧
    (ofText "a.b.toml").extension? = some (Bytes.ofText "toml") := by
  decide +kernel

end Path

end FileDigest
