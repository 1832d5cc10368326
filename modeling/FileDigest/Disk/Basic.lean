import FileDigest.Blake3
import FileDigest.Resolver

/-!
# A disk

A disk is a tree of directories, files and links below a root, together with a
working directory at which relative paths start. A path is followed piece by
piece: a piece can only be taken from a directory, an empty piece or a dot stays
there, two dots go up, and a link is replaced by the pieces of its target. The
system follows forty links on one way, and limits names to 255 bytes and paths
to 4095.

Positions on a disk are the names from the root downward. They contain no links
and no dots, so a position is where a way ends and not how it was written.
-/

namespace FileDigest

inductive Node where
  | file (id : UInt64) (modified : Timestamp) (content : Bytes)
  /-- A directory with its entries in the order in which they are enumerated.
  One that may not be listed can still be passed through. -/
  | directory (id : UInt64) (listable : Bool) (entries : List (Bytes × Node))
  | link (target : Bytes)
  /-- Anything else, such as a named pipe. -/
  | special (id : UInt64)

namespace Node

def child? (n : Node) (name : Bytes) : Option Node :=
  match n with
  | directory _ _ entries => entries.lookup name
  | _ => none

def at? (n : Node) : List Bytes → Option Node
  | [] => some n
  | name :: rest =>
      match n.child? name with
      | some c => c.at? rest
      | none => none

@[simp] theorem at?_nil (n : Node) : n.at? [] = some n := rfl

theorem at?_cons (n : Node) (name : Bytes) (rest : List Bytes) :
    n.at? (name :: rest) = (n.child? name).bind (·.at? rest) := by
  rw [at?]
  cases n.child? name <;> rfl

theorem at?_append (n : Node) (xs ys : List Bytes) :
    n.at? (xs ++ ys) = (n.at? xs).bind (·.at? ys) := by
  induction xs generalizing n with
  | nil => simp
  | cons x xs ih =>
      rw [List.cons_append, at?_cons, at?_cons]
      cases n.child? x with
      | none => rfl
      | some c => simp [ih]

end Node

/-- A tree of nodes and the directory at which relative paths start. -/
structure Disk where
  root : Node
  working : List Bytes

/-- Where a way along a path ends. -/
inductive Spot where
  | there (position : List Bytes) (node : Node)
  | absent (position : List Bytes)

namespace Disk

/-- How many links the system follows on one way. -/
def linkLimit : Nat := 40

def nameLimit : Nat := 255

def pathLimit : Nat := 4095

/-- Follows the pieces of a path from a position, up to a link. What comes of
the way behind it is given: it starts at the directory that the link is in or at
the root, with the pieces of the target in front of those that are left. Whether
a link at the very end counts is up to the caller. -/
def followPieces (disk : Disk) (followLast : Bool)
    (behindLink : List Bytes → List Bytes → Except IoError Spot)
    (position : List Bytes) :
    List Bytes → Except IoError Spot
  | [] =>
      match disk.root.at? position with
      | some node => .ok (.there position node)
      | none => .error .notFound
  | piece :: rest =>
      match disk.root.at? position with
      | some (.directory _ _ entries) =>
          if piece = [] ∨ piece = [Path.dot] then
            disk.followPieces followLast behindLink position rest
          else if piece = [Path.dot, Path.dot] then
            disk.followPieces followLast behindLink position.dropLast rest
          else if nameLimit < piece.length then .error .nameTooLong
          else
            match entries.lookup piece with
            | none =>
                if rest = [] then .ok (.absent (position ++ [piece]))
                else .error .notFound
            | some (.link target) =>
                if rest = [] ∧ followLast = false then
                  .ok (.there (position ++ [piece]) (.link target))
                else
                  behindLink (if target.head? = some Path.slash then []
                    else position)
                    (Path.pieces target ++ rest)
            | some _ =>
                disk.followPieces followLast behindLink
                  (position ++ [piece]) rest
      | some _ => .error .notADirectory
      | none => .error .notFound

def follow (disk : Disk) (followLast : Bool) :
    Nat → List Bytes → List Bytes → Except IoError Spot
  | 0 => disk.followPieces followLast fun _ _ => .error .tooManyLinks
  | links + 1 => disk.followPieces followLast (disk.follow followLast links)

def locate (disk : Disk) (followLast : Bool) (path : Path) :
    Except IoError Spot :=
  if (0 : UInt8) ∈ path.bytes then .error .nulInName
  else if path.bytes = [] then .error .notFound
  else if pathLimit < path.bytes.length then .error .nameTooLong
  else
    disk.follow followLast linkLimit (if path.isAbsolute then []
      else disk.working)
      (Path.pieces path.bytes)

def find (disk : Disk) (followLast : Bool) (path : Path) :
    Except IoError Node :=
  match disk.locate followLast path with
  | .ok (.there _ node) => .ok node
  | .ok (.absent _) => .error .notFound
  | .error e => .error e

/-- The status of a node. What a directory or a pipe tells of its size and time
says nothing about content. -/
def statusOf : Node → FileStatus
  | .file id modified content => ⟨id, modified, UInt64.ofNat content.length⟩
  | .directory id _ _ => ⟨id, Timestamp.epoch, 4096⟩
  | .link target => ⟨0, Timestamp.epoch, UInt64.ofNat target.length⟩
  | .special id => ⟨id, Timestamp.epoch, 0⟩

def stat (disk : Disk) (path : Path) : Except IoError FileStatus :=
  match disk.find true path with
  | .ok node => .ok (statusOf node)
  | .error e => .error e

def content (disk : Disk) (path : Path) : Except IoError Bytes :=
  match disk.find true path with
  | .ok (.file _ _ content) => .ok content
  | .ok (.directory ..) => .error .isADirectory
  | .ok _ => .error ⟨.other, "not a regular file"⟩
  | .error e => .error e

def read (disk : Disk) (path : Path) : Except IoError (Option Digest) :=
  match disk.content path with
  | .ok content => .ok (some (Blake3.hash content))
  | .error e => .error e

def view (disk : Disk) : FileView :=
  ⟨disk.stat, disk.read⟩

def exists? (disk : Disk) (path : Path) : Bool :=
  match disk.find true path with
  | .ok _ => true
  | .error _ => false

def isFile (disk : Disk) (path : Path) : Bool :=
  match disk.find true path with
  | .ok (.file ..) => true
  | _ => false

def empty : Disk :=
  let directory (id : UInt64) (entries : List (Bytes × Node)) :=
    Node.directory id true entries
  let names := [Bytes.ofText "tmp", Bytes.ofText "work"]
  ⟨directory 1
    [(Bytes.ofText "tmp", directory 2 [(Bytes.ofText "work", directory 3 [])])],
    names⟩

end Disk

end FileDigest
