import FileDigest.Disk.Basic

/-!
# Changes of a disk

The changes by which a disk is prepared and disturbed. A file that is written
again keeps its node, and so does one that is renamed; a file that is created
gets a node of its own. A change that the system would refuse leaves the disk as
it is.
-/

namespace FileDigest

inductive Edit where
  | makeDirectory (path : Path)
  | write (path : Path) (content : Bytes) (modified : Timestamp)
  | setTime (path : Path) (modified : Timestamp)
  | makeLink (target : Bytes) (path : Path)
  | rename (path : Path) (newPath : Path)
  | remove (path : Path)
  | makePipe (path : Path)

/-- A disk and the number of the next new node. -/
structure Workbench where
  disk : Disk
  nextId : UInt64

namespace Node

def alterEntry (name : Bytes) (f : Option Node → Option Node) :
    List (Bytes × Node) → List (Bytes × Node)
  | [] =>
      match f none with
      | some n => [(name, n)]
      | none => []
  | (x, n) :: rest =>
      if x = name then
        match f (some n) with
        | some n => (x, n) :: rest
        | none => rest
      else (x, n) :: alterEntry name f rest

/-- Whether a node may take the place of another one: a directory that of an
empty directory, and anything else that of anything else. -/
def mayReplace : Node → Node → Bool
  | directory _ _ _, directory _ _ entries => entries.isEmpty
  | directory _ _ _, _ => false
  | _, directory _ _ _ => false
  | _, _ => true

def alter (f : Option Node → Option Node) : List Bytes → Node → Node
  | [], n => n
  | name :: rest, directory id listable entries =>
      directory id listable <|
        alterEntry name (if rest = [] then f else fun n =>
          n.map (alter f rest)) entries
  | _ :: _, n => n

end Node

namespace Workbench

def empty : Workbench := ⟨Disk.empty, 4⟩

def alter (w : Workbench) (position : List Bytes)
    (f : Option Node → Option Node) : Workbench :=
  { w with disk := { w.disk with root := w.disk.root.alter f position } }

def create (w : Workbench) (position : List Bytes) (node : UInt64 → Node) :
    Workbench :=
  { w.alter position fun _ => some (node w.nextId) with nextId := w.nextId + 1 }

def locatePieces (w : Workbench) (path : Path) (followLast : Bool)
    (pieces : List Bytes) : Except IoError Spot :=
  w.disk.follow followLast Disk.linkLimit (if path.isAbsolute then []
    else w.disk.working) pieces

def makeDirectories (w : Workbench) (path : Path)
    (pieces : List Bytes) : Workbench :=
  (List.range pieces.length).foldl (fun w k =>
    match w.locatePieces path true (pieces.take (k + 1)) with
    | .ok (.absent position) =>
        w.create position fun id => .directory id true []
    | _ => w) w

def createAt (w : Workbench) (path : Path) (node : UInt64 → Node) : Workbench :=
  let pieces := Path.pieces path.bytes
  let w := w.makeDirectories path pieces.dropLast
  match w.locatePieces path false pieces with
  | .ok (.absent position) => w.create position node
  | _ => w

def apply (w : Workbench) : Edit → Workbench
  | .makeDirectory path => w.makeDirectories path (Path.pieces path.bytes)
  | .write path content modified =>
      let pieces := Path.pieces path.bytes
      let w := w.makeDirectories path pieces.dropLast
      match w.locatePieces path true pieces with
      | .ok (.there position (.file id _ _)) =>
          w.alter position fun _ => some (.file id modified content)
      | .ok (.absent position) =>
          w.create position fun id => .file id modified content
      | _ => w
  | .setTime path modified =>
      match w.locatePieces path true (Path.pieces path.bytes) with
      | .ok (.there position (.file id _ content)) =>
          w.alter position fun _ => some (.file id modified content)
      | _ => w
  | .makeLink target path =>
      if target = [] then w else w.createAt path fun _ => .link target
  | .rename path newPath =>
      match w.locatePieces path false (Path.pieces path.bytes),
          w.locatePieces newPath false (Path.pieces newPath.bytes) with
      | .ok (.there source node), .ok (.there target old) =>
          if node.mayReplace old && !source.isPrefixOf target then
            (w.alter source fun _ => none).alter target fun _ => some node
          else w
      | .ok (.there source node), .ok (.absent target) =>
          if source.isPrefixOf target then w
          else (w.alter source fun _ => none).alter target fun _ => some node
      | _, _ => w
  | .remove path =>
      match w.locatePieces path false (Path.pieces path.bytes) with
      | .ok (.there position _) => w.alter position fun _ => none
      | _ => w
  | .makePipe path => w.createAt path .special

end Workbench

end FileDigest
