import FileDigest.Disk.Basic

/-!
# Walks over a tree

A walk visits every regular file below a root, each under the root as it was
written and the names from there. It passes through directories in the order in
which their entries are enumerated, and does not follow links. A root that is a
link is followed when it leads to a directory. Where the system refuses to look
into a directory, or knows no such root, the walk says so in that place.
-/

namespace FileDigest

inductive Visit where
  | file (path : Path) (size : SizeHint)
  | failed (path : Path) (cause : IoError)

/-- The failure of a walk, worded with the place that it failed at. -/
def Visit.failure (path : Path) (cause : IoError) : Visit :=
  .failed path ⟨cause.kind, "IO error for operation on " ++ path.text ++
    ": " ++ cause.text⟩

def Path.isShort (p : Path) : Bool :=
  p.bytes.length ≤ Disk.pathLimit

namespace Node

mutual

def walk (path : Path) : Node → List Visit
  | .file _ _ content =>
      [.file path (if path.isShort then .known (UInt64.ofNat content.length)
        else .unknown)]
  | .directory _ listable entries =>
      if !path.isShort then [Visit.failure path .nameTooLong]
      else if !listable then [Visit.failure path .permissionDenied]
      else walkEntries path entries
  | .link _ => []
  | .special _ => []

def walkEntries (path : Path) : List (Bytes × Node) → List Visit
  | [] => []
  | (name, node) :: rest =>
      node.walk (path.join ⟨name⟩) ++ walkEntries path rest

end

@[simp] theorem walkEntries_nil (path : Path) : walkEntries path [] = [] := rfl

theorem walkEntries_cons (path : Path) (name : Bytes) (node : Node)
    (rest : List (Bytes × Node)) :
    walkEntries path ((name, node) :: rest) =
      node.walk (path.join ⟨name⟩) ++ walkEntries path rest := rfl

end Node

namespace Disk

/-- The visits of a walk over what a path leads to. -/
def walk (disk : Disk) (root : Path) : List Visit :=
  match disk.find false root with
  | .error e => [Visit.failure root e]
  | .ok (.link _) =>
      match disk.find true root with
      | .error e => [Visit.failure root e]
      | .ok (.directory id listable entries) =>
          (Node.directory id listable entries).walk root
      | .ok _ => []
  | .ok node => node.walk root

end Disk

end FileDigest
