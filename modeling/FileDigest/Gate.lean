import FileDigest.SizeHint

/-!
# The gate for large reads

Many reads of large files at once wear out a disk, so a read that is known to be
large has to hold the gate while it runs, and only one can. Reads that are not
known to be large pass the gate without touching it.
-/

namespace FileDigest

/-- A gate: how large a read may be before it has to hold the gate, and whether
one holds it. -/
structure Gate where
  threshold : UInt64
  held : Bool
deriving DecidableEq, Repr, Inhabited

namespace Gate

def defaultThreshold : UInt64 := 4096

def ofThreshold (threshold : UInt64) : Gate := ⟨threshold, false⟩

def default : Gate := ofThreshold defaultThreshold

def requiresSerial (g : Gate) : SizeHint → Bool
  | .known size => g.threshold < size
  | .unknown => false

/-- The gate once a read has been let in, or nothing while the read has to
wait. -/
def enter (g : Gate) (size : SizeHint) : Option Gate :=
  if g.requiresSerial size then
    if g.held then none else some { g with held := true }
  else some g

def leave (g : Gate) (size : SizeHint) : Gate :=
  if g.requiresSerial size then { g with held := false } else g

/-- What a body yields that runs inside the gate, or nothing while it has to
wait. -/
def run {β : Type} (g : Gate) (size : SizeHint) (body : Gate → β) : Option β :=
  (g.enter size).map body

@[simp] theorem requiresSerial_unknown (g : Gate) :
    g.requiresSerial .unknown = false := rfl

theorem requiresSerial_known (g : Gate) (size : UInt64) :
    g.requiresSerial (.known size) = true ↔ g.threshold < size := by
  simp [requiresSerial]

theorem enter_of_not_requiresSerial {g : Gate} {size : SizeHint}
    (h : g.requiresSerial size = false) : g.enter size = some g := by
  simp [enter, h]

theorem enter_eq_none_iff {g : Gate} {size : SizeHint} :
    g.enter size = none ↔ g.requiresSerial size = true ∧ g.held = true := by
  unfold enter
  split <;> simp_all

end Gate

end FileDigest
