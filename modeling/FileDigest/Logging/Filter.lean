import FileDigest.Logging.Directive

/-!
# Log filters

A filter is a set of directives about events, at most one for each target and
each list of fields. Of those that cover an event the one with the longest
target decides whether it is logged, and of several with that target the one
with most fields; where none covers it, it is not logged. A directive that asks
for a span or for the value of a field is about what happens inside spans, and
there are none here.

Directives are written one after the other with commas between them. A strict
reading refuses all of them for one that is faulty; a lenient one leaves the
faulty ones out and says so.
-/

namespace FileDigest

/-- A level for the events of some targets that have certain fields. -/
structure EventDirective where
  target : Option String
  fields : List String
  level : LogLevel
deriving DecidableEq, Repr

/-- What a directive says about events outside of spans. -/
def Directive.ofEvents? (d : Directive) : Option EventDirective :=
  if d.span.isNone && d.fields.all (·.value.isNone) then
    some ⟨d.target, d.fields.map (·.name), d.level⟩
  else none

@[simp] theorem Directive.ofEvents?_plain (target : Option String)
    (level : LogLevel) :
    (plain target level).ofEvents? = some ⟨target, [], level⟩ := rfl

namespace EventDirective

def covers (d : EventDirective) (target : String) (fields : List String) :
    Bool :=
  (match d.target with
    | some t => t.toList.isPrefixOf target.toList
    | none => true) && d.fields.all fun name => fields.contains name

/-- How much of the name of a target a directive fixes, which is more the longer
its own target is and least where it has none. -/
def weight (d : EventDirective) : Nat :=
  match d.target with
  | some t => t.length + 1
  | none => 0

/-- Whether a directive goes before another one for the same event, or is as
good as it. Of as many fields those go first whose names come later in the order
of texts. -/
def precedes (d e : EventDirective) : Bool :=
  e.weight < d.weight || (e.weight = d.weight &&
    (e.fields.length < d.fields.length ||
      (e.fields.length = d.fields.length && !(d.fields < e.fields : Bool))))

@[simp] theorem covers_all (level : LogLevel) (target : String)
    (fields : List String) :
    covers ⟨none, [], level⟩ target fields = true := rfl

@[simp] theorem weight_all (fields : List String) (level : LogLevel) :
    weight ⟨none, fields, level⟩ = 0 := rfl

theorem weight_le_of_precedes {d e : EventDirective} (h : d.precedes e = true) :
    e.weight ≤ d.weight := by
  simp only [precedes, Bool.or_eq_true, Bool.and_eq_true,
    decide_eq_true_eq] at h
  omega

theorem weight_le_of_not_precedes {d e : EventDirective}
    (h : d.precedes e = false) : d.weight ≤ e.weight := by
  simp only [precedes, Bool.or_eq_false_iff, decide_eq_false_iff_not] at h
  exact Nat.le_of_not_lt h.1

end EventDirective

/-- Directives of which no two have the same target and the same fields. -/
structure LogFilter where
  directives : List EventDirective
deriving DecidableEq, Repr

namespace LogFilter

def empty : LogFilter :=
  ⟨[]⟩

/-- The filter with one more directive, which takes the place of one for the
same events. -/
def insert (f : LogFilter) (d : EventDirective) : LogFilter :=
  ⟨d :: f.directives.filter fun e => e.target ≠ d.target ∨ e.fields ≠ d.fields⟩

def add (f : LogFilter) (d : Directive) : LogFilter :=
  match d.ofEvents? with
  | some d => f.insert d
  | none => f

def upTo (level : LogLevel) : LogFilter :=
  empty.insert ⟨none, [], level⟩

/-- The filter of directives of which a later one goes before an earlier one.
Where there is none, errors are logged. -/
def ofDirectives (ds : List Directive) : LogFilter :=
  if ds.isEmpty then upTo .error else ds.foldl add empty

def foremost : List EventDirective → Option EventDirective
  | [] => none
  | d :: ds =>
      match foremost ds with
      | none => some d
      | some e => if d.precedes e then some d else some e

def decisive? (f : LogFilter) (target : String) (fields : List String) :
    Option EventDirective :=
  foremost (f.directives.filter (·.covers target fields))

def allows (f : LogFilter) (target : String) (fields : List String)
    (level : LogLevel) : Bool :=
  match f.decisive? target fields with
  | some d => d.level.allows level
  | none => false

theorem mem_directives_insert {f : LogFilter} {d e : EventDirective} :
    e ∈ (f.insert d).directives ↔
      e = d ∨ e ∈ f.directives ∧
      (e.target ≠ d.target ∨ e.fields ≠ d.fields) := by
  simp [insert]

theorem add_plain (f : LogFilter) (target : Option String) (level : LogLevel) :
    f.add (.plain target level) = f.insert ⟨target, [], level⟩ := rfl

theorem mem_of_foremost {ds : List EventDirective} {d : EventDirective}
    (h : foremost ds = some d) : d ∈ ds := by
  induction ds generalizing d with
  | nil => simp [foremost] at h
  | cons e es ih =>
      rw [foremost] at h
      split at h
      · simp_all
      · rename_i e' he
        split at h
        · simp_all
        · cases h
          exact List.mem_cons_of_mem _ (ih he)

/-- The texts between commas that are not empty. -/
def pieces (text : List Char) : List (List Char) :=
  (piecesBetween ',' text).filter fun p => !p.isEmpty

/-- A remark that a text was no directive and is left out. -/
structure Notice where
  text : String
  fault : DirectiveFault
deriving DecidableEq, Repr

def Notice.line (n : Notice) : String :=
  "ignoring `" ++ n.text ++ "`: " ++ n.fault.message

structure Reading where
  directives : List Directive
  notices : List Notice
  torn : Bool
deriving DecidableEq, Repr

/-- The directives of texts of which the faulty ones are left out. -/
def readLeniently (patterns : ValuePatterns) : List (List Char) → Reading
  | [] => ⟨[], [], false⟩
  | p :: ps =>
      match Directive.read patterns p with
      | .ok d =>
          let r := readLeniently patterns ps
          ⟨d :: r.directives, r.notices, r.torn⟩
      | .error (.fault fault) =>
          let r := readLeniently patterns ps
          ⟨r.directives, ⟨String.ofList p, fault⟩ :: r.notices, r.torn⟩
      | .error .torn => ⟨[], [], true⟩

def readStrictly (patterns : ValuePatterns) :
    List (List Char) → Except DirectiveFailure (List Directive)
  | [] => .ok []
  | p :: ps =>
      match Directive.read patterns p with
      | .error e => .error e
      | .ok d =>
          match readStrictly patterns ps with
          | .ok ds => .ok (d :: ds)
          | .error e => .error e

end LogFilter

end FileDigest
