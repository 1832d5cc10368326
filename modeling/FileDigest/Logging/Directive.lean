import FileDigest.Decimal.Nearest
import FileDigest.Error
import FileDigest.Logging.Level
import FileDigest.Pieces
import FileDigest.Text.Blank
import FileDigest.Text.Cut
import FileDigest.Text.Letter

/-!
# Filter directives

A directive gives a level to the targets whose names begin as it says, or to all
of them. It is written `target=level`, as a level alone, or as a target alone,
which asks for everything from there; so does an empty level. Behind the target
there may be brackets with the name of a span and, in braces, fields that have
to be there, with or without values, as in `target[span{field=value}]=level`. A
comma ends a directive and nothing may follow it.

The directive is read character by character in the text without the blanks
around it, while its parts are cut out of the text with its blanks at the
positions found. With blanks in front the parts are thus not the ones that were
meant, and a cut may even fall inside a character.
-/

namespace FileDigest

/-- What is wrong with a text as a pattern for the values of a field, if
anything is. -/
abbrev ValuePatterns := List Char → Option String

/-- A field that is asked for, with a value or with any. -/
structure FieldMatch where
  name : String
  value : Option String
deriving DecidableEq, Repr

structure Directive where
  target : Option String
  span : Option String
  fields : List FieldMatch
  level : LogLevel
deriving DecidableEq, Repr

inductive DirectiveFailure where
  | fault (fault : DirectiveFault)
  /-- A part would have to be cut inside a character, which stops the
  program. -/
  | torn
deriving DecidableEq, Repr

namespace FieldMatch

/-- Why a text is no value to match: it is no truth value, no number and no
pattern either. -/
def valueFault? (patterns : ValuePatterns) (cs : List Char) : Option String :=
  if cs = "true".toList ∨ cs = "false".toList ∨
    (Decimal.float? cs).isSome then none
  else patterns cs

/-- The field that a text asks for: its name and, behind an equals sign, its
value. What stands behind another equals sign counts for nothing. -/
def read (patterns : ValuePatterns) (cs : List Char) :
    Except DirectiveFailure FieldMatch :=
  match piecesBetween '=' cs with
  | [] => .error (.fault .form)
  | [name] => .ok ⟨String.ofList name, none⟩
  | name :: value :: _ =>
      match valueFault? patterns value with
      | some fault => .error (.fault (.field fault))
      | none => .ok ⟨String.ofList name, some (String.ofList value)⟩

end FieldMatch

namespace Directive

def plain (target : Option String) (level : LogLevel) : Directive :=
  ⟨target, none, [], level⟩

/-- How far a directive has been read. Where the end of a part is looked for,
its start is kept. -/
inductive Stage where
  | start
  | levelOrTarget
  | span (start : Nat)
  | field (start : Nat)
  /-- Behind the braces. -/
  | fields
  /-- Behind the brackets. -/
  | target
  | level (start : Nat)
  | complete
deriving DecidableEq, Repr

def isFirst (c : Char) : Bool :=
  c = '-' || c = ':' || c = '_' || Text.isLetterOrDigit c

/-- A text that is a level or, if it is none, a target of which everything is
logged. -/
def ofWord (text : List Char) : Directive :=
  match LogLevel.read? text with
  | some level => plain none level
  | none => plain (some (String.ofList text)) .trace

/-- The level that stands behind a name: everything is logged where there is no
text. -/
def level? (cs : List Char) : Option LogLevel :=
  if cs.isEmpty then some .trace else LogLevel.read? cs

def withLevel (d : Directive) (cs : List Char) :
    Except DirectiveFailure Directive :=
  match level? cs with
  | some level => .ok { d with level }
  | none => .error (.fault .level)

def withField (patterns : ValuePatterns) (d : Directive) (cs : List Char) :
    Except DirectiveFailure Directive :=
  if cs.isEmpty then .error (.fault .form)
  else (FieldMatch.read patterns cs).map fun field =>
    { d with fields := d.fields ++ [field] }

def part (text : List Char) (start stop : Nat) :
    Except DirectiveFailure (List Char) :=
  match Text.cut? stop text with
  | none => .error .torn
  | some (front, _) =>
      match Text.cut? start front with
      | none => .error .torn
      | some (_, part) => .ok part

def behind (text : List Char) (start : Nat) :
    Except DirectiveFailure (List Char) :=
  match Text.cut? start text with
  | none => .error .torn
  | some (_, rest) => .ok rest

/-- What the character at a position makes of a directive that has been read up
to there. -/
def step (patterns : ValuePatterns) (text : List Char)
    (position : Nat) (c : Char) (d : Directive) :
    Stage → Except DirectiveFailure (Directive × Stage)
  | .start =>
      if c = '[' then .ok (d, .span (position + 1))
      else if isFirst c then .ok (d, .levelOrTarget)
      else .error (.fault .form)
  | .levelOrTarget =>
      if c = '=' then do
        let target ← part text 0 position
        return ({ d with target := some (String.ofList target) },
          .level (position + 1))
      else if c = '[' then do
        let target ← part text 0 position
        return ({ d with target := some (String.ofList target) },
          .span (position + 1))
      else if c = ',' then .ok (ofWord text, .complete)
      else .ok (d, .levelOrTarget)
  | .span start =>
      if c = ']' then do
        let span ← part text start position
        return ({ d with span := some (String.ofList span) }, .target)
      else if c = '\x7b' then do
        let span ← part text start position
        let span := if span.isEmpty then none else some (String.ofList span)
        return ({ d with span }, .field (position + 1))
      else .ok (d, .span start)
  | .field start =>
      if c = '\x7d' then do
        let d ← withField patterns d (← part text start position)
        return (d, .fields)
      else if c = ',' then do
        let d ← withField patterns d (← part text start position)
        return (d, .field (position + 1))
      else .ok (d, .field start)
  | .fields => if c = ']' then .ok (d, .target) else .error (.fault .form)
  | .target =>
      if c = '=' then .ok (d, .level (position + 1)) else .error (.fault .form)
  | .level start =>
      if c = ',' then do
        let d ← withLevel d (← part text start position)
        return (d, .complete)
      else .ok (d, .level start)
  | .complete => .error (.fault .form)

def finish (text : List Char) (d : Directive) :
    Stage → Except DirectiveFailure Directive
  | .levelOrTarget => .ok (ofWord text)
  | .level start => do withLevel d (← behind text start)
  | .target | .complete => .ok d
  | .start | .span _ | .field _ | .fields => .error (.fault .form)

def run (patterns : ValuePatterns) (text : List Char) :
    Nat → List Char → Directive → Stage → Except DirectiveFailure Directive
  | _, [], d, stage => finish text d stage
  | position, c :: cs, d, stage => do
      let (d, stage) ← step patterns text position c d stage
      run patterns text (position + c.utf8Size) cs d stage

def read (patterns : ValuePatterns) (text : List Char) :
    Except DirectiveFailure Directive :=
  run patterns text 0 (Text.trim text) (plain none .trace) .start

example : (read (fun _ => none) "digest=debug".toList).toOption
    = some (plain (some "digest") .debug) := by decide +kernel

example : (read (fun _ => none) "tree[\x7broot,files=3\x7d]=4".toList).toOption
    = some ⟨some "tree", none, [⟨"root", none⟩, ⟨"files", some "3"⟩],
      .debug⟩ := by
  decide +kernel

/-- A blank in front makes a target of a level. -/
example : (read (fun _ => none) " debug".toList).toOption
    = some (plain (some " debug") .trace) := by decide +kernel

end Directive

end FileDigest
