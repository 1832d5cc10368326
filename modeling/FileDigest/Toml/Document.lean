import FileDigest.Toml.DateTable
import FileDigest.Toml.Scalar
import FileDigest.Toml.Table

/-!
# Reading TOML documents

A document is a sequence of lines: a header that begins a table, a key with its
value, or nothing but blanks and a comment. Arrays may go over several lines,
tables inside a line may not. Arrays and tables inside a line are nested less
than eighty deep, and so are the parts of a dotted key. When all lines have been
read, the tables that stand for dates become dates.
-/

namespace FileDigest.Toml

/-- Every way down a value or a key is shorter than this. -/
def depthLimit : Nat := 80

def isBare (c : Char) : Bool :=
  ('a' ≤ c && c ≤ 'z') || ('A' ≤ c && c ≤ 'Z') || ('0' ≤ c && c ≤ '9') || c =
    '_' || c = '-'

def readKeyPart (cs : List Char) : Option (String × List Char) :=
  match cs with
  | '"' :: _ =>
      (readString false cs).map fun (s, left) => (String.ofList s, left)
  | '\'' :: _ =>
      (readString false cs).map fun (s, left) => (String.ofList s, left)
  | _ =>
      let name := cs.takeWhile isBare
      if name.isEmpty then none
      else some (String.ofList name, cs.dropWhile isBare)

def readKeyParts : Nat → List Char → Option (List String × List Char)
  | 0, _ => none
  | bound + 1, cs =>
      match readKeyPart (skipBlanks cs) with
      | none => none
      | some (part, rest) =>
          match skipBlanks rest with
          | '.' :: rest =>
              (readKeyParts bound rest).map fun (parts, left) =>
                (part :: parts, left)
          | rest => some ([part], rest)

/-- A key, as the parts in front and the last one. -/
def readKey (cs : List Char) : Option ((List String × String) × List Char) :=
  match readKeyParts (depthLimit - 1) cs with
  | some (parts, left) =>
      parts.getLast?.map fun last => ((parts.dropLast, last), left)
  | none => none

mutual

/-- The value in front. The first bound is on the length of the text, the second
on the depth. -/
def readValue : Nat → Nat → List Char → Option (Value × List Char)
  | 0, _, _ => none
  | bound + 1, depth, cs =>
      match cs with
      | '[' :: rest =>
          match depth with
          | 0 => none
          | depth + 1 =>
              (readItems bound depth rest).map fun (items, left) =>
                (.array items, left)
      | '\x7b' :: rest =>
          match depth with
          | 0 => none
          | depth + 1 =>
              match skipBlanks rest with
              | '\x7d' :: left => some (.table [], left)
              | _ =>
                  (readPairs bound depth [] rest).map fun (entries, left) =>
                    (.table (entriesToValues entries), left)
      | _ => readScalar cs

def readItems : Nat → Nat → List Char → Option (List Value × List Char)
  | 0, _, _ => none
  | bound + 1, depth, cs =>
      match skipLines (cs.length + 1) cs with
      | ']' :: left => some ([], left)
      | rest =>
          match readValue bound depth rest with
          | none => none
          | some (item, rest) =>
              match skipLines (rest.length + 1) rest with
              | ']' :: left => some ([item], left)
              | ',' :: rest =>
                  (readItems bound depth rest).map fun (items, left) =>
                    (item :: items, left)
              | _ => none

def readPairs : Nat → Nat → Entries → List Char → Option (Entries × List Char)
  | 0, _, _, _ => none
  | bound + 1, depth, entries, cs =>
      match readKey cs with
      | some ((way, key), '=' :: rest) =>
          match readValue bound depth (skipBlanks rest) with
          | none => none
          | some (v, rest) =>
              match assign way key v entries with
              | none => none
              | some entries =>
                  match skipBlanks rest with
                  | '\x7d' :: left => some (entries, left)
                  | ',' :: rest => readPairs bound depth entries rest
                  | _ => none
      | _ => none

end

def readLineValue (cs : List Char) : Option (Value × List Char) :=
  readValue (2 * cs.length + 2) (depthLimit - 1) cs

/-- The document so far: the table that was begun last, and all that has been
defined. -/
structure Draft where
  current : List String
  root : Entries

def readHeader (draft : Draft) (cs : List Char) : Option (Draft × List Char) :=
  match cs with
  | '[' :: rest =>
      match readKey rest with
      | some ((way, key), ']' :: ']' :: left) =>
          (openElement way key draft.root).map fun root =>
            (⟨way ++ [key], root⟩, left)
      | _ => none
  | rest =>
      match readKey rest with
      | some ((way, key), ']' :: left) =>
          (openTable way key draft.root).map fun root =>
            (⟨way ++ [key], root⟩, left)
      | _ => none

def readPair (draft : Draft) (cs : List Char) : Option (Draft × List Char) :=
  match readKey cs with
  | some ((way, key), '=' :: rest) =>
      match readLineValue (skipBlanks rest) with
      | some (v, left) =>
          (assignIn draft.current way key v draft.root).map fun root =>
            (⟨draft.current, root⟩, left)
      | none => none
  | _ => none

def readAll : Nat → Draft → List Char → Option Draft
  | 0, _, _ => none
  | bound + 1, draft, cs =>
      match skipLines (cs.length + 1) cs with
      | [] => some draft
      | c :: rest =>
          match if c = '[' then readHeader draft rest
            else readPair draft (c :: rest) with
          | none => none
          | some (draft, rest) =>
              match finishLine rest with
              | some rest => readAll bound draft rest
              | none => none

/-- The entries of a finished draft. A document as a whole cannot stand for a
date. -/
def Draft.entries? (draft : Draft) : Option (List (String × Value)) :=
  match (Value.table (entriesToValues draft.root)).withDates? with
  | some (.table entries) => some entries
  | _ => none

/-- The entries of a document, which may begin with a byte order mark. -/
def read? (s : String) : Option (List (String × Value)) :=
  let cs :=
    match s.toList with
    | '\ufeff' :: rest => rest
    | cs => cs
  match unifyLineEnds cs with
  | some cs => (readAll (cs.length + 1) ⟨[], []⟩ cs).bind Draft.entries?
  | none => none

end FileDigest.Toml
