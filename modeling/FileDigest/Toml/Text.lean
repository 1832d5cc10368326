import FileDigest.Text.Hexadecimal

/-!
# Blanks, comments and strings of TOML

Every reader takes the characters from where it starts and gives what it read
with the characters that are left, or nothing when the text does not go on as it
must. A line ends with a line feed, alone or after a carriage return; a carriage
return by itself is nowhere allowed, and no more is any other control character
but the tab. Since both line ends mean the same everywhere, even inside a string
of several lines, `unifyLineEnds` leaves one of them before anything else is
read.
-/

namespace FileDigest.Toml

/-- The text with every line end as a line feed, or nothing if a carriage return
stands alone. -/
def unifyLineEnds : List Char → Option (List Char)
  | [] => some []
  | '\r' :: '\n' :: rest => (unifyLineEnds rest).map ('\n' :: ·)
  | '\r' :: _ => none
  | c :: rest => (unifyLineEnds rest).map (c :: ·)

def isBlank (c : Char) : Bool :=
  c = ' ' || c = '\t'

def skipBlanks (cs : List Char) : List Char :=
  cs.dropWhile isBlank

/-- A character that may stand in a comment or a string. -/
def isVisible (c : Char) : Bool :=
  c = '\t' || (' ' ≤ c && c ≠ '\x7f')

def lineEnd? : List Char → Option (List Char)
  | '\n' :: rest => some rest
  | _ => none

def skipComment : List Char → List Char
  | '#' :: rest => rest.dropWhile isVisible
  | cs => cs

/-- The characters from the end of a line on: what is left of the line must be
blank or a comment. -/
def finishLine (cs : List Char) : Option (List Char) :=
  match skipComment (skipBlanks cs) with
  | [] => some []
  | rest => lineEnd? rest

def skipLines : Nat → List Char → List Char
  | 0, cs => cs
  | bound + 1, cs =>
      let rest := skipComment (skipBlanks cs)
      match lineEnd? rest with
      | some rest => skipLines bound rest
      | none => rest

def charOf? (n : Nat) : Option Char :=
  if n < 0xd800 ∨ (0xe000 ≤ n ∧ n < 0x110000) then some (Char.ofNat n) else none

/-- The character of an escape and the characters after it, where the backslash
has been read. -/
def readEscape : List Char → Option (Char × List Char)
  | 'b' :: rest => some ('\x08', rest)
  | 't' :: rest => some ('\t', rest)
  | 'n' :: rest => some ('\n', rest)
  | 'f' :: rest => some ('\x0c', rest)
  | 'r' :: rest => some ('\r', rest)
  | '"' :: rest => some ('"', rest)
  | '\\' :: rest => some ('\\', rest)
  | 'u' :: rest =>
      if rest.length < 4 then none
      else ((Text.hexNumber? (rest.take 4)).bind charOf?).map fun c =>
        (c, rest.drop 4)
  | 'U' :: rest =>
      if rest.length < 8 then none
      else ((Text.hexNumber? (rest.take 8)).bind charOf?).map fun c =>
        (c, rest.drop 8)
  | _ => none

def readBasic : Nat → List Char → Option (List Char × List Char)
  | 0, _ => none
  | _, '"' :: rest => some ([], rest)
  | bound + 1, '\\' :: rest =>
      match readEscape rest with
      | some (c, rest) =>
          (readBasic bound rest).map fun (s, left) => (c :: s, left)
      | none => none
  | bound + 1, c :: rest =>
      if isVisible c then (readBasic bound rest).map fun (s, left) =>
        (c :: s, left) else none
  | _, [] => none

def readLiteral : List Char → Option (List Char × List Char)
  | [] => none
  | c :: rest =>
      if c = '\'' then some ([], rest)
      else if isVisible c then (readLiteral rest).map fun (s, left) =>
        (c :: s, left)
      else none

def skipFolded (cs : List Char) : List Char :=
  cs.dropWhile fun c => isBlank c || c = '\n'

def runLength (c : Char) (cs : List Char) : Nat :=
  (cs.takeWhile (· = c)).length

/-- The characters of a string of several lines up to its closing quotes. A run
of three to five quotes closes the string, and what it has beyond three belongs
to it. -/
def readLines (quote : Char) (escapes : Bool) : Nat → List Char →
    Option (List Char × List Char)
  | 0, _ => none
  | _, [] => none
  | bound + 1, c :: rest =>
      if c = quote then
        let run := runLength quote (c :: rest)
        let left := (c :: rest).drop run
        if run < 3 then
          (readLines quote escapes bound left).map fun (s, left) =>
            (List.replicate run quote ++ s, left)
        else if run ≤ 5 then some (List.replicate (run - 3) quote, left)
        else none
      else if escapes && c = '\\' then
        match skipBlanks rest with
        | '\n' :: folded => readLines quote escapes bound (skipFolded folded)
        | _ =>
            match readEscape rest with
            | some (e, rest) =>
                (readLines quote escapes bound rest).map fun (s, left) =>
                  (e :: s, left)
            | none => none
      else if isVisible c || c = '\n' then
        (readLines quote escapes bound rest).map fun (s, left) => (c :: s, left)
      else none

/-- A string of several lines whose opening quotes have been read. A line end
right after them does not belong to it. -/
def readMultiline (quote : Char) (escapes : Bool) (cs : List Char) :
    Option (List Char × List Char) :=
  let cs :=
    match cs with
    | '\n' :: rest => rest
    | _ => cs
  readLines quote escapes (cs.length + 1) cs

def readString (multiline : Bool) : List Char → Option (List Char × List Char)
  | '"' :: rest =>
      match multiline, rest with
      | true, '"' :: '"' :: rest => readMultiline '"' true rest
      | _, rest => readBasic (rest.length + 1) rest
  | '\'' :: rest =>
      match multiline, rest with
      | true, '\'' :: '\'' :: rest => readMultiline '\'' false rest
      | _, rest => readLiteral rest
  | _ => none

end FileDigest.Toml
