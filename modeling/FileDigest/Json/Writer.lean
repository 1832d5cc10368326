import FileDigest.Bytes.Basic

/-!
# Writing JSON

A string is written between quotes. The quote, the backslash and the controls
below the space are escaped, the usual ones by a letter and the others by their
number; every other character stands for itself.
-/

namespace FileDigest.Json

def writeChar (c : Char) : List Char :=
  if c = '"' then ['\\', '"']
  else if c = '\\' then ['\\', '\\']
  else if c = '\x08' then ['\\', 'b']
  else if c = '\x0c' then ['\\', 'f']
  else if c = '\n' then ['\\', 'n']
  else if c = '\r' then ['\\', 'r']
  else if c = '\t' then ['\\', 't']
  else if c < ' ' then
    ['\\', 'u', '0', '0', Bytes.hexDigit (c.toNat / 16),
      Bytes.hexDigit (c.toNat % 16)]
  else [c]

def writeText (s : String) : List Char :=
  '"' :: s.toList.flatMap writeChar ++ ['"']

def writeNat (n : Nat) : List Char :=
  Nat.toDigits 10 n

def writeMembers : List (String × List Char) → List Char
  | [] => []
  | [(name, v)] => writeText name ++ ':' :: v
  | (name, v) :: rest => writeText name ++ ':' :: v ++ ',' :: writeMembers rest

def writeObject (members : List (String × List Char)) : List Char :=
  '\x7b' :: writeMembers members ++ ['\x7d']

end FileDigest.Json
