/-!
# Failures of input and output

A failure of the file system has a kind, which programs tell apart, and a text
for people. The text of a failure that the operating system reports is fixed by
its number.
-/

namespace FileDigest

inductive IoErrorKind where
  | notFound
  | permissionDenied
  | interrupted
  | unexpectedEof
  | timedOut
  | invalidData
  | invalidInput
  | notADirectory
  | isADirectory
  | invalidFilename
  | filesystemLoop
  | other
deriving DecidableEq, Repr

def IoErrorKind.text : IoErrorKind → String
  | notFound => "entity not found"
  | permissionDenied => "permission denied"
  | interrupted => "operation interrupted"
  | unexpectedEof => "unexpected end of file"
  | timedOut => "timed out"
  | invalidData => "invalid data"
  | invalidInput => "invalid input parameter"
  | notADirectory => "not a directory"
  | isADirectory => "is a directory"
  | invalidFilename => "invalid filename"
  | filesystemLoop => "filesystem loop or indirection limit (e.g. symlink loop)"
  | other => "other error"

structure IoError where
  kind : IoErrorKind
  text : String
deriving DecidableEq, Repr

namespace IoError

def notFound : IoError := ⟨.notFound, "No such file or directory (os error 2)"⟩

def permissionDenied : IoError :=
  ⟨.permissionDenied, "Permission denied (os error 13)"⟩

def notADirectory : IoError := ⟨.notADirectory, "Not a directory (os error 20)"⟩

def isADirectory : IoError := ⟨.isADirectory, "Is a directory (os error 21)"⟩

def nameTooLong : IoError :=
  ⟨.invalidFilename, "File name too long (os error 36)"⟩

def tooManyLinks : IoError :=
  ⟨.filesystemLoop, "Too many levels of symbolic links (os error 40)"⟩

def nulInName : IoError :=
  ⟨.invalidInput, "file name contained an unexpected NUL byte"⟩

end IoError

end FileDigest
