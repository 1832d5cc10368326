import FileDigest.IoError
import FileDigest.Path
import FileDigest.Text.Quoted

/-!
# Failures of the library

Everything that can go wrong is one of four things: the file system failed on a
path, statistics were asked of a cache that is off, a path was contributed twice
to one aggregate, or the configuration cannot be used. A failure is a cause; its
wording is made in one place, by `DigestError.message`.
-/

namespace FileDigest

inductive Found where
  | boolean (b : Bool)
  | integer (i : Int)
  | integer64 (i : Int)
  | floating (text : String)
  | text (s : String)
  | unit
  | sequence
  | map
deriving DecidableEq, Repr

def Found.message : Found → String
  | boolean b => "boolean `" ++ (if b then "true" else "false") ++ "`"
  | integer i => "integer `" ++ toString i ++ "`"
  | integer64 i => "64-bit integer `" ++ toString i ++ "`"
  | floating t => "floating point `" ++ t ++ "`"
  | text s => "string " ++ Text.quoted s
  | unit => "unit value"
  | sequence => "sequence"
  | map => "map"

inductive Wanted where
  | integer
  | unsigned
  | boolean
  | text
  | map
  | record (name : String)
deriving DecidableEq, Repr

def Wanted.message : Wanted → String
  | integer => "an integer"
  | unsigned => "an unsigned 64 bit or less integer"
  | boolean => "a boolean"
  | text => "a string"
  | map => "a map"
  | record name => "struct " ++ name

inductive DirectiveFault where
  | form
  | level
  /-- What a field has to match cannot be used, in the words of the reader of
  patterns. -/
  | field (text : String)
deriving DecidableEq, Repr

def DirectiveFault.message : DirectiveFault → String
  | form => "invalid filter directive"
  | level =>
      "error parsing level filter: expected one of \"off\", \"error\", \"warn\", \"info\", " ++
        "\"debug\", \"trace\", or a number 0-5"
  | field text => "invalid field filter: " ++ text

inductive ConfigFault where
  | missing (property : String)
  | stated (text : String)
  | frozen
  | malformed
  | unknownFormat (file : String)
  /-- Neither a file nor any of its extended names is a regular file. -/
  | noFile (name : String)
  | notText
  | wrongKind (found : Found) (wanted : Wanted) (key : Option String)
      (origin : Option String)
  | wrongShape (found : Found) (wanted : Wanted)
  /-- A log directive, from the environment or from the configuration, is
  faulty. -/
  | directive (fromEnvironment : Bool) (fault : DirectiveFault)
  | logFormat (format : String)
  | logOutput (output : String)
  | alreadyInstalled
deriving DecidableEq, Repr

def ConfigFault.message : ConfigFault → String
  | missing property =>
      "configuration property " ++ Text.quoted property ++ " not found"
  | stated text => text
  | frozen => "configuration is frozen"
  | malformed => "malformed document"
  | unknownFormat file =>
      "configuration file \"" ++ file ++ "\" is not of a registered file format"
  | noFile name => "configuration file \"" ++ name ++ "\" not found"
  | notText => "stream did not contain valid UTF-8"
  | wrongKind found wanted key origin =>
      "invalid type: " ++ found.message ++ ", expected " ++ wanted.message ++
        (match key with
          | some k => " for key `" ++ k ++ "`"
          | none => "") ++
        (match origin with
          | some o => " in " ++ o
          | none => "")
  | wrongShape found wanted =>
      "invalid type: " ++ found.message ++ ", expected " ++ wanted.message
  | directive fromEnvironment fault =>
      "Invalid log directive" ++ (if fromEnvironment then " from env"
        else "") ++ ": " ++
        fault.message
  | logFormat format =>
      "Invalid log format: " ++ format ++ " (must be 'json' or 'text')"
  | logOutput output =>
      "Invalid log output: " ++ output ++
        " (must be 'stdout', 'stderr', or 'both')"
  | alreadyInstalled =>
      "Failed to install logger: a global default trace dispatcher has already been set"

/-- The failures that callers see. -/
inductive DigestError where
  | io (path : Path) (cause : IoError)
  | cacheDisabled
  | duplicateContribution (path : Path)
  | config (fault : ConfigFault)
deriving DecidableEq, Repr

namespace DigestError

def message : DigestError → String
  | io path cause => "digest I/O error at " ++ path.text ++ ": " ++ cause.text
  | cacheDisabled =>
      "digest cache is not enabled: configure() must be called with a non-zero capacity"
  | duplicateContribution path =>
      "duplicate contribution for " ++ path.text ++
        ": XOR aggregation would cancel it"
  | config fault => "Configuration error: " ++ fault.message

def source? : DigestError → Option IoError
  | io _ cause => some cause
  | _ => none

end DigestError

end FileDigest
