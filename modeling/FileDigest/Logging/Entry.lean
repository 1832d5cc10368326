import FileDigest.Event
import FileDigest.Json.Writer
import FileDigest.Logging.Level

/-!
# Log entries

What is logged of an event: a level, a target, a message and named values. An
entry becomes a line of text, with or without colors, or one JSON object; the
time of the entry is written in front.
-/

namespace FileDigest

inductive LogValue where
  | number (n : Nat)
  | text (s : String)
deriving DecidableEq, Repr

structure LogEntry where
  level : LogLevel
  target : String
  message : String
  fields : List (String × LogValue)
deriving DecidableEq, Repr

namespace LogEntry

def storeTarget : String := "vfs_digest::digest::store"

def resolverTarget : String := "vfs_digest::digest::resolver"

def aggregateTarget : String := "vfs_digest::digest::aggregate"

def ofEvent : Event → LogEntry
  | .cacheConfigured maxEntries =>
      ⟨.info, storeTarget, "Digest cache configured",
        [("max_entries", .number maxEntries.toNat)]⟩
  | .cacheDisabled => ⟨.info, storeTarget, "Digest cache disabled", []⟩
  | .digestCached path digest =>
      ⟨.debug, storeTarget, "Digest cached",
        [("path", .text path.text), ("digest", .text (Bytes.hex digest))]⟩
  | .cacheHit path =>
      ⟨.debug, resolverTarget, "Digest cache hit", [("path", .text path.text)]⟩
  | .fastDigest path =>
      ⟨.trace, resolverTarget, "Fast digest available",
        [("path", .text path.text)]⟩
  | .treeDigested root files =>
      ⟨.debug, aggregateTarget, "Digested tree",
        [("root", .text root.text), ("files", .number files)]⟩

/-- The names of all values of an entry, of which the message is one. -/
def fieldNames (e : LogEntry) : List String :=
  "message" :: e.fields.map (·.1)

end LogEntry

def LogValue.plain : LogValue → String
  | number n => toString n
  | text s => s

def LogValue.json : LogValue → List Char
  | number n => Json.writeNat n
  | text s => Json.writeText s

inductive LogLayout where
  | text (color : Bool)
  | json
deriving DecidableEq, Repr

namespace LogLayout

def rendition (code : String) (s : String) : String :=
  "\x1b[" ++ code ++ "m" ++ s ++ "\x1b[0m"

def faint (color : Bool) (s : String) : String :=
  if color then rendition "2" s else s

def italic (color : Bool) (s : String) : String :=
  if color then rendition "3" s else s

def colorCode : LogLevel → String
  | .trace => "35"
  | .debug => "34"
  | .info => "32"
  | .warn => "33"
  | _ => "31"

def level (color : Bool) (l : LogLevel) : String :=
  let label :=
    String.ofList (List.replicate (5 - l.label.length) ' ') ++ l.label
  if color then rendition (colorCode l) label else label

def field (color : Bool) : String × LogValue → String
  | (name, v) => italic color name ++ faint color "=" ++ v.plain

def words (color : Bool) (time : String) (e : LogEntry) : String :=
  faint color time ++ " " ++ level color e.level ++ " " ++
    faint color e.target ++
    faint color ":" ++ " " ++ String.intercalate " "
      (e.message :: e.fields.map (field color))

def object (time : String) (e : LogEntry) : String :=
  String.ofList (Json.writeObject
    [("timestamp", Json.writeText time),
      ("level", Json.writeText e.level.label), ("fields", Json.writeObject
        (("message", Json.writeText e.message) :: e.fields.map fun (name, v) =>
          (name, v.json))),
      ("target", Json.writeText e.target)])

def line : LogLayout → String → LogEntry → String
  | text color, time, e => words color time e
  | json, time, e => object time e

end LogLayout

end FileDigest
