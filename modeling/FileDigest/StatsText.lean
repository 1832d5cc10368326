import FileDigest.Json.Reader
import FileDigest.Json.Record
import FileDigest.Json.Writer
import FileDigest.Store

/-!
# Counters as JSON

The counters of a store are written as an object of three numbers. They are read
back from any object that gives each of the three once, and from an array of
just the three.
-/

namespace FileDigest.CacheStats

def fieldNames : List String :=
  ["hit_count", "miss_count", "eviction_count"]

def toJson (s : CacheStats) : String :=
  String.ofList <| Json.writeObject
    [("hit_count", Json.writeNat s.hits.toNat),
      ("miss_count", Json.writeNat s.misses.toNat),
      ("eviction_count", Json.writeNat s.evictions.toNat)]

def ofValue? (v : Json.Value) : Option CacheStats :=
  match Json.fields? fieldNames v with
  | some [hits, misses, evictions] =>
      match Json.required Json.Value.unsigned? hits,
        Json.required Json.Value.unsigned? misses,
          Json.required Json.Value.unsigned? evictions with
      | some hits, some misses, some evictions => some ⟨hits, misses, evictions⟩
      | _, _, _ => none
  | _ => none

def ofJson? (text : String) : Option CacheStats :=
  (Json.read? text).bind ofValue?

def zero : CacheStats := ⟨0, 0, 0⟩

example : toJson ⟨1, 0, 2⟩ =
    "\x7b\"hit_count\":1,\"miss_count\":0,\"eviction_count\":2\x7d" := by
  decide +kernel

end FileDigest.CacheStats
