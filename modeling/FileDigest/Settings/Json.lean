import FileDigest.Json.Reader
import FileDigest.Json.Record
import FileDigest.Settings.Basic

/-!
# Settings in JSON

Settings that are handed over as one JSON text are read strictly: every field
has one type, a field that is left out has its default, and one that is given
twice is an error.
-/

namespace FileDigest

def CacheSettings.ofJson? (v : Json.Value) : Option CacheSettings :=
  match Json.fields? ["max_entries"] v with
  | some [maxEntries] =>
      (Json.optional default.maxEntries Json.Value.unsigned? maxEntries).map
        CacheSettings.mk
  | _ => none

def ResolverSettings.ofJson? (v : Json.Value) : Option ResolverSettings :=
  match Json.fields? ["large_file_threshold"] v with
  | some [threshold] =>
      (Json.optional default.largeFileThreshold Json.Value.unsigned?
        threshold).map
        ResolverSettings.mk
  | _ => none

def LogSettings.ofJson? (v : Json.Value) : Option LogSettings :=
  match Json.fields? ["enabled", "level", "format", "output", "color",
    "modules"] v with
  | some [enabled, level, format, output, color, modules] => do
      let enabled ← Json.optional default.enabled Json.Value.bool? enabled
      let level ← Json.optional default.level Json.Value.text? level
      let format ← Json.optional default.format Json.Value.text? format
      let output ← Json.optional default.output Json.Value.text? output
      let color ← Json.optional default.color Json.Value.bool? color
      let modules ← Json.optional default.modules Json.Value.texts? modules
      return ⟨enabled, level, format, output, color, modules⟩
  | _ => none

def Settings.ofJson? (v : Json.Value) : Option Settings :=
  match Json.fields? ["cache", "resolver", "logging"] v with
  | some [cache, resolver, logging] => do
      let cache ← Json.optional CacheSettings.default
        CacheSettings.ofJson? cache
      let resolver ← Json.optional ResolverSettings.default
        ResolverSettings.ofJson? resolver
      let logging ← Json.optional LogSettings.default
        LogSettings.ofJson? logging
      return ⟨cache, resolver, logging⟩
  | _ => none

end FileDigest
