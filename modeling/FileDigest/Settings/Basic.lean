import FileDigest.Cache
import FileDigest.Gate

/-!
# Settings

What a program that uses the library can configure, with the values that hold
where nothing is said.
-/

namespace FileDigest

structure CacheSettings where
  /-- How many digests are remembered; none turns the cache off. -/
  maxEntries : UInt64
deriving DecidableEq, Repr

structure ResolverSettings where
  /-- The greatest size of a file that is read without holding the gate. -/
  largeFileThreshold : UInt64
deriving DecidableEq, Repr

structure LogSettings where
  enabled : Bool
  level : String
  format : String
  output : String
  color : Bool
  /-- Levels of single targets. A name is given once; their order counts for
  nothing. -/
  modules : List (String × String)
deriving DecidableEq, Repr

structure Settings where
  cache : CacheSettings
  resolver : ResolverSettings
  logging : LogSettings
deriving DecidableEq, Repr

def CacheSettings.default : CacheSettings := ⟨0⟩

def ResolverSettings.default : ResolverSettings := ⟨Gate.defaultThreshold⟩

def LogSettings.default : LogSettings :=
  ⟨true, "info", "text", "stderr", true, []⟩

namespace Settings

def default : Settings :=
  ⟨CacheSettings.default, ResolverSettings.default, LogSettings.default⟩

def buildCache (s : Settings) : Cache :=
  Cache.ofCapacity s.cache.maxEntries

def buildGate (s : Settings) : Gate :=
  Gate.ofThreshold s.resolver.largeFileThreshold

end Settings

end FileDigest
