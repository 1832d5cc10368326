import FileDigest.Store

/-!
# Events

What the library reports about its work while it runs. An event is worded and
filtered where it is logged; here it is only what happened.
-/

namespace FileDigest

inductive Event where
  | cacheConfigured (maxEntries : UInt64)
  | cacheDisabled
  | digestCached (path : Path) (digest : Digest)
  | cacheHit (path : Path)
  | fastDigest (path : Path)
  | treeDigested (root : Path) (files : Nat)
deriving DecidableEq, Repr

end FileDigest
