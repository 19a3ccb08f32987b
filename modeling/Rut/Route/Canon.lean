import Rut.Common.Types

/-!
# Canonical request paths

Port of `include/rut/runtime/route_canon.h`. Both functions return sub-views of their input; the null
view that the header uses for "no path" is an absent `Str` in the callers' models.
-/

namespace Rut.Route

/-- The loops of `finalize_path_canonical` skip runs of `/`. -/
def isSlash (b : UInt8) : Bool := b == ch '/'

/-- Strip the leading and the trailing run of `/` (`finalize_path_canonical`). -/
def finalizePathCanonical (s : Str) : Str := (s.dropWhile isSlash).rdropWhile isSlash

/-- The path part of a request target ends at the first `?` or `#`. -/
def isPathByte (b : UInt8) : Bool := b != ch '?' && b != ch '#'

/-- Canonical path of a raw request target (`canonicalize_request`). -/
def canonicalizeRequest (path : Str) : Str := finalizePathCanonical (path.takeWhile isPathByte)

end Rut.Route
