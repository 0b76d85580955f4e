/-!
# Byte strings

A document is read as raw bytes, so that text which is not well-formed can be reported instead of
refused.  A position in it is a number of bytes from its start.

* `Bytes` is a finite string of bytes;
* `Bytes.slice` cuts a range out of it, and `Bytes.slice?` refuses ranges that do not fit;
* `Bytes.lineFeeds` counts line breaks.
-/

namespace Metadoc

/-- A string of bytes. -/
abbrev Bytes := List UInt8

namespace Bytes

/-- The bytes from position `start` up to, not including, position `stop`. -/
def slice (bytes : Bytes) (start stop : Nat) : Bytes := (bytes.drop start).take (stop - start)

/-- The bytes of a range, if it runs forward and ends inside the string. -/
def slice? (bytes : Bytes) (start stop : Nat) : Option Bytes :=
  if start ≤ stop ∧ stop ≤ bytes.length then some (bytes.slice start stop) else none

/-- The byte that ends a line. -/
def lineFeed : UInt8 := 0x0A

/-- Number of line feeds. -/
def lineFeeds (bytes : Bytes) : Nat := bytes.count lineFeed

theorem length_slice (bytes : Bytes) (start stop : Nat) :
    (bytes.slice start stop).length = min (stop - start) (bytes.length - start) := by
  simp [slice]

theorem lineFeeds_append (a b : Bytes) : lineFeeds (a ++ b) = lineFeeds a + lineFeeds b := by
  simp [lineFeeds]

end Bytes

end Metadoc
