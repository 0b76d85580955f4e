import Metadoc.Text.Utf8

/-!
# Keys

A key is a byte string or an identity.  Byte strings are the same key when their bytes agree; an
identity is never the same key as a byte string.
-/

namespace Metadoc

/-- A key of an ordered map. -/
inductive Key where
  /-- A byte string, compared by content. -/
  | bytes (b : Bytes)
  /-- The identity of a thing, compared by value. -/
  | identity (id : UInt64)
deriving DecidableEq, Repr

namespace Key

/-- The key of a text. -/
def ofText (s : String) : Key := .bytes (Utf8.ofString s)

/-- One step of mixing a word into a hash. -/
def mix (h word : UInt64) : UInt64 := (h ^^^ word) * 0x100000001B3

/-- A hash of a key. -/
def hash : Key → UInt64
  | .bytes b => b.foldl (fun h x => mix h x.toUInt64) 0xCBF29CE484222325
  | .identity id => mix 0x9E3779B97F4A7C15 id

end Key

end Metadoc
