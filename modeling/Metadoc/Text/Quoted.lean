import Metadoc.Text.CharClass

/-!
# Quoted text

Dumps write text between double quotes on one line.  A tab, a carriage return, a line feed, a
backslash, a double quote and NUL have escapes of two characters; any other character that is not
plain is written by its number, `\u{…}` in lower-case hexadecimal.

* `Quoted.escape` writes one character, `Quoted.encode` a text with its quotes.
-/

namespace Metadoc

namespace Quoted

/-- The hexadecimal digits of a number, without leading zeros. -/
def hexDigits (n : Nat) : List Char := Nat.toDigits 16 n

/-- One character inside quotes. -/
def escape (c : Char) : List Char :=
  if c = '\t' then ['\\', 't']
  else if c = '\r' then ['\\', 'r']
  else if c = '\n' then ['\\', 'n']
  else if c = '\\' then ['\\', '\\']
  else if c = '"' then ['\\', '"']
  else if c.toNat = 0 then ['\\', '0']
  else if CharClass.isPlain c then [c]
  else ['\\', 'u', '\x7b'] ++ hexDigits c.toNat ++ ['\x7d']

/-- Characters between double quotes. -/
def encodeChars (cs : List Char) : List Char := '"' :: (cs.flatMap escape ++ ['"'])

/-- A text between double quotes. -/
def encode (s : String) : String := String.ofList (encodeChars s.toList)

end Quoted

end Metadoc
