import Metadoc.Token.Lexer

/-!
# What literals and comments say

* `Token.body` is a string literal without its delimiters;
* `Literal.decode` resolves the escapes of a literal body;
* `Token.commentBody` is a comment without its marks.
-/

namespace Metadoc

namespace Literal

/-- What a backslash and the character after it stand for.  An unknown pair stands for itself. -/
def resolve (c : Char) : List Char :=
  if c = 'n' then ['\n']
  else if c = 't' then ['\t']
  else if c = 'r' then ['\r']
  else if c = '0' then ['\x00']
  else if c = '\\' then ['\\']
  else ['\\', c]

/-- A text with its escapes resolved.  A backslash at the end stands for itself. -/
def unescape : List Char → List Char
  | [] => []
  | c :: rest =>
    if c = '\\' then
      match rest with
      | [] => ['\\']
      | d :: rest => resolve d ++ unescape rest
    else c :: unescape rest

/-- The text that a literal body stands for. -/
def decode (body : Bytes) : String := String.ofList (unescape (Utf8.lossyChars body))

end Literal

namespace Token

variable (token : Token)

/-- The bytes between the delimiters of a string literal.  An unterminated literal has no closing
delimiter; a token that is no string literal is its own body. -/
def body : Bytes :=
  match token.style with
  | none => token.bytes
  | some style =>
    let opening := min style.width token.length
    let closing := if token.error = some .unterminatedString then 0 else style.width
    token.bytes.slice opening (max (token.length - closing) opening)

/-- A comment without its marks. -/
def commentBody : Bytes :=
  if [0x2F, 0x2F].isPrefixOf token.bytes then token.bytes.drop 2
  else if token.error = some .unterminatedComment then token.bytes.drop 2
  else if 4 ≤ token.length then token.bytes.slice 2 (token.length - 2)
  else []

/-- The text of a comment without its marks. -/
def commentText : String := Utf8.lossy token.commentBody

end Token

end Metadoc
