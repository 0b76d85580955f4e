import Metadoc.Source

/-!
# Tokens

A token is a piece of the document with its kind.  Lexical faults do not stop reading: they are
recorded on the token.

* `StringStyle` says how a string literal is delimited;
* `LexError.message` is the wording of each lexical fault;
* `Token.symbol?` is the value of a symbol of one byte, by which the grammar knows brackets,
  separators and other marks.
-/

namespace Metadoc

/-- The quote that delimits a string literal. -/
inductive Quote where
  /-- An apostrophe. -/
  | single
  /-- A double quote. -/
  | double
  /-- A grave accent. -/
  | tick
deriving DecidableEq, Repr

/-- The byte of a quote. -/
def Quote.byte : Quote → UInt8
  | .single => 0x27
  | .double => 0x22
  | .tick => 0x60

/-- The quote that a byte is. -/
def Quote.ofByte? (b : UInt8) : Option Quote :=
  if b = 0x27 then some .single
  else if b = 0x22 then some .double
  else if b = 0x60 then some .tick
  else none

/-- How a string literal is delimited: by which quote, and whether by three of them. -/
structure StringStyle where
  /-- The quote. -/
  quote : Quote
  /-- Whether each delimiter is three quotes. -/
  triplet : Bool
deriving DecidableEq, Repr

/-- Number of bytes of each delimiter. -/
def StringStyle.width (style : StringStyle) : Nat := if style.triplet then 3 else 1

/-- The delimiter of a style. -/
def StringStyle.delimiter (style : StringStyle) : Bytes :=
  List.replicate style.width style.quote.byte

/-- What a token is. -/
inductive TokenKind where
  /-- A name. -/
  | identifier
  /-- A literal that begins with a digit. -/
  | numeric
  /-- A quoted literal. -/
  | string
  /-- A single mark. -/
  | symbol
  /-- A run of blanks. -/
  | whitespace
  /-- A line or block comment. -/
  | comment
  /-- A control character or an invalid byte sequence. -/
  | badCharacter
  /-- The end of the document. -/
  | endOfInput
deriving DecidableEq, Repr

/-- Whether tokens of a kind carry no content. -/
def TokenKind.isTrivia : TokenKind → Bool
  | .whitespace | .comment | .badCharacter => true
  | _ => false

/-- A lexical fault. -/
inductive LexError where
  /-- The document ends inside a string literal. -/
  | unterminatedString
  /-- The document ends inside a block comment. -/
  | unterminatedComment
  /-- Bytes that are not UTF-8. -/
  | invalidByte
  /-- An ASCII control character outside literals and comments. -/
  | controlCharacter
deriving DecidableEq, Repr

/-- The wording of a lexical fault. -/
def LexError.message : LexError → String
  | .unterminatedString => "unterminated string literal"
  | .unterminatedComment => "unterminated block comment"
  | .invalidByte => "invalid UTF-8 byte sequence"
  | .controlCharacter => "unexpected control character"

/-- A piece of the document. -/
structure Token where
  /-- What it is. -/
  kind : TokenKind
  /-- Position of its first byte. -/
  start : Nat
  /-- Its bytes. -/
  bytes : Bytes
  /-- Delimiters of a string literal. -/
  style : Option StringStyle
  /-- Lexical fault. -/
  error : Option LexError
deriving DecidableEq, Repr

namespace Token

variable (token : Token)

/-- Number of bytes. -/
def length : Nat := token.bytes.length

/-- First position behind the token. -/
def stop : Nat := token.start + token.length

/-- The positions of the token. -/
def span : Span := ⟨token.start, token.stop⟩

/-- Whether the token carries no content. -/
def isTrivia : Bool := token.kind.isTrivia

/-- The value of a symbol of one byte. -/
def symbol? : Option UInt8 :=
  match token.kind, token.bytes with
  | .symbol, [b] => some b
  | _, _ => none

/-- The token of a given kind over a range of a text, if the range fits. -/
def ofRange? (text : Bytes) (kind : TokenKind) (start stop : Nat)
    (style : Option StringStyle) (error : Option LexError) : Option Token :=
  (text.slice? start stop).map fun bytes => ⟨kind, start, bytes, style, error⟩

/-- The same token with every position moved by `n`. -/
def shift (n : Nat) : Token := { token with start := token.start + n }

end Token

end Metadoc
