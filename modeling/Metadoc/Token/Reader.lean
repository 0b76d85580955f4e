import Metadoc.Token.Lexer

/-!
# A token reader

A `TokenReader` is a text with a position.  Reading a token moves the position to its end; at the
end of the text it yields empty `endOfInput` tokens for ever.
-/

namespace Metadoc

/-- A text and the position of the next token.  The position may lie past the end until the first
token is read. -/
structure TokenReader where
  /-- The text. -/
  text : Bytes
  /-- Where the next token is read. -/
  pos : Nat
deriving DecidableEq, Repr

namespace TokenReader

variable (reader : TokenReader)

/-- The next token, left unread. -/
def peek : Token := Token.readAt reader.text reader.pos

/-- The reader behind the next token. -/
def advance : TokenReader := { reader with pos := reader.peek.stop }

/-- The next token, unless the text is used up. -/
def next? : Option Token :=
  if reader.peek.kind = .endOfInput then none else some reader.peek

/-- Number of tokens left. -/
def count : Nat := (Token.all reader.text reader.pos).length

end TokenReader

end Metadoc
