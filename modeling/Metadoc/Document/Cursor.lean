import Metadoc.Document.Lexeme
import Metadoc.Node.Facets

/-!
# The cursor

A cursor stands between the words that are read and those ahead.  At the end of the document no
word is ahead.

* `Cursor.ofLexemes` stands before the first word from a position on;
* `Cursor.advance` steps over one word;
* the other functions say what is ahead: a label, a bracket, a separator, and how much room lies
  before it.
-/

namespace Metadoc

/-- A place between two words of a document. -/
structure Cursor where
  /-- The words ahead. -/
  ahead : List Word
  /-- The trivia after the last word. -/
  tail : List Lexeme
  /-- The length of the document. -/
  length : Nat
  /-- Where the last word behind ends. -/
  prevEnd : Nat
  /-- Whether a word is behind. -/
  started : Bool
deriving DecidableEq, Repr

namespace Cursor

/-- The cursor before the first word of `lexemes`, which are those of a document of `length` bytes
from a position on. -/
def ofLexemes (length pos : Nat) (lexemes : List Lexeme) : Cursor :=
  let words := Word.split lexemes
  { ahead := words.1, tail := words.2, length, prevEnd := min pos length, started := false }

variable (c : Cursor)

/-- The word ahead. -/
def word? : Option Word := c.ahead.head?

/-- The lexeme ahead. -/
def lexeme? : Option Lexeme := c.word?.map Word.lexeme

/-- Whether no word is ahead. -/
def atEnd : Bool := c.ahead.isEmpty

/-- The trivia between the words on both sides. -/
def gap : List Lexeme :=
  match c.ahead with
  | [] => c.tail
  | w :: _ => w.gap

/-- What matters about the trivia between the words on both sides. -/
def trivia : Trivia := Trivia.ofGap c.started c.gap

/-- Number of line breaks between the words on both sides. -/
def newlines : Nat := c.trivia.newlines

/-- Whether the word ahead directly follows the one behind. -/
def adjacent : Bool := c.started && c.gap.isEmpty

/-- Where the word ahead stands; at the end of the document, the empty range there. -/
def span : Span :=
  match c.ahead with
  | [] => ⟨c.length, c.length⟩
  | w :: _ => w.lexeme.span

/-- Where the word ahead begins, or the document ends. -/
def pos : Nat := c.span.start

/-- The cursor behind the word ahead; at the end of the document it stays. -/
def advance : Cursor :=
  match c.ahead with
  | [] => c
  | w :: rest => { c with ahead := rest, prevEnd := w.lexeme.stop, started := true }

/-- The value of the symbol ahead, if it is one of a single byte. -/
def symbol? : Option UInt8 := c.lexeme?.bind (·.symbol?)

/-- Whether a symbol is ahead. -/
def isAt (b : UInt8) : Bool := c.symbol? = some b

/-- The pair of brackets that the symbol ahead opens. -/
def opens? : Option Delimiter := c.symbol?.bind Delimiter.ofOpen?

/-- The pair of brackets that the symbol ahead closes. -/
def closes? : Option Delimiter := c.symbol?.bind Delimiter.ofClose?

/-- The separator ahead. -/
def separator? : Option Separator := c.symbol?.bind Separator.ofByte?

end Cursor

/-- The at sign. -/
def tagMark : UInt8 := 0x40

/-- The colon. -/
def labelMark : UInt8 := 0x3A

/-- Symbols that mean something wherever they stand, so they can be no label: brackets,
separators, the marks of labels and tags, the hash and the backslash. -/
def reservedSymbols : Bytes :=
  [0x7B, 0x7D, 0x28, 0x29, 0x5B, 0x5D, 0x2C, 0x3B, labelMark, tagMark, 0x23, 0x5C]

/-- Whether a lexeme can be the label of a node. -/
def Lexeme.isLabel (l : Lexeme) : Bool :=
  match l.kind with
  | .identifier | .numeric | .string => true
  | .symbol => !l.symbol?.any reservedSymbols.contains
  | _ => false

namespace Cursor

variable (c : Cursor)

/-- The lexeme ahead, if it can be a label. -/
def label? : Option Lexeme := c.lexeme?.filter Lexeme.isLabel

/-- Whether a node begins here, tags included. -/
def atNodeStart : Bool := c.label?.isSome || c.opens?.isSome || c.isAt tagMark

/-- Whether the rest of a line ends here whatever line breaks there are: at the end of the
document, a closing bracket or a separator. -/
def atLineEnd : Bool := c.atEnd || c.closes?.isSome || c.separator?.isSome

theorem length_advance_lt {c : Cursor} (h : c.atEnd = false) :
    c.advance.ahead.length < c.ahead.length := by
  unfold advance
  cases hc : c.ahead with
  | nil => simp [atEnd, hc] at h
  | cons w rest => simp

theorem length_advance_le (c : Cursor) : c.advance.ahead.length ≤ c.ahead.length := by
  unfold advance
  cases hc : c.ahead with
  | nil => simp [hc]
  | cons w rest => simp

end Cursor

end Metadoc
