import Metadoc.Document.Cursor
import Metadoc.Document.Problem
import Metadoc.Node.Basic

/-!
# The state of reading

Reading a document moves a cursor, hands out node numbers and collects problems.

* `State.begin` is the state before the first word;
* `State.advance` steps over a word and reports what is wrong in the trivia behind it;
* `State.claim` takes the comment at the end of the line for the node that ends there;
* `State.takeLabel` reads a label.
-/

namespace Metadoc

/-- The state of reading a document. -/
structure State where
  /-- Where reading stands. -/
  cursor : Cursor
  /-- Whether the comment behind the last word belongs to a node already. -/
  claimed : Bool := false
  /-- Number of nodes begun so far. -/
  count : Nat := 0
  /-- The nodes that stand for faults in trivia.  They belong to no tree. -/
  strays : List (Nat × NodeData) := []
  /-- The problems found, in order. -/
  reports : List Report := []
deriving DecidableEq, Repr

/-- What a part of the grammar yields: a value, and the state behind what was read. -/
structure Read (α : Type) where
  /-- The value. -/
  value : α
  /-- The state behind. -/
  state : State

namespace State

/-- Hands out the next node number. -/
def alloc (s : State) : Read Nat := ⟨s.count, { s with count := s.count + 1 }⟩

/-- Adds a problem. -/
def report (s : State) (problem : Problem) (span : Span) (node : Nat) : State :=
  { s with reports := s.reports ++ [⟨problem, span, node⟩] }

/-- Reports the lexical fault of a lexeme, if it has one, against a node. -/
def reportFault (s : State) (l : Lexeme) (node : Nat) : State :=
  match l.error with
  | none => s
  | some e => s.report (.lexical e) (l.faultSpan e) node

/-- The node that stands for a faulty piece of trivia. -/
def strayData (l : Lexeme) : NodeData :=
  { kind := .error, string := l.text, raw := l.text, bytes := l.bytes, span := l.span }

/-- Reports the fault of a piece of trivia, if it has one, against a node of its own. -/
def reportTrivium (s : State) (l : Lexeme) : State :=
  match l.error with
  | none => s
  | some _ =>
    let r := s.alloc
    reportFault { r.state with strays := r.state.strays ++ [(r.value, strayData l)] } l r.value

/-- Reports the faults in the trivia before the word ahead. -/
def reportGap (s : State) : State := s.cursor.gap.foldl reportTrivium s

/-- The state before the first word of `lexemes`, which are those of a document of `length` bytes
from a position on. -/
def ofLexemes (length pos : Nat) (lexemes : List Lexeme) : State :=
  reportGap { cursor := Cursor.ofLexemes length pos lexemes }

/-- The state before the first word of a document from a position on. -/
def begin (source : Source) (pos : Nat) : State :=
  ofLexemes source.length pos (Lexeme.all source pos)

/-- Steps over the word ahead; at the end of the document nothing happens. -/
def advance (s : State) : State :=
  if s.cursor.atEnd then s
  else reportGap { s with cursor := s.cursor.advance, claimed := false }

/-- Takes the comment at the end of the line behind the last word, unless a node has it already. -/
def claim (s : State) : Read String :=
  match s.cursor.trivia.trailing with
  | some c => if s.claimed then ⟨"", s⟩ else ⟨c.commentText, { s with claimed := true }⟩
  | none => ⟨"", s⟩

/-- The range of a node that began at `start` and ends with the last word. -/
def spanFrom (s : State) (start : Nat) : Span := ⟨start, max s.cursor.prevEnd start⟩

end State

/-- What a label says. -/
structure Label where
  /-- The kind of its token. -/
  literal : LiteralKind
  /-- Its text, delimiters removed and escapes resolved. -/
  string : String
  /-- Its text as shown in the document. -/
  raw : String
  /-- Its bytes. -/
  bytes : Bytes
deriving DecidableEq, Repr

/-- What a lexeme says as a label. -/
def Lexeme.label (l : Lexeme) : Label :=
  match l.style with
  | some style => ⟨.string style, Literal.decode l.body, l.text, l.bytes⟩
  | none =>
    let literal := match l.kind with
      | .numeric => .numeric
      | .symbol => .symbol
      | _ => .identifier
    ⟨literal, l.text, l.text, l.bytes⟩

namespace State

/-- Reports what is wrong inside a label. -/
def reportLabel (s : State) (l : Lexeme) (node : Nat) : State :=
  let s := s.reportFault l node
  match l.invalidSpan? with
  | none => s
  | some span => s.report (.lexical .invalidByte) span node

/-- Reads the label `l` ahead for a node. -/
def takeLabel (s : State) (l : Lexeme) (node : Nat) : Read Label :=
  ⟨l.label, s.advance.reportLabel l node⟩

/-- Number of words ahead. -/
def left (s : State) : Nat := s.cursor.ahead.length

end State

end Metadoc
