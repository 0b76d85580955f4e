import Metadoc.Document.Grammar
import Metadoc.Forest.Basic
import Metadoc.Tree.Dump

/-!
# Reading documents

* `Parse.document` reads a whole document under a root of kind `file`;
* `Parse.oneNode` reads the first node from a position on;
* `Parse.unreadable` stands for a document that could not be opened, and `Parse.found` reads one
  that may not have been;
* `Parse.steps` reads node after node.
-/

namespace Metadoc

/-- A document that has been read. -/
structure Parse where
  /-- The document. -/
  source : Source
  /-- The node that was asked for, if there is one. -/
  root : Option Tree
  /-- The nodes that stand for faults in trivia, with their numbers. -/
  strays : List (Nat × NodeData)
  /-- Number of nodes begun. -/
  count : Nat
  /-- Where the first word that was not read begins, or the document ends. -/
  stop : Nat
  /-- The problems found, in order. -/
  reports : List Report
deriving Repr

namespace Parse

/-- What has been read when a state is reached. -/
def ofState (source : Source) (root : Option Tree) (s : State) : Parse :=
  { source, root, strays := s.strays, count := s.count, stop := s.cursor.pos, reports := s.reports }

/-- What the root of a whole document says. -/
def rootData (source : Source) : NodeData :=
  { NodeData.plain .file source.path with span := ⟨0, source.length⟩ }

/-- Reads a whole document with at most `depth` sets around an entry. -/
def documentTo (depth : Nat) (source : Source) : Parse :=
  let root := (State.begin source 0).alloc
  let r := Grammar.entries (Grammar.levels depth) .top root.state
  ofState source (some (.node root.value (rootData source) [] r.value)) r.state

/-- Reads a whole document. -/
def document (source : Source) : Parse := documentTo Grammar.maxDepth source

/-- The name of a text that is read without a document. -/
def anonymous : String := "<string>"

/-- Reads the first node of a state, with at most `depth` sets around an entry. -/
def firstNode (depth : Nat) (source : Source) (s : State) : Parse :=
  if s.cursor.atEnd then ofState source none s
  else
    let r := Grammar.entry (Grammar.levels depth) .top s
    ofState source (some r.value) r.state

/-- Reads the first node of a text from a position on, with at most `depth` sets around an
entry. -/
def oneNodeTo (depth : Nat) (text : Bytes) (pos : Nat) : Parse :=
  let source : Source := ⟨anonymous, text⟩
  firstNode depth source (State.begin source pos)

/-- Reads the first node of a text from a position on. -/
def oneNode (text : Bytes) (pos : Nat) : Parse := oneNodeTo Grammar.maxDepth text pos

/-- Stands for a document that could not be opened: an empty one with a report. -/
def unreadable (path : String) (reason : ReadError) : Parse :=
  let source : Source := ⟨path, []⟩
  { source, root := some (.node 0 (rootData source) [] []), strays := [], count := 1, stop := 0,
    reports := [⟨.unreadable path reason, ⟨0, 0⟩, 0⟩] }

/-- Reads the document found under a path, if it was found. -/
def found (path : String) : Except ReadError Bytes → Parse
  | .ok content => document ⟨path, content⟩
  | .error reason => unreadable path reason

/-- Reads at most `n` nodes one after the other from `lexemes`, which are those of a document from
position `pos` on. -/
def stepsFrom (source : Source) : Nat → Nat → List Lexeme → List Parse
  | 0, _, _ => []
  | n + 1, pos, lexemes =>
    let p := firstNode Grammar.maxDepth source (State.ofLexemes source.length pos lexemes)
    if p.root.isNone then [p]
    else p :: stepsFrom source n p.stop (lexemes.dropWhile (·.start < p.stop))

/-- Reads at most `n` nodes one after the other from a position on, each from where the one before
ended, up to and including the first time that nothing is found.  The text is cut into lexemes
once. -/
def steps (text : Bytes) (n pos : Nat) : List Parse :=
  let source : Source := ⟨anonymous, text⟩
  stepsFrom source n pos (Lexeme.all source pos)

variable (p : Parse)

/-- The problems found, in words. -/
def diagnostics : List Diagnostic := p.reports.map Report.diagnostic

/-- The nodes of the tree, each followed by its tags and its children. -/
def nodes : List Tree := (p.root.map Tree.preorder).getD []

/-- The nodes as a forest. -/
def forest : Forest := Forest.ofTree p.count p.root p.strays

/-- The dump of the tree, empty when there is none. -/
def dump : String := (p.root.map Tree.dump).getD ""

end Parse

end Metadoc
