import Metadoc.Diagnostic.Basic
import Metadoc.Files.ReadError
import Metadoc.Token.Basic

/-!
# Problems in documents

Everything that can be wrong with a document, and how it is worded.
-/

namespace Metadoc

/-- What is wrong with a part of a document. -/
inductive Problem where
  /-- A lexical fault. -/
  | lexical (e : LexError)
  /-- A token that can stand nowhere, with its text. -/
  | unexpected (text : String)
  /-- The document ends where something has to come. -/
  | unexpectedEnd
  /-- A set without a label in the rest of a line; `tagged` says that it has tags. -/
  | unlabeledSet (tagged : Bool)
  /-- An at sign without a name behind it. -/
  | missingTagName
  /-- Tags with nothing to stand on. -/
  | missingTagged
  /-- A label that promises content and has none. -/
  | emptyLabel
  /-- A labeled set with the next entry right behind its bracket. -/
  | crampedSet
  /-- More levels of sets than are read. -/
  | tooDeep
  /-- A set that is never closed. -/
  | unterminatedSet
  /-- A document that cannot be read, with the reason. -/
  | unreadable (path : String) (reason : ReadError)
deriving DecidableEq, Repr

/-- The wording of a problem. -/
def Problem.message : Problem → String
  | .lexical e => e.message
  | .unexpected text => "unexpected `" ++ text ++ "`"
  | .unexpectedEnd => "unexpected end of input"
  | .unlabeledSet false => "unlabeled set inside an unscoped set"
  | .unlabeledSet true => "tagged unlabeled set inside an unscoped set"
  | .missingTagName => "expected a tag name after `@`"
  | .missingTagged => "expected a node after tags"
  | .emptyLabel => "label has no content"
  | .crampedSet => "expected whitespace after a labeled set"
  | .tooDeep => "sets nested too deeply"
  | .unterminatedSet => "unterminated set"
  | .unreadable path reason => "cannot read `" ++ path ++ "`: " ++ reason.message

/-- A problem found in a document. -/
structure Report where
  /-- What is wrong. -/
  problem : Problem
  /-- Where. -/
  span : Span
  /-- The number of the node that it is about. -/
  node : Nat
deriving DecidableEq, Repr

/-- A report in words.  Every problem of a document makes it wrong. -/
def Report.diagnostic (r : Report) : Diagnostic :=
  ⟨.error, r.problem.message, r.span, some r.node⟩

end Metadoc
