import Metadoc.Source

/-!
# Diagnostics

A diagnostic is a message about a range of a document, and often about one of its nodes.  Lists of
them keep the order in which problems were found.
-/

namespace Metadoc

/-- How grave a problem is. -/
inductive Severity where
  /-- The document is wrong. -/
  | error
  /-- The document may be wrong. -/
  | warning
deriving DecidableEq, Repr

/-- A message about a range of a document. -/
structure Diagnostic where
  /-- How grave the problem is. -/
  severity : Severity
  /-- What is wrong. -/
  message : String
  /-- Where. -/
  span : Span
  /-- The number of the node that it is about. -/
  node : Option Nat := none
deriving DecidableEq, Repr

namespace Diagnostic

/-- Whether a diagnostic makes its document wrong. -/
def isError (d : Diagnostic) : Bool := d.severity = .error

/-- Whether some diagnostic of a list makes the document wrong. -/
def anyError (ds : List Diagnostic) : Bool := ds.any isError

/-- Line and column where a diagnostic starts. -/
def locate? (d : Diagnostic) (source : Source) : Option Location := source.locate? d.span.start

end Diagnostic

end Metadoc
