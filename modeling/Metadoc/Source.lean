import Metadoc.Text.Utf8

/-!
# Source documents

A document is a named byte string.  What is shown of it is a well-formed text of the same length,
so a position means the same in both.

* `Span` is a range of positions;
* `Source.text` is the text shown for a document, `Source.textOf` the part in a span;
* `Source.locate?` gives the line and column of a position, both counted from one and columns in
  bytes.  A position strictly inside a character has none.
-/

namespace Metadoc

/-- A range of positions, from `start` up to, not including, `stop`. -/
structure Span where
  /-- First position inside. -/
  start : Nat
  /-- First position behind. -/
  stop : Nat
deriving DecidableEq, Repr, Inhabited

namespace Span

/-- The range between two positions, if it runs forward. -/
def between? (start stop : Nat) : Option Span :=
  if start ≤ stop then some ⟨start, stop⟩ else none

/-- Number of positions inside. -/
def length (span : Span) : Nat := span.stop - span.start

end Span

/-- A place in a document as people name it. -/
structure Location where
  /-- Line, counted from one. -/
  line : Nat
  /-- Column in bytes, counted from one. -/
  column : Nat
deriving DecidableEq, Repr, Inhabited

/-- A document to be read. -/
structure Source where
  /-- Name under which the document is reported. -/
  path : String
  /-- Content, well-formed or not. -/
  bytes : Bytes
deriving DecidableEq, Repr, Inhabited

/-- Whether a position of a well-formed text is the start of a character or the end of the text. -/
def Bytes.isBoundary (shown : Bytes) (pos : Nat) : Bool :=
  match shown.drop pos with
  | [] => pos ≤ shown.length
  | b :: _ => !Utf8.isTail b

/-- The part of a well-formed text in a span, empty when an end of the span is no boundary. -/
def Bytes.textOf (shown : Bytes) (span : Span) : String :=
  if span.start ≤ span.stop ∧ shown.isBoundary span.start ∧ shown.isBoundary span.stop then
    Utf8.lossy (shown.slice span.start span.stop)
  else ""

theorem Bytes.isBoundary_drop (shown : Bytes) {start : Nat} (n : Nat) (h : start ≤ shown.length) :
    Bytes.isBoundary (shown.drop start) n = shown.isBoundary (start + n) := by
  unfold Bytes.isBoundary
  rw [List.drop_drop, List.length_drop]
  cases shown.drop (start + n) with
  | nil => simp only [decide_eq_decide]; omega
  | cons b rest => rfl

theorem Bytes.textOf_drop (shown : Bytes) (start n : Nat) :
    Bytes.textOf (shown.drop start) ⟨0, n⟩ = shown.textOf ⟨start, start + n⟩ := by
  by_cases h : start ≤ shown.length
  · simp [Bytes.textOf, Bytes.slice, Bytes.isBoundary_drop shown _ h]
  · have hd : shown.drop start = [] := List.drop_eq_nil_of_le (by omega)
    have hl : Utf8.lossy [] = "" := by rfl
    simp [Bytes.textOf, Bytes.slice, hd, hl]

namespace Source

variable (source : Source)

/-- Length in bytes. -/
def length : Nat := source.bytes.length

/-- The bytes of the text shown for the document. -/
def shown : Bytes := Utf8.shown source.bytes

/-- The text shown for the document. -/
def text : String := Utf8.lossy source.shown

/-- Where the last line of a text begins: behind its last line feed, or at its start. -/
def lineStart (before : Bytes) : Nat :=
  before.length - (before.reverse.takeWhile (· ≠ Bytes.lineFeed)).length

/-- Line and column of what follows a text. -/
def locationAfter (before : Bytes) : Location :=
  ⟨Bytes.lineFeeds before + 1, before.length - lineStart before + 1⟩

/-- Line and column of a position.  Positions past the end count as the end. -/
def locate? (pos : Nat) : Option Location :=
  let pos := min pos source.length
  let shown := source.shown
  if shown.isBoundary pos then some (locationAfter (shown.take pos)) else none

/-- A place with the name of the document, as `path:line:column`. -/
def describe (place : Location) : String :=
  source.path ++ ":" ++ toString place.line ++ ":" ++ toString place.column

end Source

end Metadoc
