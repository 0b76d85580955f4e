import Metadoc.Diagnostic.Margin
import Metadoc.Source
import Metadoc.Text.CharClass

/-!
# Quoted lines

A diagnostic quotes the line on which its range begins.

* `Excerpt.of` takes the range out of a document, with the rest of the lines around it;
* `Excerpt.lines` splits a text into lines;
* `Excerpt.extent` says which columns are marked.
-/

namespace Metadoc

/-- A part of a document with the rest of the lines on which it begins and ends. -/
structure Excerpt where
  /-- Number of the first line. -/
  number : Nat
  /-- What stands before the part on its first line. -/
  before : List Char
  /-- The part. -/
  marked : List Char
  /-- What follows the part on its last line, without the line feed. -/
  after : List Char
deriving DecidableEq, Repr

namespace Excerpt

/-- The excerpt around a span of a document. -/
def of (source : Source) (span : Span) : Excerpt :=
  let shown := source.shown
  let text (bytes : Bytes) : List Char := (Utf8.lossy bytes).toList
  let before := shown.take span.start
  ⟨(Source.locationAfter before).line, text (before.drop (Source.lineStart before)),
    text (shown.slice span.start span.stop),
    text ((shown.drop span.stop).takeWhile (· ≠ Bytes.lineFeed))⟩

/-- The lines of a text.  A line feed ends a line, with a carriage return before it.  What follows
the last line feed is a line unless it is empty. -/
def lines : List Char → List (List Char)
  | [] => []
  | '\n' :: rest => [] :: lines rest
  | '\r' :: '\n' :: rest => [] :: lines rest
  | c :: rest =>
    match lines rest with
    | [] => [[c]]
    | line :: more => (c :: line) :: more

/-- Number of columns of a character.  A tab is shown as four blanks, and other controls take no
column. -/
def columns (c : Char) : Nat :=
  if c = '\t' then 4
  else if c.toNat < 0x20 ∨ (0x7F ≤ c.toNat ∧ c.toNat ≤ 0x9F) then 0
  else 1

/-- Number of columns of a text. -/
def width (cs : List Char) : Nat := cs.foldr (fun c n => columns c + n) 0

/-- A line with blanks for its tabs. -/
def expand (line : List Char) : List Char :=
  line.flatMap fun c => if c = '\t' then List.replicate 4 ' ' else [c]

/-- Number of blanks before the first other character of a line, if it has one. -/
def indent? (line : List Char) : Option Nat :=
  if line.all CharClass.isBlank then none else some (line.takeWhile CharClass.isBlank).length

variable (e : Excerpt)

/-- The text of an excerpt. -/
def text : List Char := e.before ++ e.marked ++ e.after

/-- Column of the part on its first line, counted from one in characters. -/
def column (line : List Char) : Nat := min e.before.length line.length + 1

/-- The marked columns of a line, at least one, and what else decides which columns are shown.
The label takes `label` columns. -/
def extent (line : List Char) (label : Nat) : Extent :=
  let lines := lines e.text
  let start := width (line.take e.before.length)
  let stop := max (start + 1) (width (line.take (e.before ++ e.marked).length))
  ⟨(lines.filterMap indent?).min?, start, stop, stop + label,
    (lines.map fun line => (expand line).length).max?.getD 0⟩

end Excerpt

end Metadoc
