import Metadoc.Diagnostic.Basic
import Metadoc.Diagnostic.Excerpt
import Metadoc.Diagnostic.Row

/-!
# Diagnostics for people

A diagnostic is shown with the line that it is about and a row of marks under the range.

* `Diagnostic.rows` lays it out;
* `Diagnostic.render` writes it, plain or with terminal colours.
-/

namespace Metadoc

/-- The marks of a severity. -/
def Paint.ofSeverity : Severity → Paint
  | .error => ⟨["1", "91"]⟩
  | .warning => ⟨["1", "33"]⟩

/-- The word for a severity. -/
def Severity.word : Severity → String
  | .error => "error"
  | .warning => "warning"

/-- The mark under a range. -/
def Severity.mark : Severity → Char
  | .error => '^'
  | .warning => '-'

namespace Diagnostic

/-- The label behind the marks. -/
def label : String := "here"

/-- The sign for hidden text. -/
def dots : Row := Row.painted .frame "..."

/-- The row that only carries the frame.  Line numbers take `digits` columns. -/
def frameRow (digits : Nat) : Row := Row.put [] (digits + 1) (Row.painted .frame "|")

/-- The row that names a place. -/
def placeRow (digits : Nat) (path : String) (place : Location) : Row :=
  let row := (Row.put [] digits (Row.painted .frame "-->")).put (digits + 4) (Row.plain path)
  row ++ Row.plain (":" ++ toString place.line ++ ":" ++ toString place.column)

/-- The row that quotes a line. -/
def lineRow (number : String) (margin : Margin) (line : List Char) : Row :=
  let line := Excerpt.expand line
  let start := margin.startFor line.length
  let part := (line.drop start).take (margin.stopFor line.length - start)
  let column := number.length + 3
  let row := (Row.painted .frame (number ++ " |")).put column (Row.plain (String.ofList part))
  let row := if margin.cutsLeft then row.put column dots else row
  if margin.cutsRight line.length then row.put (column + part.length - 3) dots else row

/-- The row under a quoted line. -/
def markRow (digits : Nat) (severity : Severity) (hidden : Nat) (extent : Extent) : Row :=
  let paint := Paint.ofSeverity severity
  let column := digits + 3
  let start := column + extent.start - hidden
  let count := max 1 (column + extent.stop - hidden - start)
  ((frameRow digits).put (column + (extent.stop + 1 - hidden)) (Row.painted paint label)).put start
    (Row.painted paint ("".pushn severity.mark count))

variable (d : Diagnostic)

/-- The range of a diagnostic cut to the length of a document. -/
def clamped (length : Nat) : Span :=
  let stop := min d.span.stop length
  ⟨min d.span.start stop, stop⟩

/-- The row with the severity and the message, if there is one. -/
def titleRow : Row :=
  Row.painted (.ofSeverity d.severity) d.severity.word ++
    if d.message.isEmpty then [] else Row.plain ": " ++ Row.painted .bold d.message

/-- The rows shown for a diagnostic.  Where no line is left to quote, it is said to be about the
beginning of the document. -/
def rows (source : Source) : List Row :=
  let e := Excerpt.of source (d.clamped source.length)
  match Excerpt.lines e.text with
  | [] => [d.titleRow, placeRow 0 source.path ⟨1, 1⟩, frameRow 0, frameRow 0]
  | line :: _ =>
    let number := toString e.number
    let digits := number.length
    let extent := e.extent line (label.length + 1)
    let margin := Margin.of extent
    [d.titleRow, placeRow digits source.path ⟨e.number, e.column line⟩, frameRow digits,
      lineRow number margin line,
      markRow digits d.severity (margin.startFor (Excerpt.expand line).length) extent,
      frameRow digits]

/-- The text shown for a diagnostic. -/
def render (styled : Bool) (source : Source) : String :=
  "\n".intercalate ((d.rows source).map (Row.text styled))

end Diagnostic

end Metadoc
