/-!
# The columns of a quoted line

Quoted lines are shown through a window.  Deep indentation is cut down to what tells it apart from
none, and lines that a terminal could not hold are cut on both sides of the marks.

* `Extent` says what the columns of the quoted lines hold;
* `Margin.of` chooses the columns that are shown;
* `Margin.stopFor_le` says that the window ends inside the line.
-/

namespace Metadoc

/-- What the columns of quoted lines hold. -/
structure Extent where
  /-- Least number of blanks before other characters; none if no line has any. -/
  indent : Option Nat
  /-- First marked column. -/
  start : Nat
  /-- Column behind the marks. -/
  stop : Nat
  /-- Column behind the label that follows the marks. -/
  labelStop : Nat
  /-- Length of the longest line. -/
  longest : Nat
deriving DecidableEq, Repr

/-- The columns that are shown, from `left` up to, not including, `right`. -/
structure Margin where
  /-- First column shown. -/
  left : Nat
  /-- Column behind the window. -/
  right : Nat
  /-- Columns of a line that may be hidden on the right without a sign. -/
  slack : Nat
deriving DecidableEq, Repr

namespace Margin

/-- Number of columns that a terminal holds. -/
def width : Nat := 140

/-- Columns kept free on both sides of what has to be seen. -/
def padding : Nat := 6

/-- The window between two columns.  The free columns at its right end need no sign. -/
def between (extent : Extent) (left right : Nat) : Margin :=
  ⟨left, right,
    if right = extent.stop + padding ∨ right = extent.labelStop + padding then padding else 0⟩

/-- The window for lines that are too long.  It begins behind the indentation when the label can
be seen then, else around marks and label, else around the marks. -/
def narrow (extent : Extent) (indent : Nat) : Margin :=
  let start := extent.start - padding
  let stop := extent.stop + padding
  let labelStop := extent.labelStop + padding
  let window (left : Nat) : Margin := between extent left (left + width)
  if labelStop - indent ≤ width then window indent
  else if labelStop - start ≤ width then window (start - (width - (labelStop - start)) / 2)
  else if stop - start ≤ width then window (start - (width - (stop - start)) / 5 * 2)
  else between extent start stop

/-- The window for quoted lines.  Of an indentation of more than 26 columns the last 22 are kept,
and nothing is kept of lines that hold blanks only. -/
def of (extent : Extent) : Margin :=
  match extent.indent with
  | none => ⟨extent.longest + 1, extent.longest + 1, 0⟩
  | some indent =>
    let indent := indent - padding
    let left := if 20 < indent then indent - 16 else 0
    if max extent.longest left - left ≤ width then between extent left (max extent.longest left)
    else narrow extent indent

variable (margin : Margin)

/-- First column shown of a line. -/
def startFor (length : Nat) : Nat := min margin.left length

/-- Column behind what is shown of a line. -/
def stopFor (length : Nat) : Nat :=
  if length - margin.left ≤ width then length else min length margin.right

/-- Whether the beginning of lines is hidden. -/
def cutsLeft : Bool := 0 < margin.left

/-- Whether the end of a line is hidden. -/
def cutsRight (length : Nat) : Bool :=
  margin.right - margin.slack < length && margin.left + width < length

theorem stopFor_le (length : Nat) : margin.stopFor length ≤ length := by
  unfold stopFor; split <;> omega

end Margin

end Metadoc
