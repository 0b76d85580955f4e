/-!
# Rows of painted characters

Output for a terminal is laid out in rows of cells.  A cell is a character with its paint; one
without paint looks as the terminal shows text by itself.

* `Row.put` writes cells from a column on, over what stands there;
* `Row.text` gives the characters of a row, with the terminal's control sequences or without;
* `Row.length_put` says how long a row is after cells were written.
-/

namespace Metadoc

/-- A terminal style: the codes that switch it on. -/
structure Paint where
  /-- Codes of the style, in order. -/
  codes : List String
deriving DecidableEq, Repr

namespace Paint

/-- Bold text. -/
def bold : Paint := ⟨["1"]⟩

/-- The frame around a quoted line. -/
def frame : Paint := ⟨["1", "94"]⟩

/-- The control sequence of a code. -/
def sequence (code : String) : String := "\x1b[" ++ code ++ "m"

/-- Text in a style. -/
def apply (paint : Paint) (s : String) : String :=
  String.join (paint.codes.map sequence) ++ s ++ sequence "0"

end Paint

/-- A character of a row. -/
structure Cell where
  /-- What is written. -/
  char : Char
  /-- Its style, if it has one. -/
  paint : Option Paint
deriving DecidableEq, Repr

/-- A row of output. -/
abbrev Row := List Cell

namespace Row

/-- Text without paint. -/
def plain (s : String) : Row := s.toList.map (⟨·, none⟩)

/-- Text in one paint. -/
def painted (paint : Paint) (s : String) : Row := s.toList.map (⟨·, some paint⟩)

/-- `n` cells that show nothing. -/
def blanks (n : Nat) : Row := List.replicate n ⟨' ', none⟩

/-- A row with cells written from a column on.  They replace what stands there, and blanks fill
up a row that ends before. -/
def put (row : Row) (column : Nat) (cells : Row) : Row :=
  if cells = [] then row
  else row.take column ++ blanks (column - row.length) ++ cells ++ row.drop (column + cells.length)

/-- The characters of a row. -/
def characters (row : Row) : String := String.ofList (row.map Cell.char)

/-- Cells of one paint, with its control sequences. -/
def run (cells : Row) : String :=
  match cells.head?.bind Cell.paint with
  | none => characters cells
  | some paint => paint.apply (characters cells)

/-- The text of a row.  Styled, each longest run of cells of one paint is switched on and off
once. -/
def text (styled : Bool) (row : Row) : String :=
  if styled then String.join ((row.splitBy fun a b => a.paint == b.paint).map run)
  else characters row

@[simp] theorem put_nil (row : Row) (column : Nat) : row.put column [] = row := by simp [put]

theorem length_put (row : Row) (column : Nat) {cells : Row} (h : cells ≠ []) :
    (row.put column cells).length = max row.length (column + cells.length) := by
  simp only [put, h, if_false, blanks, List.length_append, List.length_take, List.length_replicate,
    List.length_drop]
  omega

end Row

end Metadoc
