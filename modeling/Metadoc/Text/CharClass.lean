import Metadoc.Text.LetterTable
import Metadoc.Text.PrintTable

/-!
# Character classes

* `CharClass.isAlphabetic` and `CharClass.isAlphanumeric` decide what may stand in a name;
* `CharClass.isPlain` decides what quoted text shows unchanged;
* `CharClass.isBlank` decides what leaves its place on a line empty.
-/

namespace Metadoc

namespace CharClass

/-- Whether a character lies in one of the closed ranges. -/
def inRanges (ranges : List (Nat × Nat)) (c : Char) : Bool :=
  ranges.any fun r => r.1 ≤ c.toNat && c.toNat ≤ r.2

/-- Whether a character is a letter. -/
def isAlphabetic (c : Char) : Bool := inRanges LetterTable.alphabeticRanges c

/-- Whether a character is a letter or a number. -/
def isAlphanumeric (c : Char) : Bool :=
  isAlphabetic c || inRanges LetterTable.numericRanges c

/-- Whether a character has a visible form of its own and does not join the one before it. -/
def isPlain (c : Char) : Bool :=
  !inRanges PrintTable.unprintableRanges c && !inRanges PrintTable.graphemeExtendRanges c

/-- The characters of white space, as closed ranges. -/
def blankRanges : List (Nat × Nat) := [
  (0x9, 0xD), (0x20, 0x20), (0x85, 0x85), (0xA0, 0xA0), (0x1680, 0x1680), (0x2000, 0x200A),
  (0x2028, 0x2029), (0x202F, 0x202F), (0x205F, 0x205F), (0x3000, 0x3000)]

/-- Whether a character is white space. -/
def isBlank (c : Char) : Bool := inRanges blankRanges c

theorem isBlank_of_isWhitespace {c : Char} (h : c.isWhitespace = true) : isBlank c = true := by
  simp only [Char.isWhitespace, Bool.or_eq_true, decide_eq_true_eq] at h
  rcases h with ((h | h) | h) | h <;> subst h <;> decide

theorem isAlphanumeric_of_isAlphabetic {c : Char} (h : isAlphabetic c = true) :
    isAlphanumeric c = true := by
  simp [isAlphanumeric, h]

end CharClass

end Metadoc
