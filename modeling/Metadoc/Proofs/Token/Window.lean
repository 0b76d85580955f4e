import Metadoc.Proofs.Text.Subparts
import Metadoc.Proofs.Token.Shown

/-!
# The window for one character

A character is read through a window of four bytes.  Nothing beyond the window could change what is
read: no character is longer, and neither is an invalid sequence that one could begin with.

* `Scan.character_eq_char_iff` : the character that the whole text begins with is read;
* `Scan.exists_invalidSubpart` : else the maximal invalid sequence of the whole text is read;
* `Scan.settledPieces_cons_character` : so reading character by character cuts a text into the same
  pieces as showing it does;
* `Scan.character_window` puts these together.
-/

namespace Metadoc

namespace Scan

open Utf8

theorem length_character (b : UInt8) (rest : Bytes) :
    (character b rest).length = (piece b rest).length := by
  rw [← Piece.length_settled, settled_character, Piece.length_settled]

theorem character_eq_char_iff {b : UInt8} {rest : Bytes} {c : Char} :
    character b rest = .char c ↔ String.utf8EncodeChar c <+: b :: rest := by
  rw [← piece_eq_char_iff, ← Piece.settled_eq_char, settled_character, Piece.settled_eq_char]

/-- Where the whole text begins with no character, its maximal invalid sequence is read. -/
theorem exists_invalidSubpart {b : UInt8} {rest : Bytes}
    (h : ∀ c, ¬String.utf8EncodeChar c <+: b :: rest) :
    ∃ part cut, character b rest = .invalid part.length cut ∧ InvalidSubpart (b :: rest) part := by
  cases hp : piece b rest with
  | char c => exact absurd (piece_eq_char_iff.1 hp) (h c)
  | invalid n cut =>
    have hsettled : (character b rest).settled = .invalid n false := by
      rw [settled_character, hp]
      rfl
    obtain ⟨cut', hcharacter⟩ := Piece.exists_of_settled hsettled
    have hlength : ((b :: rest).take n).length = n := by
      rw [List.length_take, List.length_cons, Nat.min_eq_left (piece_invalid_le hp).2]
    refine ⟨(b :: rest).take n, cut', ?_, (invalidSubpart_of_piece hp).1⟩
    rw [hcharacter, hlength]

theorem settledPieces_cons_character (b : UInt8) (rest : Bytes) :
    settledPieces (b :: rest) = (character b rest).settled ::
      settledPieces ((b :: rest).drop (character b rest).length) := by
  obtain ⟨n, hn⟩ := Nat.exists_eq_add_of_le' (piece_length_pos b rest)
  rw [settledPieces_cons, settled_character, length_character, hn, Nat.add_sub_cancel,
    List.drop_succ_cons]

theorem shown_cons_character (b : UInt8) (rest : Bytes) :
    shown (b :: rest) = (character b rest).shown ++
      shown ((b :: rest).drop (character b rest).length) := by
  rw [shown_eq_flatMap, settledPieces_cons_character, List.flatMap_cons, Piece.shown_settled,
    ← shown_eq_flatMap]

/-- A window of four bytes suffices.  Of a text that is not empty, the character is read that the
whole of it begins with; where it begins with none, the maximal invalid sequence of the whole text
is, which has one to three bytes.  Both are the first piece of what is shown for the text. -/
theorem character_window (b : UInt8) (rest : Bytes) :
    character b (rest.take (window - 1)) = character b rest ∧
    (∀ c, character b rest = .char c ↔ String.utf8EncodeChar c <+: b :: rest) ∧
    ((∃ c, String.utf8EncodeChar c <+: b :: rest) ∨
      ∃ part cut, character b rest = .invalid part.length cut ∧
        InvalidSubpart (b :: rest) part ∧ 1 ≤ part.length ∧ part.length ≤ 3) ∧
    settledPieces (b :: rest) = (character b rest).settled ::
      settledPieces ((b :: rest).drop (character b rest).length) ∧
    shown (b :: rest) = (character b rest).shown ++
      shown ((b :: rest).drop (character b rest).length) := by
  refine ⟨?_, fun c => character_eq_char_iff, ?_, settledPieces_cons_character b rest,
    shown_cons_character b rest⟩
  · rw [character, character, List.take_take, Nat.min_self]
  · by_cases hchar : ∃ c, String.utf8EncodeChar c <+: b :: rest
    · exact .inl hchar
    · obtain ⟨part, cut, hread, hpart⟩ := exists_invalidSubpart (not_exists.1 hchar)
      exact .inr ⟨part, cut, hread, hpart, List.length_pos_iff.2 hpart.nonempty, hpart.length_le⟩

end Scan

end Metadoc
