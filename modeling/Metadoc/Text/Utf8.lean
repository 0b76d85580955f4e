import Metadoc.Text.Bytes

/-!
# UTF-8

`Utf8.piece` reads what a byte string begins with: a well-formed character, or a maximal invalid
sequence of one to three bytes.  Everything else looks at the pieces of a string in order.

* `Utf8.pieces` cuts a whole string;
* `Utf8.lossy` is its text with U+FFFD for each invalid sequence;
* `Utf8.shown` keeps every position: a question mark stands at each byte of an invalid sequence;
* `Utf8.firstInvalid?` finds the first invalid sequence;
* `Utf8.encode` writes characters.
-/

namespace Metadoc

namespace Utf8

/-- What a lead byte asks for: how many continuation bytes, and the range of the first of them. -/
structure Lead where
  /-- Number of continuation bytes. -/
  tails : Nat
  /-- Least first continuation byte. -/
  low : UInt8
  /-- Greatest first continuation byte. -/
  high : UInt8
deriving DecidableEq, Repr

/-- The demands of a byte that opens a character of two to four bytes.  The narrowed ranges leave
out overlong forms, surrogates and numbers past U+10FFFF. -/
def lead? (b : UInt8) : Option Lead :=
  if 0xC2 ≤ b ∧ b ≤ 0xDF then some ⟨1, 0x80, 0xBF⟩
  else if b = 0xE0 then some ⟨2, 0xA0, 0xBF⟩
  else if b = 0xED then some ⟨2, 0x80, 0x9F⟩
  else if 0xE1 ≤ b ∧ b ≤ 0xEF then some ⟨2, 0x80, 0xBF⟩
  else if b = 0xF0 then some ⟨3, 0x90, 0xBF⟩
  else if 0xF1 ≤ b ∧ b ≤ 0xF3 then some ⟨3, 0x80, 0xBF⟩
  else if b = 0xF4 then some ⟨3, 0x80, 0x8F⟩
  else none

/-- Whether a byte continues a character. -/
def isTail (b : UInt8) : Bool := 0x80 ≤ b && b ≤ 0xBF

/-- The continuation bytes at the head of a string, at most `n` of them and the first of them
between `low` and `high`. -/
def tails : Nat → UInt8 → UInt8 → Bytes → Bytes
  | 0, _, _, _ => []
  | _ + 1, _, _, [] => []
  | n + 1, low, high, b :: rest =>
    if low ≤ b ∧ b ≤ high then b :: tails n 0x80 0xBF rest else []

/-- The number written by a lead byte and its continuation bytes, six bits in each of those. -/
def scalar (b : UInt8) (ts : Bytes) : Nat :=
  ts.foldl (fun n t => n * 64 + t.toNat % 64) (b.toNat % Nat.pow 2 (6 - ts.length))

/-- What a byte string begins with. -/
inductive Piece where
  /-- A well-formed character. -/
  | char (c : Char)
  /-- A maximal invalid sequence of `length` bytes.  It is `cut` when the string ends where the
  character could still have gone on. -/
  | invalid (length : Nat) (cut : Bool)
deriving DecidableEq, Repr

/-- Number of bytes of a piece. -/
def Piece.length : Piece → Nat
  | .char c => c.utf8Size
  | .invalid n _ => n

/-- The piece at the head of the string `b :: rest`. -/
def piece (b : UInt8) (rest : Bytes) : Piece :=
  if b < 0x80 then .char (Char.ofNat b.toNat)
  else match lead? b with
    | none => .invalid 1 false
    | some lead =>
      let ts := tails lead.tails lead.low lead.high rest
      if ts.length = lead.tails then .char (Char.ofNat (scalar b ts))
      else .invalid (1 + ts.length) (ts.length = rest.length)

/-- The pieces of a string, after `k` bytes that belong to the piece before it. -/
def piecesFrom : Nat → Bytes → List Piece
  | _, [] => []
  | k + 1, _ :: rest => piecesFrom k rest
  | 0, b :: rest => piece b rest :: piecesFrom ((piece b rest).length - 1) rest

/-- A string cut into characters and maximal invalid sequences. -/
def pieces (bytes : Bytes) : List Piece := piecesFrom 0 bytes

/-- The UTF-8 form of characters. -/
def encode (cs : List Char) : Bytes := cs.flatMap String.utf8EncodeChar

/-- The UTF-8 form of a text. -/
def ofString (s : String) : Bytes := encode s.toList

/-- The character that stands for a piece in decoded text. -/
def Piece.lossy : Piece → Char
  | .char c => c
  | .invalid _ _ => '\uFFFD'

/-- The characters of a string, with U+FFFD for each maximal invalid sequence. -/
def lossyChars (bytes : Bytes) : List Char := (pieces bytes).map Piece.lossy

/-- The text of a string, with U+FFFD for each maximal invalid sequence. -/
def lossy (bytes : Bytes) : String := String.ofList (lossyChars bytes)

/-- The bytes shown for a piece: a character as it is, `?` for each invalid byte. -/
def Piece.shown : Piece → Bytes
  | .char c => String.utf8EncodeChar c
  | .invalid n _ => List.replicate n 0x3F

/-- A well-formed rendition of the same length: each byte of an invalid sequence becomes `?`. -/
def shown (bytes : Bytes) : Bytes := (pieces bytes).flatMap Piece.shown

/-- Whether a piece is a character. -/
def Piece.isChar : Piece → Bool
  | .char _ => true
  | .invalid _ _ => false

/-- Whether a whole string is well-formed. -/
def isValid (bytes : Bytes) : Bool := (pieces bytes).all Piece.isChar

/-- Position and reported length of the first invalid piece, counted from `pos`.  A sequence cut
off by the end of the string is reported as one byte. -/
def firstInvalidFrom (pos : Nat) : List Piece → Option (Nat × Nat)
  | [] => none
  | .char c :: rest => firstInvalidFrom (pos + c.utf8Size) rest
  | .invalid n cut :: _ => some (pos, if cut then 1 else n)

/-- Position and reported length of the first invalid sequence of a string. -/
def firstInvalid? (bytes : Bytes) : Option (Nat × Nat) := firstInvalidFrom 0 (pieces bytes)

end Utf8

end Metadoc
