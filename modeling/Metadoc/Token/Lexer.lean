import Metadoc.Token.Basic
import Metadoc.Text.CharClass

/-!
# Reading tokens

`Scan.first` finds the kind and length of the token at the head of a byte string.  It depends on
that string alone: neither on what stands before it nor on its position.

* `Token.readAt` is the token at a position of a text, an empty `endOfInput` token at its end;
* `Token.all` lists the tokens from a position to the end.
-/

namespace Metadoc

/-! ### Classes of bytes -/

namespace Ascii

/-- Blanks: space, tab, line feed, carriage return, vertical tab and form feed. -/
def isBlank (b : UInt8) : Bool :=
  b == 0x20 || b == 0x09 || b == 0x0A || b == 0x0D || b == 0x0B || b == 0x0C

/-- Digits. -/
def isDigit (b : UInt8) : Bool := 0x30 ≤ b && b ≤ 0x39

/-- Letters and the underscore. -/
def isLetter (b : UInt8) : Bool :=
  (0x61 ≤ b && b ≤ 0x7A) || (0x41 ≤ b && b ≤ 0x5A) || b == 0x5F

/-- Letters, digits and the underscore. -/
def isWord (b : UInt8) : Bool := isLetter b || isDigit b

/-- Bytes of ASCII. -/
def isAscii (b : UInt8) : Bool := b < 0x80

/-- Visible ASCII marks that are neither letters nor digits. -/
def isPunctuation (b : UInt8) : Bool := 0x21 ≤ b && b ≤ 0x7E && !isWord b

end Ascii

/-- Kind, length and further facts of a token that is not yet placed. -/
structure Scan where
  /-- What it is. -/
  kind : TokenKind
  /-- Number of bytes. -/
  length : Nat
  /-- Delimiters of a string literal. -/
  style : Option StringStyle := none
  /-- Lexical fault. -/
  error : Option LexError := none
deriving DecidableEq, Repr

namespace Scan

open Ascii

/-- Number of bytes that are looked at to read one character. -/
def window : Nat := 4

/-- The piece at the head of `b :: rest`, read through the window. -/
def character (b : UInt8) (rest : Bytes) : Utf8.Piece := Utf8.piece b (rest.take (window - 1))

/-- Length of the name at the head of a string, after `k` bytes that belong to its last character.
A name goes on through ASCII letters, digits and underscores, and through other characters that are
letters or numbers. -/
def nameLengthFrom : Nat → Bytes → Nat
  | _, [] => 0
  | k + 1, _ :: rest => nameLengthFrom k rest + 1
  | 0, b :: rest =>
    if isWord b then nameLengthFrom 0 rest + 1
    else if isAscii b then 0
    else match character b rest with
      | .char c =>
        if CharClass.isAlphanumeric c then nameLengthFrom (c.utf8Size - 1) rest + 1 else 0
      | .invalid _ _ => 0

/-- Length of the name at the head of a string. -/
def nameLength (bytes : Bytes) : Nat := nameLengthFrom 0 bytes

/-- Whether a string begins with a digit. -/
def digitNext (bytes : Bytes) : Bool := bytes.head?.any isDigit

/-- Length of the rest of a number.  Letters, digits and underscores go on without further check.
Outside hexadecimal, so do one point before a digit (`point` says it has come already), and a sign
between an `e` (the byte `last` before it) and a digit. -/
def numberLengthFrom (hex : Bool) : Bool → UInt8 → Bytes → Nat
  | _, _, [] => 0
  | point, last, b :: rest =>
    if isWord b then numberLengthFrom hex point b rest + 1
    else if b == 0x2E && !hex && !point && digitNext rest then
      numberLengthFrom hex true b rest + 1
    else if (b == 0x2B || b == 0x2D) && !hex && (last == 0x65 || last == 0x45) &&
        digitNext rest then
      numberLengthFrom hex point b rest + 1
    else 0

/-- Length of the number that begins with the digit `b`. -/
def numberLength (b : UInt8) (rest : Bytes) : Nat :=
  let hex := b == 0x30 && rest.head?.any fun x => x == 0x78 || x == 0x58
  numberLengthFrom hex false b rest + 1

/-- Length of what follows the opening delimiter of a string literal, closing delimiter included,
and whether there is one.  A backslash takes the byte after it along. -/
def literalLength (delimiter : Bytes) : Bytes → Nat × Bool
  | [] => (0, false)
  | b :: rest =>
    if b == 0x5C then
      match rest with
      | [] => (1, false)
      | _ :: rest =>
        let r := literalLength delimiter rest
        (r.1 + 2, r.2)
    else if delimiter.isPrefixOf (b :: rest) then (delimiter.length, true)
    else
      let r := literalLength delimiter rest
      (r.1 + 1, r.2)

/-- The style that the quote at the head of `b :: rest` opens. -/
def openingStyle (quote : Quote) (rest : Bytes) : StringStyle :=
  ⟨quote, [quote.byte, quote.byte].isPrefixOf rest⟩

/-- The string literal that opens with `quote` before `rest`. -/
def literal (quote : Quote) (rest : Bytes) : Scan :=
  let style := openingStyle quote rest
  let r := literalLength style.delimiter (rest.drop (style.width - 1))
  { kind := .string, length := style.width + r.1, style := some style,
    error := if r.2 then none else some .unterminatedString }

/-- Length of what follows the opening of a block comment, closing included, and whether there is
one.  Block comments do not nest. -/
def blockLength : Bytes → Nat × Bool
  | [] => (0, false)
  | b :: rest =>
    if b == 0x2A && rest.head? == some 0x2F then (2, true)
    else
      let r := blockLength rest
      (r.1 + 1, r.2)

/-- The comment to the end of the line whose first byte is followed by `rest`. -/
def lineComment (rest : Bytes) : Scan :=
  { kind := .comment, length := (rest.takeWhile (· ≠ Bytes.lineFeed)).length + 1 }

/-- The block comment whose opening is followed by `rest`. -/
def blockComment (rest : Bytes) : Scan :=
  let r := blockLength rest
  { kind := .comment, length := r.1 + 2, error := if r.2 then none else some .unterminatedComment }

/-- The token at the head of `b :: rest` when `b` is not ASCII. -/
def beyondAscii (b : UInt8) (rest : Bytes) : Scan :=
  match character b rest with
  | .char c =>
    if CharClass.isAlphanumeric c then { kind := .identifier, length := nameLength (b :: rest) }
    else { kind := .symbol, length := c.utf8Size }
  | .invalid n _ => { kind := .badCharacter, length := n, error := some .invalidByte }

/-- The token at the head of `b :: rest`. -/
def ofCons (b : UInt8) (rest : Bytes) : Scan :=
  if isBlank b then { kind := .whitespace, length := (rest.takeWhile isBlank).length + 1 }
  else if b == 0x2F && rest.head? == some 0x2F then lineComment rest
  else if b == 0x2F && rest.head? == some 0x2A then blockComment rest.tail
  else match Quote.ofByte? b with
    | some quote => literal quote rest
    | none =>
      if isDigit b then { kind := .numeric, length := numberLength b rest }
      else if isLetter b then { kind := .identifier, length := nameLength (b :: rest) }
      else if isPunctuation b then { kind := .symbol, length := 1 }
      else if isAscii b then
        { kind := .badCharacter, length := 1, error := some .controlCharacter }
      else beyondAscii b rest

/-- The token at the head of a string, the empty `endOfInput` when the string is empty. -/
def first : Bytes → Scan
  | [] => { kind := .endOfInput, length := 0 }
  | b :: rest => ofCons b rest

end Scan

/-- The scanned token at the head of `bytes`, placed at position `pos`. -/
def Scan.place (scan : Scan) (pos : Nat) (bytes : Bytes) : Token :=
  ⟨scan.kind, pos, bytes.take scan.length, scan.style, scan.error⟩

namespace Token

/-- The token at the head of `bytes`, which stand at position `pos` of a text. -/
def ofHead (pos : Nat) (bytes : Bytes) : Token := (Scan.first bytes).place pos bytes

/-- The token at a position of a text.  Positions past the end count as the end. -/
def readAt (text : Bytes) (pos : Nat) : Token :=
  let pos := min pos text.length
  ofHead pos (text.drop pos)

/-- The tokens of a string that stands at position `pos`, after `k` bytes that belong to the token
before. -/
def allFrom : Nat → Nat → Bytes → List Token
  | _, _, [] => []
  | pos, k + 1, _ :: rest => allFrom (pos + 1) k rest
  | pos, 0, b :: rest =>
    let token := ofHead pos (b :: rest)
    token :: allFrom (pos + 1) (token.length - 1) rest

/-- The tokens from a position to the end of a text. -/
def all (text : Bytes) (pos : Nat) : List Token :=
  let pos := min pos text.length
  allFrom pos 0 (text.drop pos)

theorem le_start_of_mem_allFrom {bytes : Bytes} {t : Token} :
    ∀ {pos k : Nat}, t ∈ allFrom pos k bytes → pos ≤ t.start := by
  induction bytes with
  | nil => intro pos k h; simp [allFrom] at h
  | cons b rest ih =>
    intro pos k h
    cases k with
    | zero =>
      rcases List.mem_cons.1 h with h | h
      · subst h; exact Nat.le_refl _
      · exact Nat.le_of_succ_le (ih h)
    | succ k => exact Nat.le_of_succ_le (ih h)

theorem pairwise_allFrom (bytes : Bytes) :
    ∀ pos k : Nat, (allFrom pos k bytes).Pairwise (·.start ≤ ·.start) := by
  induction bytes with
  | nil => intro pos k; simp [allFrom]
  | cons b rest ih =>
    intro pos k
    cases k with
    | zero =>
      refine List.pairwise_cons.2 ⟨fun t h => ?_, ih _ _⟩
      exact Nat.le_of_succ_le (le_start_of_mem_allFrom h)
    | succ k => exact ih _ _

theorem start_lt_of_mem_allFrom {bytes : Bytes} {t : Token} :
    ∀ {pos k : Nat}, t ∈ allFrom pos k bytes → t.start < pos + bytes.length := by
  induction bytes with
  | nil => intro pos k h; simp [allFrom] at h
  | cons b rest ih =>
    intro pos k h
    have hlen : pos + (b :: rest).length = pos + 1 + rest.length := by simp; omega
    rw [hlen]
    cases k with
    | zero =>
      rcases List.mem_cons.1 h with h | h
      · subst h; exact Nat.lt_of_lt_of_le (Nat.lt_succ_self pos) (Nat.le_add_right _ _)
      · exact ih h
    | succ k => exact ih h

theorem allFrom_start {bytes : Bytes} {t : Token} :
    ∀ {pos k : Nat}, t ∈ allFrom pos k bytes →
      allFrom t.start 0 (bytes.drop (t.start - pos)) =
        (allFrom pos k bytes).dropWhile (·.start < t.start) := by
  induction bytes with
  | nil => intro pos k h; simp [allFrom] at h
  | cons b rest ih =>
    intro pos k h
    have later {k : Nat} (hk : t ∈ allFrom (pos + 1) k rest) :
        allFrom t.start 0 ((b :: rest).drop (t.start - pos)) =
          (allFrom (pos + 1) k rest).dropWhile (·.start < t.start) := by
      have hle := le_start_of_mem_allFrom hk
      have hd : t.start - pos = (t.start - (pos + 1)) + 1 := by omega
      rw [hd, List.drop_succ_cons]
      exact ih hk
    cases k with
    | succ k => exact later h
    | zero =>
      rcases List.mem_cons.1 h with h | h
      · have hs : t.start = pos := by subst h; rfl
        rw [hs, Nat.sub_self, List.drop_zero]
        simp [allFrom, ofHead, Scan.place]
      · have hle := le_start_of_mem_allFrom h
        have hfirst : (ofHead pos (b :: rest)).start < t.start := hle
        rw [later h, allFrom, List.dropWhile_cons_of_pos (by simpa using hfirst)]

/-- Tokens are listed in the order of their positions. -/
theorem pairwise_all (text : Bytes) (pos : Nat) :
    (all text pos).Pairwise (·.start ≤ ·.start) := pairwise_allFrom _ _ _

theorem start_lt_of_mem_all {text : Bytes} {pos : Nat} {t : Token} (h : t ∈ all text pos) :
    t.start < text.length := by
  have := start_lt_of_mem_allFrom h
  rw [List.length_drop] at this
  omega

/-- From where a token begins, the tokens are those that do not begin before it. -/
theorem all_start {text : Bytes} {pos : Nat} {t : Token} (h : t ∈ all text pos) :
    all text t.start = (all text pos).dropWhile (·.start < t.start) := by
  have hle := le_start_of_mem_allFrom h
  have hlt := start_lt_of_mem_all h
  have hmin : min t.start text.length = t.start := by omega
  have hd : min pos text.length + (t.start - min pos text.length) = t.start := by omega
  have key := allFrom_start h
  rw [List.drop_drop, hd] at key
  simpa only [all, hmin] using key

theorem all_length (text : Bytes) : all text text.length = [] := by simp [all, allFrom]

end Token

end Metadoc
