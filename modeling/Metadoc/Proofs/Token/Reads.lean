import Metadoc.Proofs.Token.Tiling

/-!
# What is read first

`Scan.Reads` lists what a text may begin with, each with what tells it from the others.

* `Scan.reads_first` : the first token of a text is one of these;
* `Scan.Reads.eq_first` : it is no other.
-/

namespace Metadoc

namespace Scan

open Ascii

/-! ### Bytes -/

theorem lt_of_isWord {b : UInt8} (h : isWord b = true) : b < 0x80 := by
  simp only [isWord, isLetter, isDigit, Bool.or_eq_true, Bool.and_eq_true, decide_eq_true_eq,
    beq_iff_eq, UInt8.le_iff_toNat_le, ← UInt8.toNat_inj] at h
  simp only [UInt8.reduceToNat] at h
  simp only [UInt8.lt_iff_toNat_lt, UInt8.reduceToNat]
  omega

theorem lt_of_isPunctuation {b : UInt8} (h : isPunctuation b = true) : b < 0x80 := by
  simp only [isPunctuation, Bool.and_eq_true, decide_eq_true_eq, UInt8.le_iff_toNat_le] at h
  simp only [UInt8.reduceToNat] at h
  simp only [UInt8.lt_iff_toNat_lt, UInt8.reduceToNat]
  omega

theorem isAscii_of_lt {b : UInt8} (h : b < 0x80) : isAscii b = true := by
  simpa [isAscii] using h

theorem classes_of_ofByte? {b : UInt8} {quote : Quote} (h : Quote.ofByte? b = some quote) :
    isBlank b = false ∧ b ≠ 0x2F := by
  unfold Quote.ofByte? at h
  split at h
  · rename_i hb
    subst hb
    decide
  split at h
  · rename_i hb
    subst hb
    decide
  split at h
  · rename_i hb
    subst hb
    decide
  · cases h

theorem classes_of_beyond {b : UInt8} (h : isAscii b = false) :
    isWord b = false ∧ isPunctuation b = false := by
  constructor
  · rw [Bool.eq_false_iff]
    intro hw
    rw [isAscii_of_lt (lt_of_isWord hw)] at h
    cases h
  · rw [Bool.eq_false_iff]
    intro hp
    rw [isAscii_of_lt (lt_of_isPunctuation hp)] at h
    cases h

/-- A name has a byte if it begins with a letter, a digit or an underscore, or with another
character that is a letter or a number. -/
theorem nameLength_pos_iff {b : UInt8} {rest : Bytes} :
    0 < nameLength (b :: rest) ↔ isWord b = true ∨
      (isAscii b = false ∧ ∃ c, character b rest = .char c ∧
        CharClass.isAlphanumeric c = true) := by
  constructor
  · intro h
    unfold nameLength nameLengthFrom at h
    split at h
    · rename_i hw
      exact .inl hw
    split at h
    · cases h
    · rename_i ha
      refine .inr ⟨Bool.eq_false_iff.2 ha, ?_⟩
      cases hc : character b rest with
      | invalid n cut =>
        rw [hc] at h
        cases h
      | char c =>
        rw [hc] at h
        dsimp only at h
        split at h
        · rename_i halnum
          exact ⟨c, rfl, halnum⟩
        · cases h
  · rintro (hw | ⟨ha, c, hc, halnum⟩)
    · exact nameLength_pos_of_isWord hw
    · exact nameLength_pos_of_char hc halnum ha

/-! ### The branches of the lexer -/

/-- Whether a text begins neither with blanks, nor with a comment, nor with a string literal. -/
structure Bare (b : UInt8) (rest : Bytes) : Prop where
  /-- It begins with no blank. -/
  blank : isBlank b = false
  /-- It begins with no comment to the end of the line. -/
  line : ¬(b = 0x2F ∧ rest.head? = some 0x2F)
  /-- It begins with no block comment. -/
  block : ¬(b = 0x2F ∧ rest.head? = some 0x2A)
  /-- It begins with no quote. -/
  quote : Quote.ofByte? b = none

/-- What may be read first of `b :: rest`. -/
inductive Reads (b : UInt8) (rest : Bytes) : Scan → Prop
  /-- Blanks. -/
  | blanks (blank : isBlank b = true) :
      Reads b rest { kind := .whitespace, length := (rest.takeWhile isBlank).length + 1 }
  /-- A comment to the end of the line. -/
  | line (slash : b = 0x2F) (next : rest.head? = some 0x2F) : Reads b rest (lineComment rest)
  /-- A block comment. -/
  | block {body : Bytes} (slash : b = 0x2F) (star : rest = 0x2A :: body) :
      Reads b rest (blockComment body)
  /-- A string literal. -/
  | literal {quote : Quote} (opens : Quote.ofByte? b = some quote) :
      Reads b rest (literal quote rest)
  /-- A number. -/
  | number (bare : Bare b rest) (digit : isDigit b = true) :
      Reads b rest { kind := .numeric, length := numberLength b rest }
  /-- A name. -/
  | name (bare : Bare b rest) (digit : isDigit b = false) (pos : 0 < nameLength (b :: rest)) :
      Reads b rest { kind := .identifier, length := nameLength (b :: rest) }
  /-- A mark of ASCII. -/
  | mark (bare : Bare b rest) (word : isWord b = false) (mark : isPunctuation b = true) :
      Reads b rest { kind := .symbol, length := 1 }
  /-- A control character. -/
  | control (bare : Bare b rest) (word : isWord b = false) (mark : isPunctuation b = false)
      (ascii : isAscii b = true) :
      Reads b rest { kind := .badCharacter, length := 1, error := some .controlCharacter }
  /-- A character beyond ASCII that is neither a letter nor a number. -/
  | sign {c : Char} (bare : Bare b rest) (beyond : isAscii b = false)
      (char : character b rest = .char c) (alnum : CharClass.isAlphanumeric c = false) :
      Reads b rest { kind := .symbol, length := c.utf8Size }
  /-- A maximal invalid sequence. -/
  | broken {n : Nat} {cut : Bool} (bare : Bare b rest) (beyond : isAscii b = false)
      (char : character b rest = .invalid n cut) :
      Reads b rest { kind := .badCharacter, length := n, error := some .invalidByte }

theorem reads_beyondAscii {b : UInt8} {rest : Bytes} (bare : Bare b rest)
    (beyond : isAscii b = false) : Reads b rest (beyondAscii b rest) := by
  unfold beyondAscii
  cases hc : character b rest with
  | invalid n cut => exact .broken bare beyond hc
  | char c =>
    dsimp only
    split
    · rename_i halnum
      have hdigit : isDigit b = false := by
        have hword := (classes_of_beyond beyond).1
        simp only [isWord, Bool.or_eq_false_iff] at hword
        exact hword.2
      exact .name bare hdigit (nameLength_pos_of_char hc halnum beyond)
    · rename_i halnum
      exact .sign bare beyond hc (Bool.eq_false_iff.2 halnum)

/-- What is read first is one of the above. -/
theorem reads_first (b : UInt8) (rest : Bytes) : Reads b rest (first (b :: rest)) := by
  simp only [first]
  unfold ofCons
  split
  · exact .blanks ‹_›
  rename_i hblank
  split
  · rename_i hline
    simp only [Bool.and_eq_true, beq_iff_eq] at hline
    exact .line hline.1 hline.2
  rename_i hline
  split
  · rename_i hblock
    simp only [Bool.and_eq_true, beq_iff_eq] at hblock
    obtain ⟨body, rfl⟩ := List.head?_eq_some_iff.1 hblock.2
    exact .block hblock.1 rfl
  rename_i hblock
  split
  · exact .literal ‹_›
  rename_i hquote
  have bare : Bare b rest :=
    ⟨Bool.eq_false_iff.2 hblank, by simpa using hline, by simpa using hblock, hquote⟩
  split
  · exact .number bare ‹_›
  rename_i hdigit
  split
  · rename_i hletter
    exact .name bare (Bool.eq_false_iff.2 hdigit)
      (nameLength_pos_of_isWord (by rw [isWord, hletter, Bool.true_or]))
  rename_i hletter
  have hword : isWord b = false := by simpa [isWord] using And.intro hletter hdigit
  split
  · exact .mark bare hword ‹_›
  rename_i hmark
  split
  · exact .control bare hword (Bool.eq_false_iff.2 hmark) ‹_›
  rename_i hascii
  exact reads_beyondAscii bare (Bool.eq_false_iff.2 hascii)

/-- What the lexer still has to tell apart. -/
theorem Bare.ofCons {b : UInt8} {rest : Bytes} (h : Bare b rest) :
    ofCons b rest =
      if isDigit b then { kind := .numeric, length := numberLength b rest }
      else if isLetter b then { kind := .identifier, length := nameLength (b :: rest) }
      else if isPunctuation b then { kind := .symbol, length := 1 }
      else if isAscii b then
        { kind := .badCharacter, length := 1, error := some .controlCharacter }
      else beyondAscii b rest := by
  unfold Scan.ofCons
  rw [if_neg (by rw [h.blank]; exact Bool.false_ne_true), if_neg (by simpa using h.line),
    if_neg (by simpa using h.block), h.quote]

theorem Bare.ofCons_of_beyond {b : UInt8} {rest : Bytes} (h : Bare b rest)
    (beyond : isAscii b = false) : Scan.ofCons b rest = beyondAscii b rest := by
  obtain ⟨hword, hmark⟩ := classes_of_beyond beyond
  simp only [isWord, Bool.or_eq_false_iff] at hword
  rw [h.ofCons, if_neg (by simp [hword]), if_neg (by simp [hword]), if_neg (by simp [hmark]),
    if_neg (by simp [beyond])]

/-- Nothing else is read. -/
theorem Reads.eq_first {b : UInt8} {rest : Bytes} {scan : Scan} (h : Reads b rest scan) :
    first (b :: rest) = scan := by
  rw [first]
  cases h with
  | blanks blank => rw [ofCons, if_pos blank]
  | line slash next =>
    subst slash
    rw [ofCons, if_neg (by decide), if_pos (by simp [next])]
  | block slash star =>
    subst slash star
    rfl
  | literal opens =>
    obtain ⟨hblank, hslash⟩ := classes_of_ofByte? opens
    rw [ofCons, if_neg (by simp [hblank]), if_neg (by simp [hslash]), if_neg (by simp [hslash]),
      opens]
  | number bare digit => rw [bare.ofCons, if_pos digit]
  | name bare digit pos =>
    rcases nameLength_pos_iff.1 pos with hword | ⟨hascii, c, hc, halnum⟩
    · have hletter : isLetter b = true := by simpa [isWord, digit] using hword
      rw [bare.ofCons, if_neg (by simp [digit]), if_pos hletter]
    · rw [bare.ofCons_of_beyond hascii, beyondAscii, hc]
      dsimp only
      rw [if_pos halnum]
  | mark bare word mark =>
    simp only [isWord, Bool.or_eq_false_iff] at word
    rw [bare.ofCons, if_neg (by simp [word]), if_neg (by simp [word]), if_pos mark]
  | control bare word mark ascii =>
    simp only [isWord, Bool.or_eq_false_iff] at word
    rw [bare.ofCons, if_neg (by simp [word]), if_neg (by simp [word]), if_neg (by simp [mark]),
      if_pos ascii]
  | sign bare beyond char alnum =>
    rw [bare.ofCons_of_beyond beyond, beyondAscii, char]
    dsimp only
    rw [if_neg (by simp [alnum])]
  | broken bare beyond char => rw [bare.ofCons_of_beyond beyond, beyondAscii, char]

end Scan

end Metadoc
