import Metadoc.Document.Lexeme
import Metadoc.Proofs.Text.Encoding
import Metadoc.Proofs.Token.Boundary
import Metadoc.Proofs.Token.Faults
import Metadoc.Proofs.Token.Reads

/-!
# The text of a token is its own

A token ends where the text may be cut, so what is shown for it depends on its own bytes alone.

* `Utf8.SplitsAt` says that no piece of a text goes on at a position, and `Scan.splitsAt_first` that
  none goes on behind its first token;
* `Scan.Reads.isValid` : tokens are well-formed, but for comments, literals and invalid sequences;
* `Token.Stands` says that a token begins and ends where no character goes on, and that what is
  shown in its place is what is shown for its bytes;
* `Token.alone` is a token with the text shown for its bytes;
* `Lexeme.all_eq_map_alone` : the lexemes of a document are its tokens, each with that text.
-/

namespace Metadoc

/-- Whether a text may be cut at a position: its two parts are shown as they are in the whole. -/
def Utf8.CutsAt (bytes : Bytes) (n : Nat) : Prop :=
  shown bytes = shown (bytes.take n) ++ shown (bytes.drop n)

/-- Whether no piece of a text goes on at a position: its two parts have the pieces of the whole. -/
def Utf8.SplitsAt (bytes : Bytes) (n : Nat) : Prop :=
  settledPieces bytes = settledPieces (bytes.take n) ++ settledPieces (bytes.drop n)

namespace Utf8

variable {bytes : Bytes} {n : Nat}

theorem SplitsAt.cutsAt (h : SplitsAt bytes n) : CutsAt bytes n := by
  rw [CutsAt, shown_eq_flatMap, h, List.flatMap_append, ← shown_eq_flatMap, ← shown_eq_flatMap]

theorem splitsAt_of_length_le (h : bytes.length ≤ n) : SplitsAt bytes n := by
  rw [SplitsAt, List.take_of_length_le h, List.drop_of_length_le h, settledPieces_nil,
    List.append_nil]

theorem splitsAt_of_isValid (h : isValid (bytes.take n) = true) : SplitsAt bytes n := by
  rw [SplitsAt, ← settledPieces_append_of_isValid h, List.take_append_drop]

theorem splitsAt_of_opens (h : Opens (bytes.drop n)) : SplitsAt bytes n := by
  rw [SplitsAt, ← settledPieces_append_of_opens h, List.take_append_drop]

theorem splitsAt_of_ascii {b : UInt8} {before after : Bytes} (hb : b < 0x80)
    (h : bytes = before ++ [b] ++ after) (hn : n = before.length + 1) : SplitsAt bytes n := by
  have hlength : (before ++ [b]).length = n := by simp [hn]
  rw [SplitsAt, h, ← hlength, List.take_left, List.drop_left, settledPieces_append_of_ascii hb]

theorem splitsAt_of_invalid {b : UInt8} {rest : Bytes} {cut : Bool}
    (h : piece b rest = .invalid n cut) :
    SplitsAt (b :: rest) n ∧ settledPieces ((b :: rest).take n) = [.invalid n false] := by
  obtain ⟨m, rfl⟩ := Nat.exists_eq_add_of_le' (piece_invalid_le h).1
  have hle := (piece_invalid_le h).2
  obtain ⟨xs, ys, rfl, hxs⟩ : ∃ xs ys, rest = xs ++ ys ∧ xs.length = m :=
    ⟨rest.take m, rest.drop m, (List.take_append_drop m rest).symm, by
      rw [List.length_take]
      omega⟩
  obtain ⟨halone, happend⟩ := settledPieces_append_of_invalid h (congrArg (· + 1) hxs.symm)
  rw [SplitsAt, List.take_succ_cons, List.drop_succ_cons, ← hxs, List.take_left, List.drop_left,
    hxs]
  exact ⟨happend, halone⟩

end Utf8

namespace Scan

open Ascii Utf8

/-! ### Where scans end -/

theorem lt_of_mem_number {hex : Bool} {xs : Bytes} :
    ∀ {point : Bool} {last : UInt8},
      ∀ x ∈ xs.take (numberLengthFrom hex point last xs), x < 0x80 := by
  induction xs with
  | nil => intro point last x hx; simp at hx
  | cons b rest ih =>
    intro point last x hx
    unfold numberLengthFrom at hx
    -- Whatever the number goes on with, it is a byte of ASCII.
    have step {n : Nat} (hb : b < 0x80) (hrest : ∀ x ∈ rest.take n, x < 0x80)
        (hx : x ∈ (b :: rest).take (n + 1)) : x < 0x80 := by
      rw [List.take_succ_cons] at hx
      rcases List.mem_cons.1 hx with rfl | hx
      · exact hb
      · exact hrest x hx
    split at hx
    · rename_i hw
      exact step (lt_of_isWord hw) ih hx
    split at hx
    · rename_i hp
      simp only [Bool.and_eq_true, beq_iff_eq] at hp
      exact step (by rw [hp.1.1.1]; decide) ih hx
    split at hx
    · rename_i hs
      simp only [Bool.and_eq_true, Bool.or_eq_true, beq_iff_eq] at hs
      refine step ?_ ih hx
      rcases hs.1.1.1 with rfl | rfl <;> decide
    · simp at hx

theorem nameLengthFrom_drop (xs : Bytes) :
    ∀ k ≤ xs.length, nameLengthFrom k xs = k + nameLength (xs.drop k) := by
  induction xs with
  | nil => intro k hk; cases Nat.le_zero.1 hk; rfl
  | cons b rest ih =>
    intro k hk
    cases k with
    | zero => rw [Nat.zero_add, List.drop_zero, nameLength]
    | succ k =>
      rw [nameLengthFrom, ih k (Nat.le_of_succ_le_succ hk), List.drop_succ_cons]
      omega

/-- Through its window the scanner sees the piece at the head of the whole text. -/
theorem settled_character (b : UInt8) (rest : Bytes) :
    (character b rest).settled = (piece b rest).settled :=
  settled_piece_take b rest

theorem piece_of_character {b : UInt8} {rest : Bytes} {c : Char} (h : character b rest = .char c) :
    piece b rest = .char c := by
  rw [← Piece.settled_eq_char, ← settled_character, h]
  rfl

theorem broken_of_character {b : UInt8} {rest : Bytes} {n : Nat} {cut : Bool}
    (h : character b rest = .invalid n cut) : ∃ cut', piece b rest = .invalid n cut' := by
  have hsettled : (piece b rest).settled = .invalid n false := by
    rw [← settled_character, h]
    rfl
  exact Piece.exists_of_settled hsettled

theorem isValid_encodeChar (c : Char) : isValid (String.utf8EncodeChar c) = true := by
  simpa [encode] using isValid_encode [c]

theorem isValid_take_nameLength (xs : Bytes) : isValid (xs.take (nameLength xs)) = true := by
  -- A character may be several bytes long, so the induction is on a bound for the length.
  obtain ⟨n, hn⟩ : ∃ n, xs.length ≤ n := ⟨_, Nat.le_refl _⟩
  induction n generalizing xs with
  | zero =>
    rw [List.length_eq_zero_iff.1 (Nat.le_zero.1 hn)]
    rfl
  | succ n ih =>
    cases xs with
    | nil => rfl
    | cons b rest =>
      simp only [List.length_cons] at hn
      simp only [nameLength, nameLengthFrom]
      split
      · rename_i hw
        have hb : isValid [b] = true := isValid_of_ascii (by simpa using lt_of_isWord hw)
        exact isValid_append hb (ih rest (by omega))
      split
      · rfl
      cases hc : character b rest with
      | invalid m cut => rfl
      | char c =>
        dsimp only
        split
        · have hsize := utf8Size_le_of_character hc
          have hpos := c.utf8Size_pos
          have hlength : nameLengthFrom (c.utf8Size - 1) rest + 1 =
              (String.utf8EncodeChar c).length + nameLength (rest.drop (c.utf8Size - 1)) := by
            rw [nameLengthFrom_drop rest _ hsize, String.length_utf8EncodeChar]
            omega
          rw [hlength, drop_length_piece (piece_of_character hc), List.take_length_add_append]
          exact isValid_append (isValid_encodeChar c)
            (ih _ (by rw [List.length_drop]; omega))
        · rfl

theorem blockLength_cases (xs : Bytes) :
    ((blockLength xs).2 = true ∧ ∃ before after, xs = before ++ [0x2F] ++ after ∧
      (blockLength xs).1 = before.length + 1) ∨
    ((blockLength xs).2 = false ∧ (blockLength xs).1 = xs.length) := by
  induction xs with
  | nil => exact .inr ⟨rfl, rfl⟩
  | cons b rest ih =>
    unfold blockLength
    split
    · rename_i hb
      simp only [Bool.and_eq_true, beq_iff_eq] at hb
      obtain ⟨rest', rfl⟩ := List.head?_eq_some_iff.1 hb.2
      exact .inl ⟨rfl, [b], rest', rfl, rfl⟩
    · dsimp only
      rcases ih with ⟨hclosed, before, after, hrest, hlength⟩ | ⟨hopen, hlength⟩
      · exact .inl ⟨hclosed, b :: before, after, by rw [hrest]; rfl, by rw [hlength]; rfl⟩
      · exact .inr ⟨hopen, by rw [hlength]; rfl⟩

theorem literalLength_cases (d xs : Bytes) :
    ((literalLength d xs).2 = true ∧ ∃ before after, xs = before ++ d ++ after ∧
      (literalLength d xs).1 = before.length + d.length) ∨
    ((literalLength d xs).2 = false ∧ (literalLength d xs).1 = xs.length) := by
  fun_induction literalLength d xs with
  | case1 => exact .inr ⟨rfl, rfl⟩
  | case2 => exact .inr ⟨rfl, rfl⟩
  | case3 b hb x rest r ih =>
    rcases ih with ⟨hclosed, before, after, hrest, hlength⟩ | ⟨hopen, hlength⟩
    · refine .inl ⟨hclosed, b :: x :: before, after, by rw [hrest]; rfl, ?_⟩
      simp only [r, hlength, List.length_cons]
      omega
    · exact .inr ⟨hopen, congrArg (· + 2) hlength⟩
  | case4 b rest hb hd =>
    obtain ⟨after, hafter⟩ := List.isPrefixOf_iff_prefix.1 hd
    exact .inl ⟨rfl, [], after, hafter.symm, by simp⟩
  | case5 b rest hb hd r ih =>
    rcases ih with ⟨hclosed, before, after, hrest, hlength⟩ | ⟨hopen, hlength⟩
    · refine .inl ⟨hclosed, b :: before, after, by rw [hrest]; rfl, ?_⟩
      simp only [r, hlength, List.length_cons]
      omega
    · exact .inr ⟨hopen, congrArg (· + 1) hlength⟩

/-! ### The first token -/

theorem drop_length_takeWhile (p : UInt8 → Bool) (xs : Bytes) :
    xs.drop (xs.takeWhile p).length = xs.dropWhile p := by
  have hleft := @List.drop_left _ (xs.takeWhile p) (xs.dropWhile p)
  rwa [List.takeWhile_append_dropWhile] at hleft

theorem eq_false_of_mem_head?_dropWhile {p : UInt8 → Bool} {xs : Bytes} {x : UInt8}
    (h : x ∈ (xs.dropWhile p).head?) : p x = false := by
  have hnot := List.head?_dropWhile_not p xs
  rwa [Option.mem_def.1 h] at hnot

theorem splitsAt_lineComment (b : UInt8) (rest : Bytes) :
    SplitsAt (b :: rest) (lineComment rest).length := by
  refine splitsAt_of_opens ?_
  rw [lineComment, List.drop_succ_cons, drop_length_takeWhile]
  intro x hx
  have hfeed : x = Bytes.lineFeed := by simpa using eq_false_of_mem_head?_dropWhile hx
  rw [hfeed]
  decide

theorem splitsAt_blockComment (b c : UInt8) (rest : Bytes) :
    SplitsAt (b :: c :: rest) (blockComment rest).length := by
  simp only [blockComment]
  rcases blockLength_cases rest with ⟨-, before, after, hrest, hlength⟩ | ⟨-, hlength⟩
  · have htext : b :: c :: rest = b :: c :: before ++ [0x2F] ++ after := by rw [hrest]; rfl
    exact splitsAt_of_ascii (by decide) htext (by rw [hlength]; rfl)
  · exact splitsAt_of_length_le (by rw [hlength]; exact Nat.le_refl _)

theorem splitsAt_literal (b : UInt8) (quote : Quote) (rest : Bytes) :
    SplitsAt (b :: rest) (literal quote rest).length := by
  have hwidth := width_openingStyle_le quote rest
  simp only [literal]
  generalize openingStyle quote rest = style at hwidth
  have hdelimiter : style.delimiter = List.replicate (style.width - 1) style.quote.byte ++
      [style.quote.byte] := by
    rw [← List.replicate_succ', Nat.sub_add_cancel (width_pos style)]
    rfl
  have hpos := width_pos style
  have hlt : style.quote.byte < 0x80 := by cases style.quote <;> decide
  rcases literalLength_cases style.delimiter (rest.drop (style.width - 1)) with
    ⟨-, before, after, hrest, hlength⟩ | ⟨-, hlength⟩
  · rw [hdelimiter] at hrest
    have htext : b :: rest = b :: rest.take (style.width - 1) ++ before ++
        List.replicate (style.width - 1) style.quote.byte ++ [style.quote.byte] ++ after := by
      have hsplit := (List.take_append_drop (style.width - 1) rest).symm
      rw [hrest] at hsplit
      simpa using hsplit
    refine splitsAt_of_ascii hlt htext ?_
    rw [hlength, hdelimiter]
    simp only [List.length_append, List.length_replicate, List.length_cons, List.length_nil,
      List.length_take]
    omega
  · refine splitsAt_of_length_le ?_
    rw [hlength, List.length_drop, List.length_cons]
    omega

/-- Whether a token may be ill-formed: a comment, a string literal or an invalid sequence. -/
def MayBreak (scan : Scan) : Prop :=
  scan.kind = .comment ∨ scan.kind = .string ∨ scan.error = some .invalidByte

/-- Every other token is well-formed. -/
theorem Reads.isValid {b : UInt8} {rest : Bytes} {scan : Scan} (h : Reads b rest scan)
    (hno : ¬scan.MayBreak) : isValid ((b :: rest).take scan.length) = true := by
  cases h with
  | blanks blank =>
    have hascii := (@honest_whitespace b rest blank).trivia rfl rfl
    exact isValid_of_ascii (hascii.resolve_left fun h => by cases h)
  | line slash next => exact absurd (.inl rfl) hno
  | block slash star => exact absurd (.inl rfl) hno
  | literal opens => exact absurd (.inr (.inl rfl)) hno
  | number bare digit =>
    refine isValid_of_ascii fun x hx => ?_
    rw [numberLength, List.take_succ_cons] at hx
    rcases List.mem_cons.1 hx with rfl | hx
    · exact lt_of_isWord (by rw [isWord, digit, Bool.or_true])
    · exact lt_of_mem_number x hx
  | name bare digit pos => exact isValid_take_nameLength (b :: rest)
  | mark bare word mark => exact isValid_of_ascii (by simpa using lt_of_isPunctuation mark)
  | control bare word mark ascii => exact isValid_of_ascii (by simpa [isAscii] using ascii)
  | sign bare beyond char alnum =>
    rw [drop_length_piece (piece_of_character char), ← String.length_utf8EncodeChar, List.take_left]
    exact isValid_encodeChar _
  | broken bare beyond char => exact absurd (.inr (.inr rfl)) hno

/-- No piece of a text goes on behind its first token. -/
theorem Reads.splitsAt {b : UInt8} {rest : Bytes} {scan : Scan} (h : Reads b rest scan) :
    SplitsAt (b :: rest) scan.length := by
  by_cases hbreak : scan.MayBreak
  · cases h with
    | line slash next => exact splitsAt_lineComment b rest
    | @block body slash star =>
      subst star
      exact splitsAt_blockComment b _ body
    | @literal quote opens => exact splitsAt_literal b quote rest
    | broken bare beyond char =>
      obtain ⟨cut', hpiece⟩ := broken_of_character char
      exact (splitsAt_of_invalid hpiece).1
    | _ => simp [MayBreak] at hbreak
  · exact splitsAt_of_isValid (h.isValid hbreak)

theorem splitsAt_first (bytes : Bytes) : SplitsAt bytes (first bytes).length := by
  cases bytes with
  | nil => exact splitsAt_of_length_le (Nat.le_refl 0)
  | cons b rest => exact (reads_first b rest).splitsAt

theorem cutsAt_first (bytes : Bytes) : CutsAt bytes (first bytes).length :=
  (splitsAt_first bytes).cutsAt

end Scan

/-! ### Tokens in their document -/

namespace Token

open Utf8

theorem length_ofHead (pos : Nat) (b : UInt8) (rest : Bytes) :
    (ofHead pos (b :: rest)).length = (Scan.first (b :: rest)).length := by
  have hle := Scan.length_le b rest
  simp only [length, ofHead, Scan.place, List.length_take, List.length_cons]
  omega

/-- Whether what is shown from a position on is what is shown for the text from there on. -/
def AlignedAt (text : Bytes) (pos : Nat) : Prop := (shown text).drop pos = shown (text.drop pos)

theorem alignedAt_zero (text : Bytes) : AlignedAt text 0 := by
  rw [AlignedAt, List.drop_zero, List.drop_zero]

theorem AlignedAt.isBoundary {text : Bytes} {pos : Nat} (h : AlignedAt text pos)
    (hle : pos ≤ text.length) : (shown text).isBoundary pos = true := by
  have hopens := opens_shown (text.drop pos)
  unfold Bytes.isBoundary
  rw [h]
  cases hs : shown (text.drop pos) with
  | nil => simpa [length_shown] using hle
  | cons b rest =>
    rw [hs, opens_cons] at hopens
    simpa using hopens

theorem AlignedAt.add {text : Bytes} {pos n : Nat} (h : AlignedAt text pos)
    (hcut : CutsAt (text.drop pos) n) (hn : n ≤ (text.drop pos).length) :
    AlignedAt text (pos + n) := by
  have hlength : (shown ((text.drop pos).take n)).length = n := by
    rw [length_shown, List.length_take, Nat.min_eq_left hn]
  rw [AlignedAt, ← List.drop_drop, h, hcut, ← List.drop_drop]
  rw [List.drop_append_of_le_length (Nat.le_of_eq hlength.symm),
    List.drop_of_length_le (Nat.le_of_eq hlength), List.nil_append]

theorem alignedAt_of_mem_allFrom {text bytes : Bytes} {t : Token} :
    ∀ {pos k : Nat}, text.drop pos = bytes → k ≤ bytes.length → AlignedAt text (pos + k) →
      t ∈ allFrom pos k bytes → AlignedAt text t.start := by
  induction bytes with
  | nil => intro pos k _ _ _ ht; simp [allFrom] at ht
  | cons b rest ih =>
    intro pos k hdrop hk haligned ht
    have hrest : text.drop (pos + 1) = rest := by
      rw [← List.drop_drop, hdrop, List.drop_succ_cons, List.drop_zero]
    cases k with
    | succ k =>
      rw [Nat.add_comm k, ← Nat.add_assoc] at haligned
      exact ih hrest (Nat.le_of_succ_le_succ hk) haligned ht
    | zero =>
      rcases List.mem_cons.1 ht with rfl | ht
      · exact haligned
      · have hlength : (ofHead pos (b :: rest)).length = (Scan.first (b :: rest)).length :=
          length_ofHead pos b rest
        have hpos := Scan.length_pos b rest
        have hle := Scan.length_le b rest
        rw [Nat.add_zero] at haligned
        have hnext : AlignedAt text (pos + (Scan.first (b :: rest)).length) :=
          haligned.add (by rw [hdrop]; exact Scan.cutsAt_first _) (by rw [hdrop]; exact hle)
        rw [hlength] at ht
        refine ih hrest (by omega) ?_ ht
        rwa [Nat.add_assoc, Nat.add_sub_cancel' hpos]

/-- A token with the text shown for its bytes. -/
def alone (t : Token) : Lexeme := ⟨t, lossy (shown t.bytes)⟩

/-- Whether a token has its own text: what is shown of the whole text in the place of the token is
what is shown for its bytes. -/
structure Stands (text : Bytes) (t : Token) : Prop where
  /-- It begins where no character goes on. -/
  start : (shown text).isBoundary t.start = true
  /-- It ends where no character goes on. -/
  stop : (shown text).isBoundary t.stop = true
  /-- What is shown there is what is shown for its bytes. -/
  shown : shown t.bytes <+: (shown text).drop t.start

variable {text : Bytes} {t : Token}

theorem AlignedAt.stands (h : AlignedAt text t.start) {b : UInt8} {rest : Bytes}
    (hdrop : text.drop t.start = b :: rest) (ht : t = ofHead t.start (b :: rest)) :
    Stands text t := by
  have hlength : t.length = (Scan.first (b :: rest)).length := by rw [ht, length_ofHead]
  have hlt : t.start < text.length := by
    rw [← Nat.not_le, ← List.drop_eq_nil_iff, hdrop]
    exact List.cons_ne_nil b rest
  have hle : t.length ≤ (text.drop t.start).length := by
    rw [hlength, hdrop]
    exact Scan.length_le b rest
  have hcut : CutsAt (text.drop t.start) t.length := by
    rw [hlength, hdrop]
    exact Scan.cutsAt_first _
  have hbytes : t.bytes = (text.drop t.start).take t.length := by
    rw [hlength, hdrop, ht]
    rfl
  have hstop := h.add hcut hle
  rw [List.length_drop] at hle
  refine ⟨h.isBoundary (Nat.le_of_lt hlt), hstop.isBoundary (by omega), ?_⟩
  rw [h, hcut, ← hbytes]
  exact List.prefix_append _ _

theorem stands_of_mem_all {pos : Nat} (hpos : AlignedAt text (min pos text.length))
    (h : t ∈ all text pos) : Stands text t := by
  obtain ⟨b, rest, hdrop, ht⟩ := exists_of_mem_allFrom h
  have hle := le_start_of_mem_allFrom h
  rw [List.drop_drop, Nat.add_sub_cancel' hle] at hdrop
  exact (alignedAt_of_mem_allFrom rfl (Nat.zero_le _) hpos h).stands hdrop ht

theorem Stands.textOf (h : Stands text t) :
    (Utf8.shown text).textOf t.span = lossy (Utf8.shown t.bytes) := by
  have hslice : (Utf8.shown text).slice t.start t.stop = Utf8.shown t.bytes := by
    obtain ⟨rest, hrest⟩ := h.shown
    have hlength : (Utf8.shown t.bytes).length = t.length := length_shown t.bytes
    rw [Bytes.slice, Token.stop, Nat.add_sub_cancel_left, ← hrest, ← hlength, List.take_left]
  rw [Bytes.textOf, span, if_pos ⟨Nat.le_add_right _ _, h.start, h.stop⟩, hslice]

end Token

theorem Lexeme.all_eq_map_alone_of_alignedAt {source : Source} {pos : Nat}
    (hpos : Token.AlignedAt source.bytes (min pos source.length)) :
    all source pos = (Token.all source.bytes pos).map Token.alone := by
  rw [all_eq_map]
  refine List.map_congr_left fun t ht => ?_
  rw [Source.shown, (Token.stands_of_mem_all hpos ht).textOf, Token.alone]

/-- The lexemes of a document are its tokens, each with the text shown for its bytes. -/
theorem Lexeme.all_eq_map_alone (source : Source) :
    all source 0 = (Token.all source.bytes 0).map Token.alone :=
  all_eq_map_alone_of_alignedAt (by rw [Nat.zero_min]; exact Token.alignedAt_zero _)

end Metadoc
