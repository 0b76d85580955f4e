import Metadoc.Document.Cursor
import Metadoc.Proofs.Text.Cuts
import Metadoc.Proofs.Token.Tiling

/-!
# Where tokens end

A blank or a reserved mark ends a name, a number and a literal that is closed, whatever comes
after.

* `Scan.Foreign` says what no such byte is, `Scan.Sealed` that a text begins with one or is empty;
* `Scan.first_congr` : a token that ends before such a text is read in the same way before any
  other;
* `Scan.first_append` : a token that is a whole string by itself is the first token of that string
  and a text that begins with a space or a reserved mark.
-/

namespace Metadoc

namespace Scan

open Ascii

/-- The bytes that no name or number goes on with: a space and the reserved marks. -/
def endsName (b : UInt8) : Bool := b == 0x20 || reservedSymbols.contains b

/-- Whether a text is empty or begins with a byte that ends names. -/
def Bounded (bytes : Bytes) : Prop := ∀ b ∈ bytes.head?, endsName b = true

theorem bounded_nil : Bounded [] := nofun

theorem bounded_cons {b : UInt8} {bytes : Bytes} : Bounded (b :: bytes) ↔ endsName b = true := by
  simp [Bounded]

/-- What no byte that ends names is. -/
structure Foreign (b : UInt8) : Prop where
  /-- Neither a letter nor a digit nor an underscore. -/
  word : isWord b = false
  /-- Not beyond ASCII. -/
  ascii : isAscii b = true
  /-- Not a point, a plus or a minus. -/
  number : b ≠ 0x2E ∧ b ≠ 0x2B ∧ b ≠ 0x2D
  /-- Neither a slash nor a star. -/
  comment : b ≠ 0x2F ∧ b ≠ 0x2A
  /-- Not a quote. -/
  quote : ∀ q : Quote, b ≠ q.byte

theorem foreign_of_endsName {b : UInt8} (h : endsName b = true) : Foreign b := by
  have hmem : b ∈ (0x20 :: reservedSymbols : Bytes) := by
    simpa [endsName] using h
  have hall : ∀ x ∈ (0x20 :: reservedSymbols : Bytes), isWord x = false ∧ isAscii x = true ∧
      (x ≠ 0x2E ∧ x ≠ 0x2B ∧ x ≠ 0x2D) ∧ (x ≠ 0x2F ∧ x ≠ 0x2A) ∧
        x ≠ Quote.single.byte ∧ x ≠ Quote.double.byte ∧ x ≠ Quote.tick.byte := by
    decide +kernel
  obtain ⟨hword, hascii, hnumber, hcomment, hsingle, hdouble, htick⟩ := hall b hmem
  refine ⟨hword, hascii, hnumber, hcomment, fun q => ?_⟩
  cases q
  · exact hsingle
  · exact hdouble
  · exact htick

theorem Foreign.digit {b : UInt8} (h : Foreign b) : isDigit b = false := by
  have hword := h.word
  simp only [isWord, Bool.or_eq_false_iff] at hword
  exact hword.2

theorem foreign_of_isBlank {b : UInt8} (h : isBlank b = true) : Foreign b := by
  simp only [isBlank, Bool.or_eq_true, beq_iff_eq] at h
  rcases h with ((((rfl | rfl) | rfl) | rfl) | rfl) | rfl <;>
    exact ⟨rfl, rfl, by decide, by decide, fun q => by cases q <;> decide⟩

/-- Whether a text is empty or begins with a byte that is foreign to every token before it. -/
def Sealed (bytes : Bytes) : Prop := ∀ b ∈ bytes.head?, Foreign b

theorem sealed_nil : Sealed [] := nofun

theorem sealed_cons {b : UInt8} {bytes : Bytes} : Sealed (b :: bytes) ↔ Foreign b := by
  simp [Sealed]

theorem Bounded.sealed {bytes : Bytes} (h : Bounded bytes) : Sealed bytes :=
  fun b hb => foreign_of_endsName (h b hb)

theorem Sealed.opens {bytes : Bytes} (h : Sealed bytes) : Utf8.Opens bytes :=
  fun b hb => Utf8.isTail_of_ascii (by simpa [isAscii] using (h b hb).ascii)

/-- A test that every foreign byte fails does not see what follows a text. -/
theorem any_head?_append {v : Bytes} (h : Sealed v) {p : UInt8 → Bool}
    (hp : ∀ b, Foreign b → p b = false) (xs : Bytes) :
    (xs ++ v).head?.any p = xs.head?.any p := by
  cases xs with
  | cons x xs => rfl
  | nil =>
    cases v with
    | nil => rfl
    | cons b v => exact hp b (sealed_cons.1 h)

theorem head?_append {v : Bytes} (h : Sealed v) {x : UInt8} (hx : ¬Foreign x) (xs : Bytes) :
    ((xs ++ v).head? == some x) = (xs.head? == some x) := by
  have hany (o : Option UInt8) : (o == some x) = o.any (· == x) := by cases o <;> simp
  rw [hany, hany]
  refine any_head?_append h (fun b hb => ?_) xs
  rw [beq_eq_false_iff_ne]
  rintro rfl
  exact hx hb

/-! ### Numbers and names -/

variable {v : Bytes}

theorem digitNext_append (h : Sealed v) (xs : Bytes) : digitNext (xs ++ v) = digitNext xs :=
  any_head?_append h (fun _ hb => hb.digit) xs

theorem numberLengthFrom_append (h : Sealed v) (hex : Bool) (xs : Bytes) :
    ∀ point last, numberLengthFrom hex point last (xs ++ v) =
      numberLengthFrom hex point last xs := by
  induction xs with
  | nil =>
    intro point last
    cases v with
    | nil => rfl
    | cons b v =>
      have hb := sealed_cons.1 h
      simp [numberLengthFrom, hb.word, hb.number]
  | cons x xs ih =>
    intro point last
    rw [List.cons_append, numberLengthFrom, numberLengthFrom, digitNext_append h]
    simp only [ih]

theorem numberLength_append (h : Sealed v) (b : UInt8) (xs : Bytes) :
    numberLength b (xs ++ v) = numberLength b xs := by
  have hx (c : UInt8) (hc : Foreign c) : (c == 0x78 || c == 0x58) = false := by
    have hword := hc.word
    rw [Bool.or_eq_false_iff, beq_eq_false_iff_ne, beq_eq_false_iff_ne]
    constructor
    · rintro rfl
      exact absurd hword (by decide)
    · rintro rfl
      exact absurd hword (by decide)
  simp only [numberLength, any_head?_append h hx, numberLengthFrom_append h]

/-- Reading through the window sees as much of a character as reading on. -/
theorem character_append {b : UInt8} {xs : Bytes} {c : Char} (h : character b xs = .char c)
    (ys : Bytes) : character b (xs ++ ys) = .char c := by
  unfold character at h ⊢
  rw [List.take_append]
  exact Utf8.piece_append h _

theorem settled_character_append (h : Sealed v) (b : UInt8) (xs : Bytes) :
    (character b (xs ++ v)).settled = (character b xs).settled := by
  unfold character
  rw [List.take_append]
  exact Utf8.settled_piece_append (h.opens.take _) b _

theorem utf8Size_le_of_character {b : UInt8} {xs : Bytes} {c : Char}
    (h : character b xs = .char c) : c.utf8Size - 1 ≤ xs.length := by
  have hlength := congrArg List.length (Utf8.drop_length_piece h)
  rw [List.length_append, String.length_utf8EncodeChar, List.length_drop,
    List.length_cons, List.length_take] at hlength
  omega

theorem nameLengthFrom_append (h : Sealed v) (xs : Bytes) :
    ∀ k ≤ xs.length, nameLengthFrom k (xs ++ v) = nameLengthFrom k xs := by
  induction xs with
  | nil =>
    intro k hk
    cases Nat.le_zero.1 hk
    cases v with
    | nil => rfl
    | cons b v =>
      have hb := sealed_cons.1 h
      simp [nameLengthFrom, hb.word, hb.ascii]
  | cons x xs ih =>
    intro k hk
    rw [List.cons_append]
    cases k with
    | succ k => rw [nameLengthFrom, nameLengthFrom, ih k (Nat.le_of_succ_le_succ hk)]
    | zero =>
      rw [nameLengthFrom, nameLengthFrom, ih 0 (Nat.zero_le _)]
      have hsettled := settled_character_append h x xs
      cases hc : character x xs with
      | char c =>
        rw [character_append hc]
        dsimp only
        rw [ih _ (utf8Size_le_of_character hc)]
      | invalid n cut =>
        rw [hc] at hsettled
        obtain ⟨cut', hc'⟩ := Utf8.Piece.exists_of_settled hsettled
        rw [hc']

theorem beyondAscii_append (h : Sealed v) (b : UInt8) (xs : Bytes) :
    beyondAscii b (xs ++ v) = beyondAscii b xs := by
  have hname : nameLength (b :: (xs ++ v)) = nameLength (b :: xs) :=
    nameLengthFrom_append h (b :: xs) 0 (Nat.zero_le _)
  have hsettled := settled_character_append h b xs
  unfold beyondAscii
  cases hc : character b xs with
  | char c =>
    rw [character_append hc]
    dsimp only
    rw [hname]
  | invalid n cut =>
    rw [hc] at hsettled
    obtain ⟨cut', hc'⟩ := Utf8.Piece.exists_of_settled hsettled
    rw [hc']

/-! ### Length -/

theorem numberLengthFrom_le (hex : Bool) (xs : Bytes) :
    ∀ point last, numberLengthFrom hex point last xs ≤ xs.length := by
  induction xs with
  | nil => intro point last; exact Nat.le_refl 0
  | cons x xs ih =>
    intro point last
    unfold numberLengthFrom
    split
    · exact Nat.succ_le_succ (ih _ _)
    split
    · exact Nat.succ_le_succ (ih _ _)
    split
    · exact Nat.succ_le_succ (ih _ _)
    · exact Nat.zero_le _

theorem nameLengthFrom_le (xs : Bytes) : ∀ k, nameLengthFrom k xs ≤ xs.length := by
  induction xs with
  | nil => intro k; cases k <;> exact Nat.le_refl 0
  | cons x xs ih =>
    intro k
    cases k with
    | succ k => exact Nat.succ_le_succ (ih k)
    | zero =>
      unfold nameLengthFrom
      split
      · exact Nat.succ_le_succ (ih 0)
      split
      · exact Nat.zero_le _
      cases character x xs with
      | invalid n cut => exact Nat.zero_le _
      | char c =>
        dsimp only
        split
        · exact Nat.succ_le_succ (ih _)
        · exact Nat.zero_le _

theorem literalLength_le (d xs : Bytes) : (literalLength d xs).1 ≤ xs.length := by
  fun_induction literalLength d xs with
  | case1 => exact Nat.le_refl 0
  | case2 => simp
  | case3 b hb x rest r ih => exact Nat.succ_le_succ (Nat.succ_le_succ ih)
  | case4 b rest hb hd => exact (List.isPrefixOf_iff_prefix.1 hd).length_le
  | case5 b rest hb hd r ih => exact Nat.succ_le_succ ih

theorem width_pos (style : StringStyle) : 0 < style.width := by
  unfold StringStyle.width
  split <;> decide

theorem width_openingStyle_le (quote : Quote) (xs : Bytes) :
    (openingStyle quote xs).width - 1 ≤ xs.length := by
  unfold StringStyle.width
  split
  · rename_i htriplet
    have hprefix : [quote.byte, quote.byte].isPrefixOf xs = true := htriplet
    exact (List.isPrefixOf_iff_prefix.1 hprefix).length_le
  · exact Nat.zero_le _

theorem literal_length_le (quote : Quote) (xs : Bytes) :
    (literal quote xs).length ≤ xs.length + 1 := by
  have hle := literalLength_le (openingStyle quote xs).delimiter
    (xs.drop ((openingStyle quote xs).width - 1))
  have hwidth := width_openingStyle_le quote xs
  rw [List.length_drop] at hle
  simp only [literal]
  omega

theorem blockLength_le (xs : Bytes) : (blockLength xs).1 ≤ xs.length := by
  induction xs with
  | nil => exact Nat.le_refl 0
  | cons x xs ih =>
    unfold blockLength
    split
    · rename_i hclosed
      simp only [Bool.and_eq_true, beq_iff_eq] at hclosed
      obtain ⟨rest, rfl⟩ := List.head?_eq_some_iff.1 hclosed.2
      exact Nat.succ_le_succ (Nat.succ_le_succ (Nat.zero_le _))
    · exact Nat.succ_le_succ ih

/-- A token does not reach beyond the text. -/
theorem length_le (b : UInt8) (rest : Bytes) : (first (b :: rest)).length ≤ rest.length + 1 := by
  simp only [first]
  unfold ofCons
  split
  · exact Nat.succ_le_succ (List.takeWhile_prefix _).length_le
  split
  · exact Nat.succ_le_succ (List.takeWhile_prefix _).length_le
  split
  · rename_i hblock
    simp only [Bool.and_eq_true, beq_iff_eq] at hblock
    obtain ⟨rest, rfl⟩ := List.head?_eq_some_iff.1 hblock.2
    exact Nat.succ_le_succ (Nat.succ_le_succ (blockLength_le rest))
  split
  · rename_i quote _
    exact literal_length_le quote rest
  split
  · exact Nat.succ_le_succ (numberLengthFrom_le _ _ _ _)
  split
  · exact nameLengthFrom_le (b :: rest) 0
  split
  · exact Nat.succ_le_succ (Nat.zero_le _)
  split
  · exact Nat.succ_le_succ (Nat.zero_le _)
  unfold beyondAscii
  cases hc : character b rest with
  | invalid n cut =>
    have hle := (Utf8.piece_invalid_le hc).2
    rw [List.length_take] at hle
    dsimp only
    omega
  | char c =>
    dsimp only
    split
    · exact nameLengthFrom_le (b :: rest) 0
    · have hsize := utf8Size_le_of_character hc
      dsimp only
      omega

/-! ### Literals -/

theorem isPrefixOf_append {d xs : Bytes} (h : d.length ≤ xs.length) (ys : Bytes) :
    d.isPrefixOf (xs ++ ys) = d.isPrefixOf xs := by
  rw [Bool.eq_iff_iff, List.isPrefixOf_iff_prefix, List.isPrefixOf_iff_prefix]
  constructor
  · intro hd
    exact List.prefix_of_prefix_length_le hd (List.prefix_append xs ys) h
  · intro hd
    exact hd.trans (List.prefix_append xs ys)

/-- A literal that is closed has room for its closing delimiter. -/
theorem length_le_of_literalLength {d : Bytes} (xs : Bytes) (h : (literalLength d xs).2 = true) :
    d.length ≤ xs.length := by
  fun_induction literalLength d xs with
  | case1 => cases h
  | case2 => cases h
  | case3 b hb x rest r ih =>
    have hle := ih h
    simp only [List.length_cons]
    omega
  | case4 b rest hb hd => exact (List.isPrefixOf_iff_prefix.1 hd).length_le
  | case5 b rest hb hd r ih =>
    have hle := ih h
    simp only [List.length_cons]
    omega

/-- A literal that is closed ends there, whatever comes after. -/
theorem literalLength_append {d : Bytes} (xs ys : Bytes) (h : (literalLength d xs).2 = true) :
    literalLength d (xs ++ ys) = literalLength d xs := by
  fun_induction literalLength d xs with
  | case1 => cases h
  | case2 => cases h
  | case3 b hb x rest r ih =>
    rw [List.cons_append, List.cons_append, literalLength, if_pos hb]
    dsimp only
    rw [ih h]
  | case4 b rest hb hd =>
    have hle := (List.isPrefixOf_iff_prefix.1 hd).length_le
    rw [List.cons_append, literalLength.eq_def]
    dsimp only
    rw [if_neg hb, ← List.cons_append, isPrefixOf_append hle, if_pos hd]
  | case5 b rest hb hd r ih =>
    have hle : d.length ≤ (b :: rest).length := by
      have hle := length_le_of_literalLength rest h
      simp only [List.length_cons]
      omega
    rw [List.cons_append, literalLength.eq_def]
    dsimp only
    rw [if_neg hb, ← List.cons_append, isPrefixOf_append hle, if_neg hd, ih h]

/-- A literal that is closed within the first part of a text is closed in that part alone. -/
theorem literalLength_of_append {d : Bytes} (hd : d ≠ []) (xs v : Bytes)
    (h : (literalLength d (xs ++ v)).2 = true)
    (hle : (literalLength d (xs ++ v)).1 ≤ xs.length) : (literalLength d xs).2 = true := by
  have hpos := List.length_pos_iff.2 hd
  fun_induction literalLength d xs with
  | case1 =>
    rw [List.nil_append, List.length_nil] at *
    unfold literalLength at h hle
    split at h
    · cases h
    split at h
    · split at h
      · cases h
      · simp_all
    split at h <;> simp_all
  | case2 b hb =>
    rw [List.cons_append, List.nil_append] at h hle
    unfold literalLength at h hle
    rw [if_pos hb] at h hle
    cases v with
    | nil => cases h
    | cons y v => simp at hle
  | case3 b hb x rest r ih =>
    rw [List.cons_append, List.cons_append, literalLength, if_pos hb] at h hle
    exact ih h (by simp only [List.length_cons] at hle; omega)
  | case4 b rest hb hprefix => rfl
  | case5 b rest hb hprefix r ih =>
    rw [List.cons_append, literalLength.eq_def] at h hle
    dsimp only at h hle
    rw [if_neg hb] at h hle
    split at h
    · rename_i hlong
      rw [if_pos hlong] at hle
      rw [← List.cons_append, isPrefixOf_append hle] at hlong
      exact absurd hlong hprefix
    · rename_i hlong
      rw [if_neg hlong] at hle
      exact ih h (by simp only [List.length_cons] at hle; omega)

/-- What opens a literal is seen before what follows. -/
theorem openingStyle_append (h : Sealed v) (quote : Quote) (xs : Bytes) :
    openingStyle quote (xs ++ v) = openingStyle quote xs := by
  have hprefix : [quote.byte, quote.byte].isPrefixOf (xs ++ v) =
      [quote.byte, quote.byte].isPrefixOf xs := by
    match xs, v with
    | xs, [] => rw [List.append_nil]
    | [], b :: v =>
      have hb := (sealed_cons.1 h).quote quote
      simp [List.isPrefixOf, Ne.symm hb]
    | [x], b :: v =>
      have hb := (sealed_cons.1 h).quote quote
      simp [List.isPrefixOf, Ne.symm hb]
    | x :: y :: xs, b :: v => exact isPrefixOf_append (by simp) _
  rw [openingStyle, hprefix]
  rfl

theorem delimiter_ne_nil (style : StringStyle) : style.delimiter ≠ [] := by
  rw [StringStyle.delimiter, Ne, List.replicate_eq_nil_iff]
  exact Nat.ne_of_gt (width_pos style)

/-- A literal that ends before what follows ends there whatever follows. -/
theorem literal_congr {v' : Bytes} (hv : Sealed v) (hv' : Sealed v') {quote : Quote} {xs : Bytes}
    (hclosed : (literal quote (xs ++ v)).error = none)
    (hle : (literal quote (xs ++ v)).length ≤ xs.length + 1) :
    literal quote (xs ++ v') = literal quote (xs ++ v) := by
  have hwidth := width_openingStyle_le quote xs
  have hpos := width_pos (openingStyle quote xs)
  simp only [literal, openingStyle_append hv, openingStyle_append hv',
    List.drop_append_of_le_length hwidth] at hclosed hle ⊢
  have hinner : (literalLength (openingStyle quote xs).delimiter
      (xs.drop ((openingStyle quote xs).width - 1) ++ v)).2 = true := by
    simpa using hclosed
  have halone := literalLength_of_append (delimiter_ne_nil _) _ v hinner
    (by rw [List.length_drop]; omega)
  rw [literalLength_append _ v' halone, literalLength_append _ v halone]

theorem error_literal (quote : Quote) (xs : Bytes) :
    (literal quote xs).error = none ∨ (literal quote xs).error = some .unterminatedString := by
  simp only [literal]
  split
  · exact .inl rfl
  · exact .inr rfl

/-! ### Comments -/

theorem blockLength_cons_cons (b c : UInt8) (rest : Bytes) :
    blockLength (b :: c :: rest) =
      if b = 0x2A ∧ c = 0x2F then (2, true)
      else ((blockLength (c :: rest)).1 + 1, (blockLength (c :: rest)).2) := by
  rw [blockLength]
  simp only [List.head?_cons, Bool.and_eq_true, beq_iff_eq, Option.some.injEq]

theorem two_le_of_blockLength {xs : Bytes} (h : (blockLength xs).2 = true) :
    2 ≤ (blockLength xs).1 := by
  induction xs with
  | nil => cases h
  | cons b rest ih =>
    unfold blockLength at h ⊢
    split
    · exact Nat.le_refl 2
    · rename_i hb
      rw [if_neg hb] at h
      exact Nat.le_succ_of_le (ih h)

/-- A comment that is closed ends there, whatever comes after. -/
theorem blockLength_append (xs ys : Bytes) (h : (blockLength xs).2 = true) :
    blockLength (xs ++ ys) = blockLength xs := by
  induction xs with
  | nil => cases h
  | cons b rest ih =>
    cases rest with
    | nil => simp [blockLength] at h
    | cons c rest =>
      rw [List.cons_append] at ih
      rw [blockLength_cons_cons] at h
      rw [List.cons_append, List.cons_append, blockLength_cons_cons, blockLength_cons_cons]
      split
      · rfl
      · rename_i hb
        rw [if_neg hb] at h
        rw [ih h]

/-- A comment that is closed within the first part of a text is closed in that part alone. -/
theorem blockLength_of_append (xs v : Bytes) (h : (blockLength (xs ++ v)).2 = true)
    (hle : (blockLength (xs ++ v)).1 ≤ xs.length) : (blockLength xs).2 = true := by
  induction xs with
  | nil =>
    have htwo := two_le_of_blockLength h
    rw [List.length_nil] at hle
    omega
  | cons b rest ih =>
    cases rest with
    | nil =>
      rw [List.cons_append, blockLength] at h hle
      simp only [List.nil_append, List.length_cons, List.length_nil] at h hle
      split at h
      · rename_i hb
        rw [if_pos hb] at hle
        simp at hle
      · rename_i hb
        rw [if_neg hb] at hle
        have htwo := two_le_of_blockLength h
        dsimp only at hle
        omega
    | cons c rest =>
      rw [List.cons_append, List.cons_append, blockLength_cons_cons] at h hle
      rw [List.cons_append] at ih
      rw [blockLength_cons_cons]
      split
      · rfl
      · rename_i hb
        rw [if_neg hb] at h hle
        exact ih h (Nat.le_of_succ_le_succ hle)

theorem error_blockComment (xs : Bytes) :
    (blockComment xs).error = none ∨ (blockComment xs).error = some .unterminatedComment := by
  simp only [blockComment]
  split
  · exact .inl rfl
  · exact .inr rfl

theorem blockComment_congr {v' xs : Bytes} (hclosed : (blockComment (xs ++ v)).error = none)
    (hle : (blockComment (xs ++ v)).length ≤ xs.length + 2) :
    blockComment (xs ++ v') = blockComment (xs ++ v) := by
  simp only [blockComment] at hclosed hle ⊢
  have hinner : (blockLength (xs ++ v)).2 = true := by simpa using hclosed
  have halone := blockLength_of_append xs v hinner (by omega)
  rw [blockLength_append _ v' halone, blockLength_append _ v halone]

/-! ### The first token -/

/-- Whether a fault is that nothing closes a token. -/
def Unclosed (error : Option LexError) : Prop :=
  error = some .unterminatedString ∨ error = some .unterminatedComment

theorem not_unclosed_none : ¬Unclosed none := by simp [Unclosed]

/-- A token that ends before what follows is read in the same way whatever follows.  Blanks and
comments to the end of the line could go on, and what nothing closes does. -/
theorem first_congr {v' xs : Bytes} (hv : Sealed v) (hv' : Sealed v') {b : UInt8}
    (hblank : isBlank b = false) (hline : (b == 0x2F && xs.head? == some 0x2F) = false)
    (hle : (first (b :: xs ++ v)).length ≤ xs.length + 1)
    (hopen : Unclosed (first (b :: xs ++ v)).error → v' = v) :
    first (b :: xs ++ v') = first (b :: xs ++ v) := by
  have hslash {y : Bytes} (hy : Sealed y) :
      ((xs ++ y).head? == some 0x2F) = (xs.head? == some 0x2F) :=
    head?_append hy (fun h => h.comment.1 rfl) xs
  have hstar {y : Bytes} (hy : Sealed y) :
      ((xs ++ y).head? == some 0x2A) = (xs.head? == some 0x2A) :=
    head?_append hy (fun h => h.comment.2 rfl) xs
  have hname {y : Bytes} (hy : Sealed y) : nameLength (b :: (xs ++ y)) = nameLength (b :: xs) :=
    nameLengthFrom_append hy (b :: xs) 0 (Nat.zero_le _)
  simp only [List.cons_append, first] at hle hopen ⊢
  unfold ofCons at hle hopen ⊢
  rw [hslash hv', hstar hv', hslash hv, hstar hv]
  rw [hslash hv, hstar hv] at hle hopen
  simp only [hblank, hline, Bool.false_eq_true, if_false] at hle hopen ⊢
  split
  · rename_i hblock
    rw [if_pos hblock] at hle hopen
    simp only [Bool.and_eq_true, beq_iff_eq] at hblock
    obtain ⟨rest, rfl⟩ := List.head?_eq_some_iff.1 hblock.2
    simp only [List.cons_append, List.tail_cons, List.length_cons] at hle hopen ⊢
    rcases error_blockComment (rest ++ v) with hclosed | hunclosed
    · exact blockComment_congr hclosed hle
    · rw [hopen (by simp [Unclosed, hunclosed])]
  rename_i hblock
  rw [if_neg hblock] at hle hopen
  cases hquote : Quote.ofByte? b with
  | some quote =>
    rw [hquote] at hle hopen
    dsimp only at hle hopen ⊢
    rcases error_literal quote (xs ++ v) with hclosed | hunclosed
    · exact literal_congr hv hv' hclosed hle
    · rw [hopen (by simp [Unclosed, hunclosed])]
  | none =>
    dsimp only
    rw [numberLength_append hv', numberLength_append hv, hname hv', hname hv,
      beyondAscii_append hv', beyondAscii_append hv]

/-- A string that is a token by itself, and neither trivia nor at fault, is a token before any
bounded text. -/
theorem first_append {rest : Bytes} (h : Bounded rest) {xs : Bytes} (hne : xs ≠ [])
    (hlength : (first xs).length = xs.length) (htrivia : (first xs).kind.isTrivia = false)
    (herror : (first xs).error = none) : first (xs ++ rest) = first xs := by
  obtain ⟨b, xs, rfl⟩ := List.exists_cons_of_ne_nil hne
  have hblank : isBlank b = false := by
    rw [Bool.eq_false_iff]
    intro hb
    simp only [first, ofCons, if_pos hb] at htrivia
    cases htrivia
  have hline : (b == 0x2F && xs.head? == some 0x2F) = false := by
    rw [Bool.eq_false_iff]
    intro hb
    simp only [first, ofCons, hblank, Bool.false_eq_true, if_false, if_pos hb] at htrivia
    cases htrivia
  have hcongr := @first_congr [] rest xs sealed_nil h.sealed b hblank hline
  rw [List.append_nil] at hcongr
  exact hcongr (Nat.le_of_eq hlength) (by simp [herror, not_unclosed_none])

end Scan

namespace Token

theorem allFrom_drop (bytes : Bytes) :
    ∀ pos k, k ≤ bytes.length → allFrom pos k bytes = allFrom (pos + k) 0 (bytes.drop k) := by
  induction bytes with
  | nil => intro pos k hk; cases Nat.le_zero.1 hk; rfl
  | cons b rest ih =>
    intro pos k hk
    cases k with
    | zero => rfl
    | succ k =>
      rw [allFrom, ih _ _ (Nat.le_of_succ_le_succ hk), List.drop_succ_cons]
      congr 1
      omega

/-- A string that is read as one token is the first token of a text that begins with it. -/
theorem allFrom_append {xs rest : Bytes} (hne : xs ≠ [])
    (hlength : (Scan.first (xs ++ rest)).length = xs.length) (pos : Nat) :
    allFrom pos 0 (xs ++ rest) =
      ⟨(Scan.first (xs ++ rest)).kind, pos, xs, (Scan.first (xs ++ rest)).style,
        (Scan.first (xs ++ rest)).error⟩ :: allFrom (pos + xs.length) 0 rest := by
  obtain ⟨b, xs, rfl⟩ := List.exists_cons_of_ne_nil hne
  have hhead : ofHead pos (b :: xs ++ rest) =
      ⟨(Scan.first (b :: xs ++ rest)).kind, pos, b :: xs, (Scan.first (b :: xs ++ rest)).style,
        (Scan.first (b :: xs ++ rest)).error⟩ := by
    rw [ofHead, Scan.place, hlength, List.take_left]
  rw [List.cons_append] at hhead ⊢
  rw [allFrom]
  rw [hhead, allFrom_drop _ _ _ (by simp [length])]
  simp [length, Nat.add_assoc, Nat.add_comm 1]

end Token

end Metadoc
