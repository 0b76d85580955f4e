import Metadoc.Proofs.Token.Maximal

/-!
# A token does not depend on what is around it

What is read at a position depends on neither what stands before it nor on what stands four bytes
behind the token.

* `Scan.first_of_append` : the first token of a text is still read when what follows it is cut off;
* `Scan.first_append_of_room` : it is still read when a text goes on that is at least four bytes
  longer than the token;
* `Token.readAt_append`, `Token.readAt_take`, `Token.all_bytes_readAt` and
  `Token.readAt_append_of_room` : the same at any position, and in front of any text;
* `Token.readAt_context` : all of this at once.
-/

namespace Metadoc

namespace Scan

open Ascii Utf8

variable {b : UInt8} {xs v : Bytes}

/-! ### Without what follows -/

theorem length_takeWhile_of_append {p : UInt8 → Bool}
    (h : ((xs ++ v).takeWhile p).length ≤ xs.length) :
    (xs.takeWhile p).length = ((xs ++ v).takeWhile p).length := by
  rw [List.takeWhile_append] at h ⊢
  split
  · rename_i hwhole
    rw [if_pos hwhole, List.length_append] at h
    rw [List.length_append, hwhole]
    omega
  · rfl

theorem character_of_append {c : Char} (h : character b (xs ++ v) = .char c)
    (hle : c.utf8Size - 1 ≤ xs.length) : character b xs = .char c := by
  have hfour := c.utf8Size_le_four
  unfold character at h ⊢
  rw [List.take_append] at h
  exact piece_of_append h (by rw [List.length_take, window]; omega)

theorem broken_of_append {n : Nat} {cut : Bool} (h : character b (xs ++ v) = .invalid n cut)
    (hle : n ≤ xs.length + 1) : ∃ cut', character b xs = .invalid n cut' := by
  unfold character at h ⊢
  have hwindow := (piece_invalid_le h).2
  rw [List.length_take, window] at hwindow
  rw [List.take_append] at h
  exact Piece.exists_of_settled
    (settled_of_invalid h (by rw [List.length_take, window]; omega))

theorem nameLengthFrom_of_append (xs : Bytes) :
    ∀ k, nameLengthFrom k (xs ++ v) ≤ xs.length →
      nameLengthFrom k xs = nameLengthFrom k (xs ++ v) := by
  induction xs with
  | nil =>
    intro k h
    rw [Nat.le_zero.1 h]
    cases k <;> rfl
  | cons x xs ih =>
    intro k h
    rw [List.cons_append] at h ⊢
    cases k with
    | succ k => rw [nameLengthFrom, nameLengthFrom, ih k (Nat.le_of_succ_le_succ h)]
    | zero =>
      by_cases hlong : nameLengthFrom 0 (x :: (xs ++ v)) = 0
      · -- A name in the first part would be one in the whole.
        rw [hlong]
        refine Nat.eq_zero_of_not_pos fun hpos => Nat.ne_of_gt ?_ hlong
        rcases nameLength_pos_iff.1 hpos with hword | ⟨hascii, c, hc, halnum⟩
        · exact nameLength_pos_of_isWord hword
        · exact nameLength_pos_of_char (character_append hc v) halnum hascii
      rcases nameLength_pos_iff.1 (Nat.pos_of_ne_zero hlong) with hword | ⟨hascii, c, hc, halnum⟩
      · rw [nameLengthFrom, if_pos hword] at h ⊢
        rw [nameLengthFrom, if_pos hword, ih 0 (Nat.le_of_succ_le_succ h)]
      · have hword := (classes_of_beyond hascii).1
        simp only [nameLengthFrom, hword, hascii, Bool.false_eq_true, if_false, hc, halnum,
          if_true] at h ⊢
        have hlength := nameLengthFrom_drop (xs ++ v) _ (utf8Size_le_of_character hc)
        have hle := Nat.le_of_succ_le_succ h
        rw [character_of_append hc (by omega)]
        dsimp only
        rw [if_pos halnum, ih _ hle]

/-! ### Numbers, byte by byte -/

/-- Whether a number goes on with the byte `b`, and if so, whether its point has come then.  `digit`
says that a digit is next. -/
def numberGoes (hex point : Bool) (last b : UInt8) (digit : Bool) : Option Bool :=
  if isWord b then some point
  else if b == 0x2E && !hex && !point && digit then some true
  else if (b == 0x2B || b == 0x2D) && !hex && (last == 0x65 || last == 0x45) && digit then
    some point
  else none

theorem numberLengthFrom_cons (hex point : Bool) (last b : UInt8) (rest : Bytes) :
    numberLengthFrom hex point last (b :: rest) =
      match numberGoes hex point last b (digitNext rest) with
      | some point => numberLengthFrom hex point b rest + 1
      | none => 0 := by
  rw [numberLengthFrom, numberGoes]
  split
  · rfl
  split
  · rfl
  split <;> rfl

theorem numberGoes_eq_none {hex point : Bool} {last b : UInt8} {digit digit' : Bool}
    (h : numberGoes hex point last b digit' = none) (hdigit : digit = true → digit' = true) :
    numberGoes hex point last b digit = none := by
  cases digit with
  | true => rwa [hdigit rfl] at h
  | false =>
    unfold numberGoes at h ⊢
    split at h
    · cases h
    · rename_i hword
      simp [hword]

theorem numberLengthFrom_pos {hex point : Bool} {last : UInt8} (h : digitNext xs = true) :
    0 < numberLengthFrom hex point last xs := by
  cases xs with
  | nil => cases h
  | cons x xs =>
    have hdigit : isDigit x = true := h
    rw [numberLengthFrom, if_pos (by rw [isWord, hdigit, Bool.or_true])]
    exact Nat.succ_pos _

theorem numberLengthFrom_of_append {hex : Bool} (xs : Bytes) :
    ∀ point last, numberLengthFrom hex point last (xs ++ v) ≤ xs.length →
      numberLengthFrom hex point last xs = numberLengthFrom hex point last (xs ++ v) := by
  induction xs with
  | nil =>
    intro point last h
    rw [Nat.le_zero.1 h]
    rfl
  | cons x xs ih =>
    intro point last h
    rw [List.cons_append, numberLengthFrom_cons] at h
    rw [List.cons_append, numberLengthFrom_cons, numberLengthFrom_cons]
    cases hgoes : numberGoes hex point last x (digitNext (xs ++ v)) with
    | none =>
      have hdigit : digitNext xs = true → digitNext (xs ++ v) = true := by
        cases xs with
        | nil => exact nofun
        | cons y ys => exact id
      rw [numberGoes_eq_none hgoes hdigit]
    | some point' =>
      rw [hgoes] at h
      have hle := Nat.le_of_succ_le_succ h
      -- A digit behind the first part would belong to the number.
      have hdigit : digitNext xs = digitNext (xs ++ v) := by
        cases xs with
        | cons y ys => rfl
        | nil =>
          cases hd : digitNext ([] ++ v) with
          | false => rfl
          | true => exact absurd hle (Nat.not_le_of_gt (numberLengthFrom_pos hd))
      rw [hdigit, hgoes]
      dsimp only
      rw [ih _ _ hle]

theorem numberLength_of_append (h : numberLength b (xs ++ v) ≤ xs.length + 1) :
    numberLength b xs = numberLength b (xs ++ v) := by
  have hle := Nat.le_of_succ_le_succ h
  cases xs with
  | cons x xs => exact congrArg (· + 1) (numberLengthFrom_of_append (x :: xs) _ _ hle)
  | nil =>
    -- Whether the number is hexadecimal makes no difference when nothing of it follows.
    exact congrArg (· + 1) (Nat.le_zero.1 hle).symm

/-! ### Literals and comments without what follows -/

theorem openingStyle_of_append {quote : Quote}
    (h : (openingStyle quote (xs ++ v)).width ≤ xs.length + 1) :
    openingStyle quote xs = openingStyle quote (xs ++ v) := by
  have hprefix : [quote.byte, quote.byte].isPrefixOf xs =
      [quote.byte, quote.byte].isPrefixOf (xs ++ v) := by
    by_cases htwo : 2 ≤ xs.length
    · exact (@isPrefixOf_append [quote.byte, quote.byte] xs htwo v).symm
    · -- Three quotes do not fit, so none are opened by either.
      have hwhole : [quote.byte, quote.byte].isPrefixOf (xs ++ v) = false := by
        rw [Bool.eq_false_iff]
        intro hp
        rw [openingStyle, StringStyle.width, if_pos hp] at h
        omega
      rw [hwhole, Bool.eq_false_iff]
      exact fun hp => htwo (List.isPrefixOf_iff_prefix.1 hp).length_le
  rw [openingStyle, hprefix]
  rfl

theorem literal_of_append {quote : Quote} (h : (literal quote (xs ++ v)).length ≤ xs.length + 1) :
    literal quote xs = literal quote (xs ++ v) := by
  by_cases hopen : Unclosed (literal quote (xs ++ v)).error
  · have hv : v = [] := by
      have hlength := length_of_unclosed_literal hopen
      rw [List.length_append] at hlength
      exact List.eq_nil_of_length_eq_zero (by omega)
    rw [hv, List.append_nil]
  · have hclosed := (error_literal quote (xs ++ v)).resolve_right fun he => hopen (.inl he)
    have hstyle : openingStyle quote xs = openingStyle quote (xs ++ v) :=
      openingStyle_of_append (Nat.le_trans (Nat.le_add_right _ _) h)
    have hwidth := width_openingStyle_le quote xs
    have hpos := width_pos (openingStyle quote xs)
    simp only [literal, ← hstyle, List.drop_append_of_le_length hwidth] at hclosed h ⊢
    have halone := literalLength_of_append (delimiter_ne_nil _) _ v
      (by simpa using hclosed) (by rw [List.length_drop]; omega)
    rw [literalLength_append _ v halone]

theorem blockComment_of_append (h : (blockComment (xs ++ v)).length ≤ xs.length + 2) :
    blockComment xs = blockComment (xs ++ v) := by
  by_cases hopen : Unclosed (blockComment (xs ++ v)).error
  · have hv : v = [] := by
      have hlength := length_of_unclosed_blockComment hopen
      rw [List.length_append] at hlength
      exact List.eq_nil_of_length_eq_zero (by omega)
    rw [hv, List.append_nil]
  · have hclosed := (error_blockComment (xs ++ v)).resolve_right fun he => hopen (.inr he)
    simp only [blockComment] at hclosed h ⊢
    have halone := blockLength_of_append xs v (by simpa using hclosed) (by omega)
    rw [blockLength_append xs v halone]

/-! ### The first token without what follows -/

theorem Bare.of_append (h : Bare b (xs ++ v)) : Bare b xs := by
  have hhead {c : UInt8} (hc : xs.head? = some c) : (xs ++ v).head? = some c := by
    rw [List.head?_append, hc]
    rfl
  exact ⟨h.blank, fun hs => h.line ⟨hs.1, hhead hs.2⟩, fun hs => h.block ⟨hs.1, hhead hs.2⟩,
    h.quote⟩

/-- What is read first and does not reach beyond a part of the text is read first of this part. -/
theorem Reads.of_append {scan : Scan} (h : Reads b (xs ++ v) scan)
    (hle : scan.length ≤ xs.length + 1) : Reads b xs scan := by
  cases h with
  | blanks blank =>
    rw [← length_takeWhile_of_append (Nat.le_of_succ_le_succ hle)]
    exact .blanks blank
  | line slash next =>
    have hrun := Nat.le_of_succ_le_succ hle
    have hxs : xs.head? = some 0x2F := by
      cases xs with
      | cons x xs => exact next
      | nil =>
        obtain ⟨v, rfl⟩ := List.head?_eq_some_iff.1 next
        exact absurd hrun (by simp [Bytes.lineFeed])
    rw [lineComment, ← length_takeWhile_of_append hrun]
    exact .line slash hxs
  | @block body slash star =>
    cases xs with
    | nil =>
      have htwo : 2 ≤ (blockComment body).length := Nat.le_add_left 2 _
      exact absurd hle (Nat.not_le_of_gt htwo)
    | cons x xs =>
      rw [List.cons_append, List.cons.injEq] at star
      obtain ⟨rfl, rfl⟩ := star
      rw [← blockComment_of_append hle]
      exact .block slash rfl
  | literal opens =>
    rw [← literal_of_append hle]
    exact .literal opens
  | number bare digit =>
    rw [← numberLength_of_append hle]
    exact .number bare.of_append digit
  | name bare digit pos =>
    have hname : nameLength (b :: xs) = nameLength (b :: (xs ++ v)) :=
      nameLengthFrom_of_append (b :: xs) 0 hle
    rw [← hname] at pos ⊢
    exact .name bare.of_append digit pos
  | mark bare word mark => exact .mark bare.of_append word mark
  | control bare word mark ascii => exact .control bare.of_append word mark ascii
  | sign bare beyond char alnum =>
    exact .sign bare.of_append beyond
      (character_of_append char (Nat.sub_le_of_le_add hle)) alnum
  | broken bare beyond char =>
    obtain ⟨cut, hc⟩ := broken_of_append char hle
    exact .broken bare.of_append beyond hc

/-- The first token of a text is still read when what follows it is cut off. -/
theorem first_of_append (h : (first (b :: (xs ++ v))).length ≤ xs.length + 1) :
    first (b :: xs) = first (b :: (xs ++ v)) :=
  ((reads_first b (xs ++ v)).of_append h).eq_first

/-! ### With four more bytes -/

theorem takeWhile_append_of_lt {p : UInt8 → Bool} (h : (xs.takeWhile p).length < xs.length)
    (v : Bytes) : (xs ++ v).takeWhile p = xs.takeWhile p := by
  rw [List.takeWhile_append, if_neg (Nat.ne_of_lt h)]

theorem character_append_of_room (h : 3 ≤ xs.length) (v : Bytes) :
    character b (xs ++ v) = character b xs := by
  have htake : (xs ++ v).take (window - 1) = xs.take (window - 1) :=
    List.take_append_of_le_length h
  rw [character, character, htake]

theorem nameLengthFrom_append_of_room (xs : Bytes) :
    ∀ k, nameLengthFrom k xs + 4 ≤ xs.length →
      nameLengthFrom k (xs ++ v) = nameLengthFrom k xs := by
  induction xs with
  | nil => intro k h; exact absurd h (Nat.not_succ_le_zero _)
  | cons x xs ih =>
    intro k h
    rw [List.length_cons] at h
    have hroom : 3 ≤ xs.length := by omega
    cases k with
    | succ k =>
      rw [nameLengthFrom] at h
      rw [List.cons_append, nameLengthFrom, nameLengthFrom, ih k (by omega)]
    | zero =>
      rw [List.cons_append, nameLengthFrom, nameLengthFrom, character_append_of_room hroom]
      rw [nameLengthFrom] at h
      split
      · rename_i hword
        rw [if_pos hword] at h
        rw [ih 0 (by omega)]
      rename_i hword
      split
      · rfl
      rename_i hascii
      rw [if_neg hword, if_neg hascii] at h
      cases hc : character x xs with
      | invalid n cut => rfl
      | char c =>
        rw [hc] at h
        dsimp only at h ⊢
        split
        · rename_i halnum
          rw [if_pos halnum] at h
          rw [ih _ (by omega)]
        · rfl

theorem digitNext_append_of_room (h : 0 < xs.length) (v : Bytes) :
    digitNext (xs ++ v) = digitNext xs := by
  rw [digitNext, digitNext, List.head?_append_of_ne_nil _ (List.length_pos_iff.1 h)]

theorem numberLengthFrom_append_of_room {hex : Bool} (xs : Bytes) :
    ∀ point last, numberLengthFrom hex point last xs + 4 ≤ xs.length →
      numberLengthFrom hex point last (xs ++ v) = numberLengthFrom hex point last xs := by
  induction xs with
  | nil => intro point last h; exact absurd h (Nat.not_succ_le_zero _)
  | cons x xs ih =>
    intro point last h
    rw [List.length_cons] at h
    rw [List.cons_append, numberLengthFrom_cons, numberLengthFrom_cons,
      digitNext_append_of_room (by omega)]
    rw [numberLengthFrom_cons] at h
    cases hgoes : numberGoes hex point last x (digitNext xs) with
    | none => rfl
    | some point' =>
      rw [hgoes] at h
      have hroom : numberLengthFrom hex point' x xs + 1 + 4 ≤ xs.length + 1 := h
      dsimp only
      rw [ih point' x (by omega)]

theorem numberLength_append_of_room (h : numberLength b xs + 4 ≤ xs.length + 1) :
    numberLength b (xs ++ v) = numberLength b xs := by
  have hne : xs ≠ [] := by
    rintro rfl
    exact absurd h (by simp)
  simp only [numberLength, List.head?_append_of_ne_nil _ hne] at h ⊢
  rw [numberLengthFrom_append_of_room xs _ _ (by omega)]

theorem literal_append_of_room {quote : Quote} (h : (literal quote xs).length + 4 ≤ xs.length + 1) :
    literal quote (xs ++ v) = literal quote xs := by
  have hstyle : openingStyle quote (xs ++ v) = openingStyle quote xs := by
    rw [openingStyle, openingStyle, isPrefixOf_append (by simp; omega)]
  have hclosed : (literal quote xs).error = none :=
    (error_literal quote xs).resolve_right fun he => by
      have hlength := length_of_unclosed_literal (.inl he)
      omega
  simp only [literal, hstyle, List.drop_append_of_le_length (width_openingStyle_le quote xs)]
    at hclosed ⊢
  rw [literalLength_append _ v (by simpa using hclosed)]

theorem blockComment_append_of_room (h : (blockComment xs).length + 4 ≤ xs.length + 2) :
    blockComment (xs ++ v) = blockComment xs := by
  have hclosed : (blockComment xs).error = none :=
    (error_blockComment xs).resolve_right fun he => by
      have hlength := length_of_unclosed_blockComment (.inr he)
      omega
  simp only [blockComment] at hclosed ⊢
  rw [blockLength_append xs v (by simpa using hclosed)]

theorem Bare.append (h : Bare b xs) (hne : xs ≠ []) (v : Bytes) : Bare b (xs ++ v) := by
  have hhead : (xs ++ v).head? = xs.head? := List.head?_append_of_ne_nil xs hne
  exact ⟨h.blank, by rw [hhead]; exact h.line, by rw [hhead]; exact h.block, h.quote⟩

/-- What is read first of a text that goes on far enough is still read when more is added. -/
theorem Reads.append_of_room {scan : Scan} (h : Reads b xs scan)
    (hroom : scan.length + 4 ≤ xs.length + 1) (v : Bytes) : Reads b (xs ++ v) scan := by
  have hne : xs ≠ [] := by
    rintro rfl
    exact absurd hroom (by simp)
  have hthree : 3 ≤ xs.length := by omega
  cases h with
  | blanks blank =>
    rw [← takeWhile_append_of_lt (by dsimp only at hroom; omega) v]
    exact .blanks blank
  | line slash next =>
    have hrun : lineComment xs = lineComment (xs ++ v) := by
      rw [lineComment, lineComment,
        takeWhile_append_of_lt (by simp only [lineComment] at hroom; omega) v]
    rw [hrun]
    exact .line slash (by rw [List.head?_append_of_ne_nil _ hne, next])
  | @block body slash star =>
    subst star
    rw [← blockComment_append_of_room (v := v) hroom]
    exact .block slash rfl
  | literal opens =>
    rw [← literal_append_of_room (v := v) hroom]
    exact .literal opens
  | number bare digit =>
    rw [← numberLength_append_of_room (v := v) hroom]
    exact .number (bare.append hne v) digit
  | name bare digit pos =>
    have hname : nameLength (b :: (xs ++ v)) = nameLength (b :: xs) :=
      nameLengthFrom_append_of_room (b :: xs) 0 hroom
    rw [← hname] at pos ⊢
    exact .name (bare.append hne v) digit pos
  | mark bare word mark => exact .mark (bare.append hne v) word mark
  | control bare word mark ascii => exact .control (bare.append hne v) word mark ascii
  | sign bare beyond char alnum =>
    exact .sign (bare.append hne v) beyond ((character_append_of_room hthree v).trans char) alnum
  | broken bare beyond char =>
    exact .broken (bare.append hne v) beyond ((character_append_of_room hthree v).trans char)

/-- The first token is still read when a text goes on that is four bytes longer at least. -/
theorem first_append_of_room (h : (first (b :: xs)).length + 4 ≤ xs.length + 1) (v : Bytes) :
    first (b :: (xs ++ v)) = first (b :: xs) :=
  ((reads_first b xs).append_of_room h v).eq_first

end Scan

namespace Token

variable {text : Bytes} {pos : Nat}

/-! ### At any position -/

theorem readAt_eq_ofHead (h : pos ≤ text.length) :
    readAt text pos = ofHead pos (text.drop pos) := by
  rw [readAt, Nat.min_eq_left h]

/-- A text in front moves the token. -/
theorem readAt_append (h : pos ≤ text.length) (before : Bytes) :
    readAt (before ++ text) (before.length + pos) = (readAt text pos).shift before.length := by
  rw [readAt_eq_ofHead h, readAt_eq_ofHead (by rw [List.length_append]; omega),
    List.drop_length_add_append, Nat.add_comm]
  rfl

theorem ofHead_append {xs v : Bytes} (hfirst : Scan.first (xs ++ v) = Scan.first xs)
    (hle : (Scan.first xs).length ≤ xs.length) (pos : Nat) :
    ofHead pos (xs ++ v) = ofHead pos xs := by
  rw [ofHead, ofHead, hfirst, Scan.place, Scan.place, List.take_append_of_le_length hle]

theorem stop_ofHead (pos : Nat) (b : UInt8) (rest : Bytes) :
    (ofHead pos (b :: rest)).stop = pos + (Scan.first (b :: rest)).length := by
  rw [stop, length_ofHead]
  rfl

/-- A text may be cut off anywhere behind the token. -/
theorem readAt_take {n : Nat} (h : pos < text.length) (hstop : (readAt text pos).stop ≤ n)
    (hn : n ≤ text.length) : readAt (text.take n) pos = readAt text pos := by
  obtain ⟨b, rest, hdrop, hread⟩ := exists_readAt h
  have hpos := Scan.length_pos b rest
  have hlength := congrArg List.length hdrop
  rw [List.length_drop, List.length_cons] at hlength
  rw [hread, stop_ofHead] at hstop
  obtain ⟨m, rfl⟩ : ∃ m, n = pos + (m + 1) := ⟨n - pos - 1, by omega⟩
  -- What stands at the position is cut behind `m` more bytes.
  obtain ⟨xs, v, rfl, hxs⟩ : ∃ xs v, rest = xs ++ v ∧ xs.length = m :=
    ⟨rest.take m, rest.drop m, (List.take_append_drop m rest).symm, by
      rw [List.length_take]
      omega⟩
  have hcut : (text.take (pos + (m + 1))).drop pos = b :: xs := by
    rw [List.drop_take, hdrop, Nat.add_sub_cancel_left, List.take_succ_cons, ← hxs, List.take_left]
  have hle : (Scan.first (b :: (xs ++ v))).length ≤ xs.length + 1 := by omega
  have hfirst := Scan.first_of_append hle
  rw [readAt_eq_ofHead (by rw [List.length_take]; omega), hcut, hread]
  exact (ofHead_append hfirst.symm (hfirst ▸ hle) pos).symm

theorem allFrom_bytes {t : Token} {ts : List Token} (h : allFrom pos 0 text = t :: ts) (n : Nat) :
    allFrom n 0 t.bytes = [{ t with start := n }] := by
  obtain ⟨hne, -, rest, rfl, hfirst, -⟩ := allFrom_eq_cons h
  obtain ⟨b, xs, hb⟩ := List.exists_cons_of_ne_nil hne
  have halone : Scan.first (t.bytes ++ []) = ⟨t.kind, t.length, t.style, t.error⟩ := by
    rw [List.append_nil, ← hfirst, hb]
    refine Scan.first_of_append ?_
    rw [← List.cons_append, ← hb, hfirst]
    exact Nat.le_of_eq (congrArg List.length hb)
  have happend := allFrom_append hne (congrArg Scan.length halone) n
  rwa [halone, List.append_nil] at happend

theorem all_bytes_readAt (h : pos < text.length) :
    all (readAt text pos).bytes 0 = [{ readAt text pos with start := 0 }] := by
  have hall := all_eq_cons h
  rw [all] at hall
  rw [all, Nat.zero_min, List.drop_zero]
  exact allFrom_bytes hall 0

/-- A text that goes on far enough behind the token may go on further. -/
theorem readAt_append_of_room (h : pos < text.length)
    (hroom : (readAt text pos).stop + 4 ≤ text.length) (after : Bytes) :
    readAt (text ++ after) pos = readAt text pos := by
  obtain ⟨b, rest, hdrop, hread⟩ := exists_readAt h
  have hlength := congrArg List.length hdrop
  rw [List.length_drop, List.length_cons] at hlength
  rw [hread, stop_ofHead] at hroom
  have hlong : (Scan.first (b :: rest)).length + 4 ≤ rest.length + 1 := by omega
  have hfirst := Scan.first_append_of_room hlong after
  rw [readAt_eq_ofHead (by rw [List.length_append]; omega),
    List.drop_append_of_le_length (Nat.le_of_lt h), hdrop, hread]
  exact ofHead_append hfirst (Scan.length_le b rest) pos

/-- Neither what stands before a token makes a difference, nor where the text ends behind it, nor
what stands four bytes behind it. -/
theorem readAt_context (h : pos < text.length) :
    (∀ before : Bytes,
      readAt (before ++ text) (before.length + pos) = (readAt text pos).shift before.length) ∧
    (∀ n, (readAt text pos).stop ≤ n → n ≤ text.length →
      readAt (text.take n) pos = readAt text pos) ∧
    all (readAt text pos).bytes 0 = [{ readAt text pos with start := 0 }] ∧
    ((readAt text pos).stop + 4 ≤ text.length →
      ∀ after, readAt (text ++ after) pos = readAt text pos) :=
  ⟨readAt_append (Nat.le_of_lt h), fun _ => readAt_take h, all_bytes_readAt h,
    readAt_append_of_room h⟩

/-- The number of `1.5 + x` is read as well behind a letter, by itself and before any other text. -/
theorem readAt_context_number :
    let text : Bytes := [0x31, 0x2E, 0x35, 0x20, 0x2B, 0x20, 0x78]
    let number : Token := ⟨.numeric, 0, [0x31, 0x2E, 0x35], none, none⟩
    0 < text.length ∧ readAt text 0 = number ∧ readAt (0x61 :: text) 1 = number.shift 1 ∧
      readAt (text.take 3) 0 = number ∧ all number.bytes 0 = [number] ∧
        ∀ after, readAt (text ++ after) 0 = number := by
  intro text number
  have hread : readAt text 0 = number := by decide
  obtain ⟨hbefore, htake, halone, hafter⟩ := @readAt_context text 0 (by decide)
  rw [hread] at hbefore htake halone hafter
  exact ⟨by decide, hread, hbefore [0x61], htake 3 (by decide) (by decide), halone,
    hafter (by decide)⟩

end Token

end Metadoc
