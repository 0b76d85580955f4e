import Metadoc.Text.Utf8

/-!
# What the pieces of a string are

* `Utf8.encodeChar_of_piece` : a character that is read is written with the bytes it was read from;
* `Utf8.encode_chars_of_isValid` : a well-formed string is its characters, written one after the
  other;
* `Utf8.pieces_append` : a well-formed string is cut as if nothing came after it;
* `Utf8.inChar_of_isValid` : every byte of a well-formed string is part of a character.
-/

namespace Metadoc

namespace Utf8

/-! ### Characters by their numbers -/

theorem toNat_ofNat {n : Nat} (h : n.isValidChar) : (Char.ofNat n).val.toNat = n := by
  have haux : Char.ofNat n = Char.ofNatAux n h := dif_pos h
  rw [haux]
  rfl

variable {b t u v : UInt8}

theorem ofNat_eq {n : Nat} (h : n = b.toNat) : UInt8.ofNat n = b := by
  rw [h, UInt8.ofNat_toNat]

theorem encodeChar_scalar_one (hb : b.toNat < 0x80) :
    String.utf8EncodeChar (Char.ofNat b.toNat) = [b] := by
  unfold String.utf8EncodeChar
  simp only [toNat_ofNat (.inl (by omega : b.toNat < 0xD800))]
  rw [if_pos (by omega), UInt8.ofNat_toNat]

theorem encodeChar_scalar_two (hb : 0xC2 ≤ b.toNat ∧ b.toNat ≤ 0xDF)
    (ht : 0x80 ≤ t.toNat ∧ t.toNat ≤ 0xBF) :
    String.utf8EncodeChar (Char.ofNat (scalar b [t])) = [b, t] := by
  have hn : scalar b [t] = b.toNat % 32 * 64 + t.toNat % 64 := rfl
  unfold String.utf8EncodeChar
  simp only [hn, toNat_ofNat (.inl (by omega : b.toNat % 32 * 64 + t.toNat % 64 < 0xD800))]
  rw [if_neg (by omega), if_pos (by omega), ofNat_eq (by omega : _ = b.toNat),
    ofNat_eq (by omega : _ = t.toNat)]

theorem encodeChar_scalar_three (hb : 0xE0 ≤ b.toNat ∧ b.toNat ≤ 0xEF)
    (ht : 0x80 ≤ t.toNat ∧ t.toNat ≤ 0xBF) (hu : 0x80 ≤ u.toNat ∧ u.toNat ≤ 0xBF)
    (hlong : b.toNat = 0xE0 → 0xA0 ≤ t.toNat) (hsurrogate : b.toNat = 0xED → t.toNat ≤ 0x9F) :
    String.utf8EncodeChar (Char.ofNat (scalar b [t, u])) = [b, t, u] := by
  have hn : scalar b [t, u] = (b.toNat % 16 * 64 + t.toNat % 64) * 64 + u.toNat % 64 := rfl
  have hvalid : ((b.toNat % 16 * 64 + t.toNat % 64) * 64 + u.toNat % 64).isValidChar := by
    unfold Nat.isValidChar
    omega
  unfold String.utf8EncodeChar
  simp only [hn, toNat_ofNat hvalid]
  rw [if_neg (by omega), if_neg (by omega), if_pos (by omega), ofNat_eq (by omega : _ = b.toNat),
    ofNat_eq (by omega : _ = t.toNat), ofNat_eq (by omega : _ = u.toNat)]

theorem encodeChar_scalar_four (hb : 0xF0 ≤ b.toNat ∧ b.toNat ≤ 0xF4)
    (ht : 0x80 ≤ t.toNat ∧ t.toNat ≤ 0xBF) (hu : 0x80 ≤ u.toNat ∧ u.toNat ≤ 0xBF)
    (hv : 0x80 ≤ v.toNat ∧ v.toNat ≤ 0xBF) (hlong : b.toNat = 0xF0 → 0x90 ≤ t.toNat)
    (hlarge : b.toNat = 0xF4 → t.toNat ≤ 0x8F) :
    String.utf8EncodeChar (Char.ofNat (scalar b [t, u, v])) = [b, t, u, v] := by
  have hn : scalar b [t, u, v] =
      ((b.toNat % 8 * 64 + t.toNat % 64) * 64 + u.toNat % 64) * 64 + v.toNat % 64 := rfl
  have hvalid : (((b.toNat % 8 * 64 + t.toNat % 64) * 64 + u.toNat % 64) * 64 +
      v.toNat % 64).isValidChar := by
    unfold Nat.isValidChar
    omega
  unfold String.utf8EncodeChar
  simp only [hn, toNat_ofNat hvalid]
  rw [if_neg (by omega), if_neg (by omega), if_neg (by omega), ofNat_eq (by omega : _ = b.toNat),
    ofNat_eq (by omega : _ = t.toNat), ofNat_eq (by omega : _ = u.toNat),
    ofNat_eq (by omega : _ = v.toNat)]

/-! ### Reading a character -/

theorem exists_of_length_tails {n : Nat} {low high : UInt8} {rest : Bytes}
    (h : (tails (n + 1) low high rest).length = n + 1) :
    ∃ t rest', rest = t :: rest' ∧ (low.toNat ≤ t.toNat ∧ t.toNat ≤ high.toNat) ∧
      tails (n + 1) low high rest = t :: tails n 0x80 0xBF rest' ∧
      (tails n 0x80 0xBF rest').length = n := by
  cases rest with
  | nil => simp [tails] at h
  | cons t rest' =>
    unfold tails at h
    split at h
    · rename_i ht
      exact ⟨t, rest', rfl, ht, by rw [tails, if_pos ht], by simpa using h⟩
    · simp at h

/-- The bytes that a lead byte may be, for each number of continuation bytes, and the first of
these bytes that it allows. -/
theorem lead?_cases {lead : Lead} (h : lead? b = some lead) :
    (lead = ⟨1, 0x80, 0xBF⟩ ∧ 0xC2 ≤ b.toNat ∧ b.toNat ≤ 0xDF) ∨
    (lead.tails = 2 ∧ (0xE0 ≤ b.toNat ∧ b.toNat ≤ 0xEF) ∧
      0x80 ≤ lead.low.toNat ∧ lead.high.toNat ≤ 0xBF ∧
      (b.toNat = 0xE0 → 0xA0 ≤ lead.low.toNat) ∧ (b.toNat = 0xED → lead.high.toNat ≤ 0x9F)) ∨
    (lead.tails = 3 ∧ (0xF0 ≤ b.toNat ∧ b.toNat ≤ 0xF4) ∧
      0x80 ≤ lead.low.toNat ∧ lead.high.toNat ≤ 0xBF ∧
      (b.toNat = 0xF0 → 0x90 ≤ lead.low.toNat) ∧ (b.toNat = 0xF4 → lead.high.toNat ≤ 0x8F)) := by
  simp only [lead?, UInt8.le_iff_toNat_le, ← UInt8.toNat_inj] at h
  simp only [UInt8.reduceToNat] at h
  repeat' split at h
  all_goals cases h
  · exact .inl ⟨rfl, by omega⟩
  all_goals simp
  all_goals omega

theorem piece_length_pos (b : UInt8) (rest : Bytes) : 0 < (piece b rest).length := by
  unfold piece
  split
  · exact Char.utf8Size_pos _
  · split
    · exact Nat.one_pos
    · dsimp only
      split
      · exact Char.utf8Size_pos _
      · exact Nat.add_pos_left Nat.one_pos _

/-- A character that is read is written with the bytes it was read from. -/
theorem encodeChar_of_piece {rest : Bytes} {c : Char} (h : piece b rest = .char c) :
    ∃ rest', b :: rest = String.utf8EncodeChar c ++ rest' := by
  unfold piece at h
  split at h
  · rename_i hb
    cases h
    exact ⟨rest, by rw [encodeChar_scalar_one hb]; rfl⟩
  · split at h
    · cases h
    · rename_i lead hlead
      obtain ⟨n, low, high⟩ := lead
      dsimp only at h
      split at h
      · rename_i hlength
        cases h
        rcases lead?_cases hlead with ⟨heq, hb⟩ | ⟨heq, hb, hlow, hhigh, hlong, hsurrogate⟩ |
          ⟨heq, hb, hlow, hhigh, hlong, hlarge⟩
        · cases heq
          obtain ⟨t, rest', rfl, ht, hts, -⟩ := exists_of_length_tails hlength
          refine ⟨rest', ?_⟩
          rw [hts, tails, encodeChar_scalar_two hb ht]
          rfl
        · cases heq
          obtain ⟨t, _, rfl, ht, hts, hlength⟩ := exists_of_length_tails hlength
          obtain ⟨u, rest', rfl, hu, hus, -⟩ := exists_of_length_tails hlength
          refine ⟨rest', ?_⟩
          dsimp only at hlow hhigh hlong hsurrogate
          rw [hts, hus, tails, encodeChar_scalar_three hb (by omega) hu (by omega) (by omega)]
          rfl
        · cases heq
          obtain ⟨t, _, rfl, ht, hts, hlength⟩ := exists_of_length_tails hlength
          obtain ⟨u, _, rfl, hu, hus, hlength⟩ := exists_of_length_tails hlength
          obtain ⟨v, rest', rfl, hv, hvs, -⟩ := exists_of_length_tails hlength
          refine ⟨rest', ?_⟩
          dsimp only at hlow hhigh hlong hlarge
          rw [hts, hus, hvs, tails,
            encodeChar_scalar_four hb (by omega) hu hv (by omega) (by omega)]
          rfl
      · cases h

/-! ### Well-formed strings -/

theorem drop_length_piece {rest : Bytes} {c : Char} (h : piece b rest = .char c) :
    b :: rest = String.utf8EncodeChar c ++ rest.drop (c.utf8Size - 1) := by
  obtain ⟨rest', hrest⟩ := encodeChar_of_piece h
  have hdrop : (b :: rest).drop c.utf8Size = rest' := by
    rw [hrest, ← String.length_utf8EncodeChar, List.drop_left]
  have hsize : c.utf8Size = c.utf8Size - 1 + 1 := by
    have := c.utf8Size_pos
    omega
  rw [hsize, List.drop_succ_cons] at hdrop
  rw [hdrop, hrest]

theorem piecesFrom_eq_drop (k : Nat) (bytes : Bytes) :
    piecesFrom k bytes = piecesFrom 0 (bytes.drop k) := by
  induction bytes generalizing k with
  | nil => cases k <;> rfl
  | cons b rest ih =>
    cases k with
    | zero => rfl
    | succ k => exact ih k

theorem pieces_cons_of_char {rest : Bytes} {c : Char} (h : piece b rest = .char c) :
    pieces (b :: rest) = .char c :: pieces (rest.drop (c.utf8Size - 1)) := by
  rw [pieces, piecesFrom, h, piecesFrom_eq_drop]
  rfl

/-- What holds of the empty string, and of a string when it holds of what comes after its first
character, holds of every well-formed string. -/
theorem isValid_induction {P : Bytes → Prop} (nil : P [])
    (char : ∀ b rest c, piece b rest = .char c → P (rest.drop (c.utf8Size - 1)) → P (b :: rest))
    {bytes : Bytes} (h : isValid bytes = true) : P bytes := by
  -- A character may be several bytes long, so the induction is on a bound for the length.
  obtain ⟨n, hn⟩ : ∃ n, bytes.length ≤ n := ⟨_, Nat.le_refl _⟩
  induction n generalizing bytes with
  | zero => rwa [List.length_eq_zero_iff.1 (Nat.le_zero.1 hn)]
  | succ n ih =>
    cases bytes with
    | nil => exact nil
    | cons b rest =>
      cases hp : piece b rest with
      | invalid k cut => simp [isValid, pieces, piecesFrom, hp, Piece.isChar] at h
      | char c =>
        have hrest : isValid (rest.drop (c.utf8Size - 1)) = true := by
          simpa [isValid, pieces_cons_of_char hp, Piece.isChar] using h
        refine char b rest c hp (ih hrest ?_)
        rw [List.length_drop]
        simp only [List.length_cons] at hn
        omega

/-- A well-formed string is its characters, written one after the other. -/
theorem encode_chars_of_isValid {bytes : Bytes} (h : isValid bytes = true) :
    ∃ cs, pieces bytes = cs.map .char ∧ encode cs = bytes := by
  refine isValid_induction (P := fun bytes => ∃ cs, pieces bytes = cs.map .char ∧
    encode cs = bytes) ⟨[], rfl, rfl⟩ (fun b rest c hp ih => ?_) h
  obtain ⟨cs, hcs, hencode⟩ := ih
  refine ⟨c :: cs, by rw [pieces_cons_of_char hp, hcs]; rfl, ?_⟩
  rw [drop_length_piece hp, ← hencode]
  rfl

theorem shown_of_isValid {bytes : Bytes} (h : isValid bytes = true) : shown bytes = bytes := by
  obtain ⟨cs, hcs, hencode⟩ := encode_chars_of_isValid h
  rw [shown, hcs, List.flatMap_map]
  exact hencode

theorem isTail_of_isChar {rest : Bytes} (h : (piece b rest).isChar = true) : isTail b = false := by
  rw [Bool.eq_false_iff]
  intro htail
  simp only [isTail, Bool.and_eq_true, decide_eq_true_eq, UInt8.le_iff_toNat_le] at htail
  simp only [UInt8.reduceToNat] at htail
  unfold piece at h
  split at h
  · rename_i hlt
    simp only [UInt8.lt_iff_toNat_lt, UInt8.reduceToNat] at hlt
    omega
  · split at h
    · cases h
    · rename_i hlead
      rcases lead?_cases hlead with ⟨-, hb⟩ | ⟨-, hb, -⟩ | ⟨-, hb, -⟩ <;> omega

theorem isTail_of_isValid {bytes : Bytes} (h : isValid (b :: bytes) = true) : isTail b = false := by
  simp only [isValid, pieces, piecesFrom, List.all_cons, Bool.and_eq_true] at h
  exact isTail_of_isChar h.1

/-! ### What comes after a string -/

theorem tails_append {n : Nat} {low high : UInt8} {xs : Bytes}
    (h : (tails n low high xs).length = n) (ys : Bytes) :
    tails n low high (xs ++ ys) = tails n low high xs := by
  induction n generalizing low high xs with
  | zero => simp [tails]
  | succ n ih =>
    obtain ⟨t, rest, rfl, hbounds, hts, hlength⟩ := exists_of_length_tails h
    have ht : low ≤ t ∧ t ≤ high := hbounds
    rw [hts, List.cons_append, tails, if_pos ht, ih hlength]

theorem piece_append {xs : Bytes} {c : Char} (h : piece b xs = .char c) (ys : Bytes) :
    piece b (xs ++ ys) = .char c := by
  unfold piece at h ⊢
  split
  · rename_i hb
    rwa [if_pos hb] at h
  · rename_i hb
    rw [if_neg hb] at h
    split at h
    · cases h
    · dsimp only at h ⊢
      split at h
      · rename_i hlength
        rw [tails_append hlength, if_pos hlength]
        exact h
      · cases h

/-- A well-formed string is cut as if nothing came after it. -/
theorem pieces_append {xs : Bytes} (h : isValid xs = true) (ys : Bytes) :
    pieces (xs ++ ys) = pieces xs ++ pieces ys := by
  refine isValid_induction (P := fun xs => pieces (xs ++ ys) = pieces xs ++ pieces ys) rfl
    (fun b rest c hp ih => ?_) h
  have hsize : c.utf8Size - 1 ≤ rest.length := by
    have hlength := congrArg List.length (drop_length_piece hp)
    rw [List.length_append, String.length_utf8EncodeChar, List.length_drop,
      List.length_cons] at hlength
    omega
  rw [List.cons_append, pieces_cons_of_char (piece_append hp ys), pieces_cons_of_char hp,
    List.drop_append_of_le_length hsize, ih]
  rfl

theorem isValid_append {xs ys : Bytes} (hx : isValid xs = true) (hy : isValid ys = true) :
    isValid (xs ++ ys) = true := by
  unfold isValid at hx hy ⊢
  rw [pieces_append hx, List.all_append, hx, hy]
  rfl

theorem isValid_of_ascii {bytes : Bytes} (h : ∀ b ∈ bytes, b < 0x80) : isValid bytes = true := by
  induction bytes with
  | nil => rfl
  | cons b rest ih =>
    have hb := h b List.mem_cons_self
    have hp : piece b rest = .char (Char.ofNat b.toNat) := if_pos hb
    have hsize : (Char.ofNat b.toNat).utf8Size = 1 := by
      rw [← String.length_utf8EncodeChar, encodeChar_scalar_one hb]
      rfl
    have hrest := ih fun x hx => h x (List.mem_cons_of_mem b hx)
    simpa [isValid, pieces_cons_of_char hp, hsize, Piece.isChar] using hrest

theorem all_isChar_of_firstInvalidFrom {ps : List Piece} :
    ∀ {pos : Nat}, firstInvalidFrom pos ps = none → ps.all Piece.isChar = true := by
  induction ps with
  | nil => intro pos _; rfl
  | cons p ps ih =>
    intro pos h
    cases p with
    | char c => simpa [Piece.isChar] using ih h
    | invalid n cut => cases h

theorem firstInvalidFrom_of_all_isChar {ps : List Piece} (h : ps.all Piece.isChar = true) :
    ∀ pos : Nat, firstInvalidFrom pos ps = none := by
  induction ps with
  | nil => intro pos; rfl
  | cons p ps ih =>
    intro pos
    rw [List.all_cons, Bool.and_eq_true] at h
    cases p with
    | char c => exact ih h.2 _
    | invalid n cut => cases h.1

theorem firstInvalid?_of_isValid {bytes : Bytes} (h : isValid bytes = true) :
    firstInvalid? bytes = none := firstInvalidFrom_of_all_isChar h 0

theorem isValid_of_firstInvalid? {bytes : Bytes} (h : firstInvalid? bytes = none) :
    isValid bytes = true := all_isChar_of_firstInvalidFrom h

theorem tails_length_le (n : Nat) (low high : UInt8) (rest : Bytes) :
    (tails n low high rest).length ≤ rest.length := by
  induction rest generalizing n low high with
  | nil => cases n <;> exact Nat.le_refl 0
  | cons t rest ih =>
    cases n with
    | zero => exact Nat.zero_le _
    | succ n =>
      unfold tails
      split
      · exact Nat.succ_le_succ (ih n 0x80 0xBF)
      · exact Nat.zero_le _

theorem piece_invalid_le {rest : Bytes} {n : Nat} {cut : Bool} (h : piece b rest = .invalid n cut) :
    1 ≤ n ∧ n ≤ rest.length + 1 := by
  unfold piece at h
  split at h
  · cases h
  · split at h
    · cases h
      exact ⟨Nat.le_refl 1, by omega⟩
    · rename_i lead _
      have hle := tails_length_le lead.tails lead.low lead.high rest
      dsimp only at h
      split at h
      · cases h
      · cases h
        exact ⟨by omega, by omega⟩

theorem firstInvalidFrom_le {bytes : Bytes} {p n : Nat} :
    ∀ {pos k : Nat}, firstInvalidFrom (pos + k) (piecesFrom k bytes) = some (p, n) →
      p + n ≤ pos + bytes.length := by
  induction bytes with
  | nil => intro pos k h; cases k <;> cases h
  | cons b rest ih =>
    intro pos k h
    have hlen : pos + (b :: rest).length = pos + 1 + rest.length := by
      rw [List.length_cons]
      omega
    rw [hlen]
    cases k with
    | succ k =>
      refine ih (k := k) ?_
      rwa [Nat.add_assoc, Nat.add_comm 1]
    | zero =>
      rw [piecesFrom] at h
      cases hp : piece b rest with
      | char c =>
        have hpos := c.utf8Size_pos
        refine ih (k := c.utf8Size - 1) ?_
        rw [hp] at h
        rwa [Nat.add_assoc, Nat.add_sub_cancel' hpos]
      | invalid m cut =>
        have hle := piece_invalid_le hp
        rw [hp] at h
        cases h
        split <;> omega

theorem firstInvalid?_le {bytes : Bytes} {p n : Nat} (h : firstInvalid? bytes = some (p, n)) :
    p + n ≤ bytes.length := by
  simpa using @firstInvalidFrom_le bytes p n 0 0 h

/-- Whether the byte at a position of a text is part of a character: the text holds the UTF-8 form
of some character there. -/
def InChar (text : Bytes) (pos : Nat) : Prop :=
  ∃ before c after, text = before ++ String.utf8EncodeChar c ++ after ∧
    before.length ≤ pos ∧ pos < before.length + c.utf8Size

theorem inChar_encode {cs : List Char} :
    ∀ {pos : Nat}, pos < (encode cs).length → InChar (encode cs) pos := by
  induction cs with
  | nil => intro pos h; simp [encode] at h
  | cons c cs ih =>
    intro pos h
    have heq : encode (c :: cs) = String.utf8EncodeChar c ++ encode cs := rfl
    rw [heq] at h ⊢
    rw [List.length_append, String.length_utf8EncodeChar] at h
    by_cases hpos : pos < c.utf8Size
    · exact ⟨[], c, encode cs, rfl, Nat.zero_le _, by simpa using hpos⟩
    · obtain ⟨before, d, after, htext, hle, hlt⟩ := @ih (pos - c.utf8Size) (by omega)
      refine ⟨String.utf8EncodeChar c ++ before, d, after, by rw [htext]; simp, ?_, ?_⟩ <;>
      · rw [List.length_append, String.length_utf8EncodeChar]
        omega

theorem InChar.append {text : Bytes} {pos : Nat} (h : InChar text pos) (before after : Bytes) :
    InChar (before ++ text ++ after) (before.length + pos) := by
  obtain ⟨before', c, after', rfl, hle, hlt⟩ := h
  refine ⟨before ++ before', c, after' ++ after, by simp, ?_, ?_⟩ <;>
  · rw [List.length_append]
    omega

/-- Every byte of a well-formed string is part of a character. -/
theorem inChar_of_isValid {bytes : Bytes} (h : isValid bytes = true) {pos : Nat}
    (hpos : pos < bytes.length) : InChar bytes pos := by
  obtain ⟨cs, -, rfl⟩ := encode_chars_of_isValid h
  exact inChar_encode hpos

end Utf8

end Metadoc
