import Metadoc.Proofs.Text.Cuts

/-!
# Characters are read as they were written

* `Utf8.piece_encodeChar` : what a character is written as is read as that character, whatever comes
  after it;
* `Utf8.isValid_ofString`, `Utf8.lossy_ofString` : a text that is written is well-formed, and
  reading it yields the text.
-/

namespace Metadoc

namespace Utf8

/-! ### Lead bytes -/

variable {b : UInt8}

theorem lead?_two (h : 0xC2 ≤ b.toNat ∧ b.toNat ≤ 0xDF) : lead? b = some ⟨1, 0x80, 0xBF⟩ := by
  simp only [lead?, UInt8.le_iff_toNat_le]
  exact if_pos h

/-- A byte that opens a character of three bytes asks for two, and leaves out overlong forms and
surrogates. -/
theorem exists_lead?_three (h : 0xE0 ≤ b.toNat ∧ b.toNat ≤ 0xEF) :
    ∃ low high, lead? b = some ⟨2, low, high⟩ ∧ ∀ t : Nat, 0x80 ≤ t → t ≤ 0xBF →
      (b.toNat = 0xE0 → 0xA0 ≤ t) → (b.toNat = 0xED → t ≤ 0x9F) →
        low.toNat ≤ t ∧ t ≤ high.toNat := by
  simp only [lead?, UInt8.le_iff_toNat_le, ← UInt8.toNat_inj, UInt8.reduceToNat]
  rw [if_neg (by omega)]
  split
  · exact ⟨_, _, rfl, fun t _ _ _ _ => by simp; omega⟩
  split
  · exact ⟨_, _, rfl, fun t _ _ _ _ => by simp; omega⟩
  rw [if_pos (by omega)]
  exact ⟨_, _, rfl, fun t _ _ _ _ => by simp; omega⟩

/-- A byte that opens a character of four bytes asks for three, and leaves out overlong forms and
numbers past U+10FFFF. -/
theorem exists_lead?_four (h : 0xF0 ≤ b.toNat ∧ b.toNat ≤ 0xF4) :
    ∃ low high, lead? b = some ⟨3, low, high⟩ ∧ ∀ t : Nat, 0x80 ≤ t → t ≤ 0xBF →
      (b.toNat = 0xF0 → 0x90 ≤ t) → (b.toNat = 0xF4 → t ≤ 0x8F) →
        low.toNat ≤ t ∧ t ≤ high.toNat := by
  simp only [lead?, UInt8.le_iff_toNat_le, ← UInt8.toNat_inj, UInt8.reduceToNat]
  rw [if_neg (by omega), if_neg (by omega), if_neg (by omega), if_neg (by omega)]
  split
  · exact ⟨_, _, rfl, fun t _ _ _ _ => by simp; omega⟩
  split
  · exact ⟨_, _, rfl, fun t _ _ _ _ => by simp; omega⟩
  rw [if_pos (by omega)]
  exact ⟨_, _, rfl, fun t _ _ _ _ => by simp; omega⟩

/-! ### Reading what was written -/

theorem tails_cons {t low high : UInt8} (h : low.toNat ≤ t.toNat ∧ t.toNat ≤ high.toNat) (n : Nat)
    (rest : Bytes) : tails (n + 1) low high (t :: rest) = t :: tails n 0x80 0xBF rest :=
  if_pos h

variable {t u v : UInt8}

theorem tails_cons_tail (h : 0x80 ≤ t.toNat ∧ t.toNat ≤ 0xBF) (n : Nat) (rest : Bytes) :
    tails (n + 1) 0x80 0xBF (t :: rest) = t :: tails n 0x80 0xBF rest :=
  @tails_cons t 0x80 0xBF h n rest

theorem piece_two (hb : 0xC2 ≤ b.toNat ∧ b.toNat ≤ 0xDF) (ht : 0x80 ≤ t.toNat ∧ t.toNat ≤ 0xBF)
    (rest : Bytes) : piece b (t :: rest) = .char (Char.ofNat (scalar b [t])) := by
  have hnot : ¬b < 0x80 := by
    simp only [UInt8.lt_iff_toNat_lt, UInt8.reduceToNat]
    omega
  have hts : tails 1 0x80 0xBF (t :: rest) = [t] := by rw [tails_cons_tail ht, tails]
  rw [piece, if_neg hnot, lead?_two hb]
  dsimp only
  rw [hts]
  exact if_pos rfl

theorem piece_three (hb : 0xE0 ≤ b.toNat ∧ b.toNat ≤ 0xEF)
    (ht : 0x80 ≤ t.toNat ∧ t.toNat ≤ 0xBF) (hu : 0x80 ≤ u.toNat ∧ u.toNat ≤ 0xBF)
    (hlong : b.toNat = 0xE0 → 0xA0 ≤ t.toNat) (hsurrogate : b.toNat = 0xED → t.toNat ≤ 0x9F)
    (rest : Bytes) : piece b (t :: u :: rest) = .char (Char.ofNat (scalar b [t, u])) := by
  obtain ⟨low, high, hlead, hrange⟩ := exists_lead?_three hb
  have hnot : ¬b < 0x80 := by
    simp only [UInt8.lt_iff_toNat_lt, UInt8.reduceToNat]
    omega
  have hts : tails 2 low high (t :: u :: rest) = [t, u] := by
    rw [tails_cons (hrange _ ht.1 ht.2 hlong hsurrogate), tails_cons_tail hu, tails]
  rw [piece, if_neg hnot, hlead]
  dsimp only
  rw [hts]
  exact if_pos rfl

theorem piece_four (hb : 0xF0 ≤ b.toNat ∧ b.toNat ≤ 0xF4) (ht : 0x80 ≤ t.toNat ∧ t.toNat ≤ 0xBF)
    (hu : 0x80 ≤ u.toNat ∧ u.toNat ≤ 0xBF) (hv : 0x80 ≤ v.toNat ∧ v.toNat ≤ 0xBF)
    (hlong : b.toNat = 0xF0 → 0x90 ≤ t.toNat) (hlarge : b.toNat = 0xF4 → t.toNat ≤ 0x8F)
    (rest : Bytes) : piece b (t :: u :: v :: rest) = .char (Char.ofNat (scalar b [t, u, v])) := by
  obtain ⟨low, high, hlead, hrange⟩ := exists_lead?_four hb
  have hnot : ¬b < 0x80 := by
    simp only [UInt8.lt_iff_toNat_lt, UInt8.reduceToNat]
    omega
  have hts : tails 3 low high (t :: u :: v :: rest) = [t, u, v] := by
    rw [tails_cons (hrange _ ht.1 ht.2 hlong hlarge), tails_cons_tail hu, tails_cons_tail hv, tails]
  rw [piece, if_neg hnot, hlead]
  dsimp only
  rw [hts]
  exact if_pos rfl

theorem toNat_ofNat_byte {n : Nat} (h : n < 256) : (UInt8.ofNat n).toNat = n := by
  rw [UInt8.toNat_ofNat', Nat.mod_eq_of_lt h]

/-- What a character is written as is read as that character. -/
theorem piece_encodeChar (c : Char) (rest : Bytes) :
    ∃ b ts, String.utf8EncodeChar c = b :: ts ∧ piece b (ts ++ rest) = .char c := by
  have hc : Char.ofNat c.val.toNat = c := Char.ofNat_toNat c
  have hvalid : c.val.toNat < 0xD800 ∨ 0xDFFF < c.val.toNat ∧ c.val.toNat < 0x110000 := c.valid
  unfold String.utf8EncodeChar
  dsimp only
  generalize c.val.toNat = n at hc hvalid
  -- One case for each length.  The number written by the bytes is that of the character.
  split
  · have hb : (UInt8.ofNat n).toNat = n := toNat_ofNat_byte (by omega)
    refine ⟨_, _, rfl, ?_⟩
    rw [piece, if_pos (by rw [UInt8.lt_iff_toNat_lt, hb]; exact Nat.lt_succ_of_le ‹_›), hb, hc]
  have ht (i : Nat) : (UInt8.ofNat (i % 64 + 128)).toNat = i % 64 + 128 :=
    toNat_ofNat_byte (by omega)
  split
  · have hb : (UInt8.ofNat (n / 64 % 32 + 192)).toNat = n / 64 % 32 + 192 :=
      toNat_ofNat_byte (by omega)
    have hn : scalar (UInt8.ofNat (n / 64 % 32 + 192)) [UInt8.ofNat (n % 64 + 128)] = n := by
      change (UInt8.ofNat (n / 64 % 32 + 192)).toNat % 32 * 64 + (UInt8.ofNat _).toNat % 64 = n
      rw [hb, ht]
      omega
    refine ⟨_, _, rfl, ?_⟩
    rw [List.singleton_append, piece_two (by rw [hb]; omega) (by rw [ht]; omega), hn, hc]
  split
  · have hb : (UInt8.ofNat (n / 4096 % 16 + 224)).toNat = n / 4096 % 16 + 224 :=
      toNat_ofNat_byte (by omega)
    have hn : scalar (UInt8.ofNat (n / 4096 % 16 + 224))
        [UInt8.ofNat (n / 64 % 64 + 128), UInt8.ofNat (n % 64 + 128)] = n := by
      change ((UInt8.ofNat (n / 4096 % 16 + 224)).toNat % 16 * 64 + (UInt8.ofNat _).toNat % 64) * 64
        + (UInt8.ofNat _).toNat % 64 = n
      rw [hb, ht, ht]
      omega
    refine ⟨_, _, rfl, ?_⟩
    have hpiece := piece_three (b := UInt8.ofNat (n / 4096 % 16 + 224))
      (t := UInt8.ofNat (n / 64 % 64 + 128)) (u := UInt8.ofNat (n % 64 + 128))
      (by rw [hb]; omega) (by rw [ht]; omega) (by rw [ht]; omega) (by rw [hb, ht]; omega)
      (by rw [hb, ht]; omega) rest
    rwa [hn, hc] at hpiece
  · have hb : (UInt8.ofNat (n / 262144 % 8 + 240)).toNat = n / 262144 % 8 + 240 :=
      toNat_ofNat_byte (by omega)
    have hn : scalar (UInt8.ofNat (n / 262144 % 8 + 240))
        [UInt8.ofNat (n / 4096 % 64 + 128), UInt8.ofNat (n / 64 % 64 + 128),
          UInt8.ofNat (n % 64 + 128)] = n := by
      change (((UInt8.ofNat (n / 262144 % 8 + 240)).toNat % 8 * 64 +
        (UInt8.ofNat _).toNat % 64) * 64 + (UInt8.ofNat _).toNat % 64) * 64 +
          (UInt8.ofNat _).toNat % 64 = n
      rw [hb, ht, ht, ht]
      omega
    refine ⟨_, _, rfl, ?_⟩
    have hpiece := piece_four (b := UInt8.ofNat (n / 262144 % 8 + 240))
      (t := UInt8.ofNat (n / 4096 % 64 + 128)) (u := UInt8.ofNat (n / 64 % 64 + 128))
      (v := UInt8.ofNat (n % 64 + 128)) (by rw [hb]; omega) (by rw [ht]; omega)
      (by rw [ht]; omega) (by rw [ht]; omega) (by rw [hb, ht]; omega) (by rw [hb, ht]; omega) rest
    rwa [hn, hc] at hpiece

/-- A character is read from its own bytes, whatever comes after it. -/
theorem piece_of_append {xs ys : Bytes} {c : Char} (h : piece b (xs ++ ys) = .char c)
    (hle : c.utf8Size - 1 ≤ xs.length) : piece b xs = .char c := by
  have hsplit := drop_length_piece h
  rw [List.drop_append_of_le_length hle, ← List.append_assoc, ← List.cons_append] at hsplit
  have halone := List.append_cancel_right hsplit
  obtain ⟨b', ts, hencode, hpiece⟩ := piece_encodeChar c (xs.drop (c.utf8Size - 1))
  rw [hencode, List.cons_append, List.cons.injEq] at halone
  rw [halone.1, halone.2]
  exact hpiece

/-! ### Written texts -/

theorem pieces_encodeChar_append (c : Char) (rest : Bytes) :
    pieces (String.utf8EncodeChar c ++ rest) = .char c :: pieces rest := by
  obtain ⟨b, ts, hencode, hpiece⟩ := piece_encodeChar c rest
  have hsize : c.utf8Size - 1 = ts.length := by
    rw [← String.length_utf8EncodeChar, hencode]
    rfl
  rw [hencode, List.cons_append, pieces_cons_of_char hpiece, hsize, List.drop_left]

theorem pieces_encode (cs : List Char) : pieces (encode cs) = cs.map .char := by
  induction cs with
  | nil => rfl
  | cons c cs ih =>
    rw [encode, List.flatMap_cons, pieces_encodeChar_append, List.map_cons, ← ih]
    rfl

theorem isValid_encode (cs : List Char) : isValid (encode cs) = true := by
  simp [isValid, pieces_encode, Piece.isChar]

theorem lossyChars_encode (cs : List Char) : lossyChars (encode cs) = cs := by
  rw [lossyChars, pieces_encode, List.map_map]
  exact List.map_id cs

/-- A text that is written is well-formed. -/
theorem isValid_ofString (s : String) : isValid (ofString s) = true := isValid_encode s.toList

/-- Reading a text that was written yields the text. -/
theorem lossy_ofString (s : String) : lossy (ofString s) = s := by
  rw [lossy, ofString, lossyChars_encode, String.ofList_toList]

theorem encode_append (cs ds : List Char) : encode (cs ++ ds) = encode cs ++ encode ds :=
  List.flatMap_append

theorem encode_replicate_mark (n : Nat) :
    encode (List.replicate n '?') = List.replicate n 0x3F := by
  induction n with
  | zero => rfl
  | succ n ih =>
    rw [List.replicate_succ, encode, List.flatMap_cons, ← encode, ih]
    rfl

theorem exists_shown_eq_encode (bytes : Bytes) : ∃ cs, shown bytes = encode cs := by
  rw [shown]
  induction pieces bytes with
  | nil => exact ⟨[], rfl⟩
  | cons p ps ih =>
    obtain ⟨cs, hcs⟩ := ih
    rw [List.flatMap_cons, hcs]
    cases p with
    | char c => exact ⟨c :: cs, rfl⟩
    | invalid n cut =>
      exact ⟨List.replicate n '?' ++ cs, by rw [encode_append, encode_replicate_mark]; rfl⟩

theorem ofString_lossy_shown (bytes : Bytes) : ofString (lossy (shown bytes)) = shown bytes := by
  obtain ⟨cs, hcs⟩ := exists_shown_eq_encode bytes
  rw [hcs, lossy, lossyChars_encode, ofString, String.toList_ofList]

theorem ofString_append (s t : String) : ofString (s ++ t) = ofString s ++ ofString t := by
  rw [ofString, String.toList_append, encode_append]
  rfl

end Utf8

end Metadoc
