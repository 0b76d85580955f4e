import Metadoc.Proofs.Text.Utf8

/-!
# Texts that are cut between characters

A text may be cut wherever no character goes on: its two parts have the pieces of the whole, and so
are shown as they are in the whole.

* `Utf8.Opens` says that a text does not begin with a byte that continues a character;
* `Utf8.Piece.settled` forgets whether an invalid sequence was cut off by the end of the text, and
  `Utf8.settled_piece_append` says that the piece read is otherwise the same before any text that
  opens;
* `Utf8.settledPieces_append_of_opens`, `Utf8.settledPieces_append_of_isValid`,
  `Utf8.settledPieces_append_of_ascii` and `Utf8.settledPieces_append_of_invalid` : where a text may
  be cut.
-/

namespace Metadoc

namespace Utf8

/-- Whether a text is empty or begins with a byte that continues no character. -/
def Opens (bytes : Bytes) : Prop := ∀ b ∈ bytes.head?, isTail b = false

theorem opens_nil : Opens [] := nofun

theorem opens_cons {b : UInt8} {bytes : Bytes} : Opens (b :: bytes) ↔ isTail b = false := by
  simp [Opens]

theorem isTail_of_ascii {b : UInt8} (h : b < 0x80) : isTail b = false := by
  have hlt : ¬0x80 ≤ b := by
    rw [UInt8.le_iff_toNat_le]
    rw [UInt8.lt_iff_toNat_lt] at h
    omega
  simp [isTail, hlt]

theorem Opens.take {bytes : Bytes} (h : Opens bytes) (n : Nat) : Opens (bytes.take n) := by
  cases bytes with
  | nil => simpa using h
  | cons b rest =>
    cases n with
    | zero => exact opens_nil
    | succ n => exact opens_cons.2 (opens_cons.1 h)

/-! ### Pieces before a text that opens -/

/-- A piece without what it says about the end of the text. -/
def Piece.settled : Piece → Piece
  | .char c => .char c
  | .invalid n _ => .invalid n false

@[simp] theorem Piece.length_settled (p : Piece) : p.settled.length = p.length := by
  cases p <;> rfl

@[simp] theorem Piece.shown_settled (p : Piece) : p.settled.shown = p.shown := by
  cases p <;> rfl

theorem Piece.settled_eq_char {p : Piece} {c : Char} : p.settled = .char c ↔ p = .char c := by
  cases p <;> simp [settled]

theorem Piece.exists_of_settled {p : Piece} {n : Nat} (h : p.settled = .invalid n false) :
    ∃ cut, p = .invalid n cut := by
  cases p with
  | char c => cases h
  | invalid m cut =>
    cases h
    exact ⟨cut, rfl⟩

variable {b : UInt8} {xs ys : Bytes}

/-- Continuation bytes lie in a fixed range, whatever the lead byte asks for. -/
theorem isTail_of_mem_range {lead : Lead} {t : UInt8} (h : lead? b = some lead)
    (ht : lead.low ≤ t ∧ t ≤ lead.high) : isTail t = true := by
  simp only [UInt8.le_iff_toNat_le] at ht
  have hrange : 0x80 ≤ t.toNat ∧ t.toNat ≤ 0xBF := by
    rcases lead?_cases h with ⟨rfl, -⟩ | ⟨-, -, hlow, hhigh, -⟩ | ⟨-, -, hlow, hhigh, -⟩
    · exact ht
    · omega
    · omega
  simpa [isTail, UInt8.le_iff_toNat_le] using hrange

theorem tails_append_of_opens {low high : UInt8}
    (hrange : ∀ t, low ≤ t ∧ t ≤ high → isTail t = true) (hy : Opens ys) (n : Nat) (xs : Bytes) :
    tails n low high (xs ++ ys) = tails n low high xs := by
  induction xs generalizing n low high with
  | nil =>
    cases n with
    | zero => rfl
    | succ n =>
      cases ys with
      | nil => rfl
      | cons y ys =>
        have hout : ¬(low ≤ y ∧ y ≤ high) := fun h => by
          have htail := hrange y h
          rw [opens_cons.1 hy] at htail
          cases htail
        simp [tails, hout]
  | cons x xs ih =>
    cases n with
    | zero => rfl
    | succ n =>
      have hrest : tails n 0x80 0xBF (xs ++ ys) = tails n 0x80 0xBF xs :=
        ih (fun t ht => by simpa [isTail] using ht) n
      rw [List.cons_append, tails, tails, hrest]

theorem tails_take (n : Nat) (low high : UInt8) (xs : Bytes) (m : Nat) :
    tails n low high (xs.take m) = (tails n low high xs).take m := by
  induction xs generalizing n low high m with
  | nil => cases n <;> simp [tails]
  | cons x xs ih =>
    cases n with
    | zero => simp [tails]
    | succ n =>
      cases m with
      | zero => simp [tails]
      | succ m =>
        rw [List.take_succ_cons, tails, tails, ih]
        split
        · rfl
        · simp

theorem length_tails_le (n : Nat) (low high : UInt8) (xs : Bytes) :
    (tails n low high xs).length ≤ n := by
  induction xs generalizing n low high with
  | nil => cases n <;> simp [tails]
  | cons x xs ih =>
    cases n with
    | zero => simp [tails]
    | succ n =>
      unfold tails
      split
      · exact Nat.succ_le_succ (ih n _ _)
      · exact Nat.zero_le _

theorem tails_le_three {lead : Lead} (h : lead? b = some lead) : lead.tails ≤ 3 := by
  rcases lead?_cases h with ⟨rfl, -⟩ | ⟨h, -⟩ | ⟨h, -⟩
  · decide
  · omega
  · omega

theorem settled_piece_congr {lead : Lead} (hb : ¬b < 0x80) (hlead : lead? b = some lead)
    (h : tails lead.tails lead.low lead.high xs = tails lead.tails lead.low lead.high ys) :
    (piece b xs).settled = (piece b ys).settled := by
  unfold piece
  rw [if_neg hb, if_neg hb, hlead]
  dsimp only
  rw [h]
  split <;> rfl

theorem settled_piece_eq (h : ∀ lead, lead? b = some lead →
      tails lead.tails lead.low lead.high xs = tails lead.tails lead.low lead.high ys) :
    (piece b xs).settled = (piece b ys).settled := by
  by_cases hb : b < 0x80
  · rw [piece, if_pos hb, piece, if_pos hb]
  · cases hlead : lead? b with
    | none => rw [piece, if_neg hb, hlead, piece, if_neg hb, hlead]
    | some lead => exact settled_piece_congr hb hlead (h lead hlead)

/-- Before a text that opens, the same piece is read as at the end of the text. -/
theorem settled_piece_append (hy : Opens ys) (b : UInt8) (xs : Bytes) :
    (piece b (xs ++ ys)).settled = (piece b xs).settled :=
  settled_piece_eq fun _ hlead =>
    tails_append_of_opens (fun _ ht => isTail_of_mem_range hlead ht) hy _ xs

/-- Three bytes behind the first are enough to read a piece. -/
theorem settled_piece_take (b : UInt8) (xs : Bytes) :
    (piece b (xs.take 3)).settled = (piece b xs).settled :=
  settled_piece_eq fun lead hlead => by
    rw [tails_take, List.take_of_length_le]
    exact Nat.le_trans (length_tails_le ..) (tails_le_three hlead)

/-! ### Shown texts -/

@[simp] theorem shown_nil : shown [] = [] := rfl

theorem shown_cons (b : UInt8) (rest : Bytes) :
    shown (b :: rest) =
      (piece b rest).shown ++ shown (rest.drop ((piece b rest).length - 1)) := by
  rw [shown, pieces, piecesFrom, List.flatMap_cons, piecesFrom_eq_drop]
  rfl

theorem piece_length_le (b : UInt8) (rest : Bytes) : (piece b rest).length ≤ rest.length + 1 := by
  cases hp : piece b rest with
  | char c =>
    have hlength := congrArg List.length (drop_length_piece hp)
    rw [List.length_append, String.length_utf8EncodeChar, List.length_drop,
      List.length_cons] at hlength
    simp only [Piece.length]
    omega
  | invalid n cut => exact (piece_invalid_le hp).2

/-! ### Cut texts -/

/-- The pieces of a text, without what they say about its end. -/
def settledPieces (bytes : Bytes) : List Piece := (pieces bytes).map Piece.settled

@[simp] theorem settledPieces_nil : settledPieces [] = [] := rfl

theorem settledPieces_cons (b : UInt8) (rest : Bytes) :
    settledPieces (b :: rest) =
      (piece b rest).settled :: settledPieces (rest.drop ((piece b rest).length - 1)) := by
  rw [settledPieces, pieces, piecesFrom, List.map_cons, piecesFrom_eq_drop]
  rfl

theorem shown_eq_flatMap (bytes : Bytes) :
    shown bytes = (settledPieces bytes).flatMap Piece.shown := by
  simp [settledPieces, List.flatMap_map, shown]

/-- A text may be cut before whatever continues no character. -/
theorem settledPieces_append_of_opens (hy : Opens ys) (xs : Bytes) :
    settledPieces (xs ++ ys) = settledPieces xs ++ settledPieces ys := by
  -- A piece may be several bytes long, so the induction is on a bound for the length.
  obtain ⟨n, hn⟩ : ∃ n, xs.length ≤ n := ⟨_, Nat.le_refl _⟩
  induction n generalizing xs with
  | zero =>
    rw [List.length_eq_zero_iff.1 (Nat.le_zero.1 hn)]
    rfl
  | succ n ih =>
    cases xs with
    | nil => rfl
    | cons x xs =>
      have hsettled := settled_piece_append hy x xs
      have hlength : (piece x (xs ++ ys)).length = (piece x xs).length := by
        simpa using congrArg Piece.length hsettled
      have hle := piece_length_le x xs
      simp only [List.length_cons] at hn
      have hrest := ih (xs.drop ((piece x xs).length - 1)) (by rw [List.length_drop]; omega)
      rw [List.cons_append, settledPieces_cons, settledPieces_cons, hsettled, hlength,
        List.drop_append_of_le_length (by omega), hrest, List.cons_append]

/-- A text may be cut behind whole characters. -/
theorem settledPieces_append_of_isValid (hx : isValid xs = true) (ys : Bytes) :
    settledPieces (xs ++ ys) = settledPieces xs ++ settledPieces ys := by
  rw [settledPieces, pieces_append hx, List.map_append]
  rfl

/-- A text may be cut behind a byte of ASCII. -/
theorem settledPieces_append_of_ascii (hb : b < 0x80) (xs ys : Bytes) :
    settledPieces (xs ++ [b] ++ ys) = settledPieces (xs ++ [b]) ++ settledPieces ys := by
  have hvalid : isValid [b] = true := isValid_of_ascii (by simpa using hb)
  have hopens (ys : Bytes) : Opens (b :: ys) := opens_cons.2 (isTail_of_ascii hb)
  calc settledPieces (xs ++ [b] ++ ys) = settledPieces xs ++ settledPieces ([b] ++ ys) := by
        rw [List.append_assoc, List.singleton_append, settledPieces_append_of_opens (hopens ys)]
    _ = settledPieces (xs ++ [b]) ++ settledPieces ys := by
        rw [settledPieces_append_of_isValid hvalid, settledPieces_append_of_opens (hopens []),
          List.append_assoc]

theorem settled_of_invalid {n : Nat} {cut : Bool} (h : piece b (xs ++ ys) = .invalid n cut)
    (hn : n ≤ xs.length + 1) : (piece b xs).settled = .invalid n false := by
  have hsettled : (piece b (xs ++ ys)).settled = .invalid n false := by rw [h]; rfl
  rw [← hsettled]
  refine settled_piece_eq fun lead hlead => ?_
  have hlength : (tails lead.tails lead.low lead.high (xs ++ ys)).length ≤ xs.length := by
    unfold piece at h
    split at h
    · cases h
    · rw [hlead] at h
      dsimp only at h
      split at h <;> cases h
      omega
  have htake := tails_take lead.tails lead.low lead.high (xs ++ ys) xs.length
  rwa [List.take_left, List.take_of_length_le hlength] at htake

/-- A text may be cut behind an invalid sequence that it begins with, which is a piece by itself. -/
theorem settledPieces_append_of_invalid {n : Nat} {cut : Bool}
    (h : piece b (xs ++ ys) = .invalid n cut) (hn : n = xs.length + 1) :
    settledPieces (b :: xs) = [.invalid n false] ∧
      settledPieces (b :: xs ++ ys) = settledPieces (b :: xs) ++ settledPieces ys := by
  have hsettled := settled_of_invalid h (Nat.le_of_eq hn)
  have hlength : (piece b xs).length = xs.length + 1 := by
    rw [← Piece.length_settled, hsettled]
    exact hn
  have halone : settledPieces (b :: xs) = [.invalid n false] := by
    rw [settledPieces_cons, hsettled, hlength, Nat.add_sub_cancel, List.drop_length,
      settledPieces_nil]
  have hlength' : (piece b (xs ++ ys)).length = xs.length + 1 := by rw [h]; exact hn
  refine ⟨halone, ?_⟩
  rw [halone, List.cons_append, settledPieces_cons, hlength', h, Nat.add_sub_cancel, List.drop_left]
  rfl

/-! ### What is shown -/

theorem opens_shown_piece (b : UInt8) (rest ys : Bytes) : Opens ((piece b rest).shown ++ ys) := by
  cases hp : piece b rest with
  | char c =>
    obtain ⟨rest', hrest⟩ := encodeChar_of_piece hp
    have hpos : 0 < (String.utf8EncodeChar c).length := by
      rw [String.length_utf8EncodeChar]
      exact c.utf8Size_pos
    obtain ⟨x, xs, hencode⟩ := List.exists_cons_of_length_pos hpos
    rw [hencode, List.cons_append, List.cons.injEq] at hrest
    rw [Piece.shown, hencode, List.cons_append, opens_cons, ← hrest.1]
    exact isTail_of_isChar (by rw [hp]; rfl)
  | invalid n cut =>
    obtain ⟨n, rfl⟩ := Nat.exists_eq_add_of_le' (piece_invalid_le hp).1
    exact opens_cons.2 (by decide)

theorem opens_shown (bytes : Bytes) : Opens (shown bytes) := by
  cases bytes with
  | nil => exact opens_nil
  | cons b rest =>
    rw [shown_cons]
    exact opens_shown_piece b rest _

theorem length_shown_piece (p : Piece) : p.shown.length = p.length := by
  cases p with
  | char c => exact String.length_utf8EncodeChar c
  | invalid n cut => exact List.length_replicate

theorem length_shown (bytes : Bytes) : (shown bytes).length = bytes.length := by
  suffices h : ∀ k ≤ bytes.length,
      ((piecesFrom k bytes).flatMap Piece.shown).length = bytes.length - k from
    h 0 (Nat.zero_le _)
  induction bytes with
  | nil =>
    intro k hk
    cases Nat.le_zero.1 hk
    rfl
  | cons b rest ih =>
    intro k hk
    rw [List.length_cons] at hk ⊢
    cases k with
    | succ k => rw [piecesFrom, ih k (by omega)]; omega
    | zero =>
      have hle := piece_length_le b rest
      have hpos := piece_length_pos b rest
      rw [piecesFrom, List.flatMap_cons, List.length_append, length_shown_piece,
        ih _ (by omega)]
      omega

end Utf8

end Metadoc
