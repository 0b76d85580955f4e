import Metadoc.Proofs.Text.Boundaries

/-!
# Maximal invalid sequences

Where a text begins with no character, the bytes that are set aside are the longest beginning of it
with which a character could begin, or one byte when there is no such beginning.

* `Utf8.Begins` says that a character could begin with a string, and `Utf8.InvalidSubpart` that a
  string is the maximal invalid sequence at the head of a text;
* `Utf8.piece_eq_char_iff` : a character is read where the text begins with its UTF-8 form;
* `Utf8.invalidSubpart_iff` : else the maximal invalid sequence is read, and
  `Utf8.InvalidSubpart.length_le` : it has three bytes at most.
-/

namespace Metadoc

namespace Utf8

/-- Whether a character could begin with a string: it is a beginning of the UTF-8 form of one. -/
def Begins (part : Bytes) : Prop := ∃ c, part <+: String.utf8EncodeChar c

/-- Whether `part` is the maximal invalid sequence at the head of a text: the text begins with no
character, and `part` is its longest beginning with which one could begin, or its first byte when
there is no such beginning. -/
structure InvalidSubpart (text part : Bytes) : Prop where
  /-- The text does not begin with a character. -/
  illFormed : ∀ c, ¬String.utf8EncodeChar c <+: text
  /-- It begins with the sequence. -/
  prefixed : part <+: text
  /-- The sequence holds a byte. -/
  nonempty : part ≠ []
  /-- A character could begin with it, or it is one byte. -/
  begins : Begins part ∨ part.length = 1
  /-- A character could begin with nothing longer. -/
  longest : ∀ part', part' <+: text → Begins part' → part'.length ≤ part.length

variable {b : UInt8} {rest part part' text : Bytes} {lead : Lead} {c : Char}

/-! ### Characters -/

/-- A character is read where a text begins with its UTF-8 form. -/
theorem piece_eq_char_iff : piece b rest = .char c ↔ String.utf8EncodeChar c <+: b :: rest := by
  constructor
  · intro h
    obtain ⟨behind, hbehind⟩ := encodeChar_of_piece h
    exact ⟨behind, hbehind.symm⟩
  · rintro ⟨behind, hbehind⟩
    obtain ⟨b', ts, hencode, hpiece⟩ := piece_encodeChar c behind
    rw [hencode, List.cons_append, List.cons.injEq] at hbehind
    rwa [hbehind.1, hbehind.2] at hpiece

theorem not_ascii_of_lead (h : lead? b = some lead) : ¬b < 0x80 := by
  simp only [UInt8.lt_iff_toNat_lt, UInt8.reduceToNat]
  rcases lead?_cases h with ⟨-, hb⟩ | ⟨-, hb, -⟩ | ⟨-, hb, -⟩ <;> omega

theorem exists_lead_of_char (hb : ¬b < 0x80) (h : piece b rest = .char c) :
    ∃ lead, lead? b = some lead := by
  cases hlead : lead? b with
  | none => rw [piece, if_neg hb, hlead] at h; cases h
  | some lead => exact ⟨lead, rfl⟩

theorem piece_of_lead (h : lead? b = some lead) (rest : Bytes) :
    piece b rest =
      let ts := tails lead.tails lead.low lead.high rest
      if ts.length = lead.tails then .char (Char.ofNat (scalar b ts))
      else .invalid (1 + ts.length) (ts.length = rest.length) := by
  rw [piece, if_neg (not_ascii_of_lead h), h]

theorem length_tails_of_char (hlead : lead? b = some lead) (h : piece b rest = .char c) :
    (tails lead.tails lead.low lead.high rest).length = lead.tails := by
  rw [piece_of_lead hlead] at h
  dsimp only at h
  split at h
  · assumption
  · cases h

theorem tails_tails (n : Nat) (low high : UInt8) (xs : Bytes) :
    tails n low high (tails n low high xs) = tails n low high xs := by
  have htake := tails_take n low high xs (tails n low high xs).length
  rwa [← tails_eq_take, List.take_length] at htake

theorem encodeChar_eq_cons (hlead : lead? b = some lead) (h : piece b rest = .char c) :
    String.utf8EncodeChar c = b :: tails lead.tails lead.low lead.high rest := by
  have hlength := length_tails_of_char hlead h
  have hsplit := drop_length_piece h
  have hpos := c.utf8Size_pos
  -- The continuation bytes alone are read as the same character, and fewer bytes as none.
  have hle : c.utf8Size ≤ lead.tails + 1 := by
    have halone : piece b (tails lead.tails lead.low lead.high rest) = .char c := by
      rw [piece_of_lead hlead] at h ⊢
      dsimp only at h ⊢
      rw [if_pos hlength] at h
      rw [tails_tails, if_pos hlength, h]
    have hle := piece_length_le b (tails lead.tails lead.low lead.high rest)
    rwa [halone, hlength] at hle
  have hge : lead.tails ≤ c.utf8Size - 1 := by
    have hrest := List.take_append_drop (c.utf8Size - 1) rest
    have hroom : c.utf8Size - 1 ≤ (rest.take (c.utf8Size - 1)).length := by
      have hle := piece_length_le b rest
      rw [h] at hle
      rw [List.length_take]
      simp only [Piece.length] at hle
      omega
    have hshort := piece_of_append (by rwa [hrest]) hroom
    have htails := length_tails_of_char hlead hshort
    have hbound := tails_length_le lead.tails lead.low lead.high (rest.take (c.utf8Size - 1))
    rw [htails, List.length_take] at hbound
    omega
  have hsize : (String.utf8EncodeChar c).length = lead.tails + 1 := by
    rw [String.length_utf8EncodeChar]
    omega
  calc String.utf8EncodeChar c
      = (b :: rest).take (String.utf8EncodeChar c).length := by rw [hsplit, List.take_left]
    _ = b :: rest.take lead.tails := by rw [hsize, List.take_succ_cons]
    _ = b :: tails lead.tails lead.low lead.high rest := by
        rw [tails_eq_take lead.tails lead.low lead.high rest, hlength]

/-! ### What a character could begin with -/

/-- Continuation bytes that are too few can be made up for. -/
theorem exists_tails_eq_self {low high : UInt8} (h : low ≤ high) (n : Nat) (xs : Bytes) :
    ∃ ys, tails n low high xs <+: ys ∧ tails n low high ys = ys ∧ ys.length = n := by
  induction n generalizing low high xs with
  | zero => exact ⟨[], by simp [tails], by simp [tails], rfl⟩
  | succ n ih =>
    have hrange : (0x80 : UInt8) ≤ 0xBF := by decide
    have hcons {x : UInt8} (hx : low ≤ x ∧ x ≤ high) (xs : Bytes) :
        tails (n + 1) low high (x :: xs) = x :: tails n 0x80 0xBF xs := if_pos hx
    -- Where none is found, the least that is allowed is as good as any.
    have hfresh : ∃ ys, [] <+: ys ∧ tails (n + 1) low high ys = ys ∧ ys.length = n + 1 := by
      obtain ⟨ys, -, htails, hlength⟩ := ih hrange []
      refine ⟨low :: ys, List.nil_prefix, ?_, by rw [List.length_cons, hlength]⟩
      rw [hcons ⟨UInt8.le_refl low, h⟩, htails]
    cases xs with
    | nil => exact hfresh
    | cons x xs =>
      by_cases hx : low ≤ x ∧ x ≤ high
      · obtain ⟨ys, hbegins, htails, hlength⟩ := ih hrange xs
        rw [hcons hx]
        refine ⟨x :: ys, List.cons_prefix_cons.2 ⟨rfl, hbegins⟩, ?_, ?_⟩
        · rw [hcons hx, htails]
        · rw [List.length_cons, hlength]
      · have hnone : tails (n + 1) low high (x :: xs) = [] := if_neg hx
        rwa [hnone]

theorem low_le_high (h : lead? b = some lead) : lead.low ≤ lead.high := by
  unfold lead? at h
  repeat' split at h
  all_goals cases h
  all_goals decide

/-- A character could begin with a byte that asks for continuation bytes and with those that are
found. -/
theorem begins_tails (h : lead? b = some lead) (rest : Bytes) :
    Begins (b :: tails lead.tails lead.low lead.high rest) := by
  obtain ⟨ys, hbegins, htails, hlength⟩ := exists_tails_eq_self (low_le_high h) lead.tails rest
  have hpiece : piece b ys = .char (Char.ofNat (scalar b ys)) := by
    rw [piece_of_lead h]
    dsimp only
    rw [htails, if_pos hlength]
  refine ⟨Char.ofNat (scalar b ys), ?_⟩
  rw [encodeChar_eq_cons h hpiece, htails]
  exact List.cons_prefix_cons.2 ⟨rfl, hbegins⟩

theorem Begins.exists_char {xs : Bytes} (h : Begins (b :: xs)) :
    ∃ c ts, xs <+: ts ∧ String.utf8EncodeChar c = b :: ts ∧ piece b ts = .char c := by
  obtain ⟨c, hc⟩ := h
  obtain ⟨b', ts, hencode, hpiece⟩ := piece_encodeChar c []
  rw [hencode] at hc
  obtain ⟨rfl, hxs⟩ := List.cons_prefix_cons.1 hc
  exact ⟨c, ts, hxs, hencode, by rwa [List.append_nil] at hpiece⟩

/-- Nothing longer than the continuation bytes that are found can come behind the first byte. -/
theorem Begins.length_le (hlead : lead? b = some lead) {xs : Bytes} (h : Begins (b :: xs))
    (hxs : xs <+: rest) : xs.length ≤ (tails lead.tails lead.low lead.high rest).length := by
  obtain ⟨c, ts, hts, hencode, hpiece⟩ := h.exists_char
  have hall : tails lead.tails lead.low lead.high ts = ts := by
    rw [encodeChar_eq_cons hlead hpiece, List.cons.injEq] at hencode
    exact hencode.2
  have hself := tails_take lead.tails lead.low lead.high ts xs.length
  have hrest := tails_take lead.tails lead.low lead.high rest xs.length
  rw [hall, ← List.prefix_iff_eq_take.1 hts] at hself
  rw [← List.prefix_iff_eq_take.1 hxs, hself] at hrest
  rw [hrest, List.length_take]
  exact Nat.min_le_right _ _

/-! ### What is read where no character begins -/

/-- Where no character is read, the maximal invalid sequence is. -/
theorem invalidSubpart_of_piece {n : Nat} {cut : Bool} (h : piece b rest = .invalid n cut) :
    InvalidSubpart (b :: rest) ((b :: rest).take n) ∧ n ≤ 3 := by
  have hpos := piece_invalid_le h
  have hlength : ((b :: rest).take n).length = n := by
    rw [List.length_take, List.length_cons, Nat.min_eq_left hpos.2]
  have hnone : ∀ c, ¬String.utf8EncodeChar c <+: b :: rest := by
    intro c hc
    rw [piece_eq_char_iff.2 hc] at h
    cases h
  have hascii : ¬b < 0x80 := fun hb => by
    rw [piece, if_pos hb] at h
    cases h
  have hne : (b :: rest).take n ≠ [] := List.ne_nil_of_length_pos (by omega)
  cases hlead : lead? b with
  | none =>
    rw [piece, if_neg hascii, hlead] at h
    cases h
    refine ⟨⟨hnone, List.take_prefix _ _, hne, .inr hlength, fun part' hpart' hbegins => ?_⟩,
      by decide⟩
    rw [hlength]
    cases part' with
    | nil => exact Nat.zero_le _
    | cons x xs =>
      obtain ⟨rfl, -⟩ := List.cons_prefix_cons.1 hpart'
      obtain ⟨c, ts, -, -, hpiece⟩ := hbegins.exists_char
      obtain ⟨lead, hsome⟩ := exists_lead_of_char hascii hpiece
      rw [hlead] at hsome
      cases hsome
  | some lead =>
    have hle := length_tails_le lead.tails lead.low lead.high rest
    have hthree := tails_le_three hlead
    rw [piece_of_lead hlead] at h
    dsimp only at h
    split at h
    · cases h
    rename_i hfew
    cases h
    have hpart : (b :: rest).take (1 + (tails lead.tails lead.low lead.high rest).length) =
        b :: tails lead.tails lead.low lead.high rest := by
      rw [Nat.add_comm, List.take_succ_cons, ← tails_eq_take]
    refine ⟨⟨hnone, List.take_prefix _ _, hne, .inl ?_, fun part' hpart' hbegins => ?_⟩, by omega⟩
    · rw [hpart]
      exact begins_tails hlead rest
    · rw [hlength]
      cases part' with
      | nil => exact Nat.zero_le _
      | cons x xs =>
        obtain ⟨rfl, hxs⟩ := List.cons_prefix_cons.1 hpart'
        have hbound := hbegins.length_le hlead hxs
        rw [List.length_cons]
        omega

namespace InvalidSubpart

theorem length_le_length (h : InvalidSubpart text part) (h' : InvalidSubpart text part') :
    part'.length ≤ part.length := by
  rcases h'.begins with hbegins | hone
  · exact h.longest part' h'.prefixed hbegins
  · rw [hone]
    exact List.length_pos_iff.2 h.nonempty

theorem unique (h : InvalidSubpart text part) (h' : InvalidSubpart text part') : part = part' := by
  have hlength := Nat.le_antisymm (h'.length_le_length h) (h.length_le_length h')
  rw [List.prefix_iff_eq_take.1 h.prefixed, List.prefix_iff_eq_take.1 h'.prefixed, hlength]

theorem exists_cons (h : InvalidSubpart text part) : ∃ b rest, text = b :: rest :=
  List.exists_cons_of_ne_nil fun hnil =>
    h.nonempty (List.prefix_nil.1 (hnil ▸ h.prefixed))

end InvalidSubpart

/-- The maximal invalid sequence is read where the text begins with no character. -/
theorem invalidSubpart_iff : InvalidSubpart (b :: rest) part ↔
    ∃ cut, piece b rest = .invalid part.length cut ∧ part <+: b :: rest := by
  constructor
  · intro h
    cases hp : piece b rest with
    | char c => exact absurd (piece_eq_char_iff.1 hp) (h.illFormed c)
    | invalid n cut =>
      obtain rfl := h.unique (invalidSubpart_of_piece hp).1
      have hle := (piece_invalid_le hp).2
      refine ⟨cut, ?_, h.prefixed⟩
      rw [List.length_take, List.length_cons, Nat.min_eq_left hle]
  · rintro ⟨cut, hp, hbegins⟩
    rw [List.prefix_iff_eq_take.1 hbegins]
    exact (invalidSubpart_of_piece hp).1

/-- A maximal invalid sequence has three bytes at most. -/
theorem InvalidSubpart.length_le (h : InvalidSubpart text part) : part.length ≤ 3 := by
  obtain ⟨b, rest, rfl⟩ := h.exists_cons
  obtain ⟨cut, hp, -⟩ := invalidSubpart_iff.1 h
  exact (invalidSubpart_of_piece hp).2

end Utf8

end Metadoc
