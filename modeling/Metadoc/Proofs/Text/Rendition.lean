import Metadoc.Proofs.Text.Subparts

/-!
# What is shown, byte by byte

A text is cut from its start into characters and maximal invalid sequences.  What is shown for it is
the text itself, but for a question mark at each byte of an invalid sequence.

* `Utf8.WithinInvalid` says that a position of a text lies in a maximal invalid sequence;
* `Utf8.cut_induction` is induction over the characters and invalid sequences of a text;
* `Utf8.getElem?_shown_of_withinInvalid` and `Utf8.getElem?_shown_of_not_withinInvalid` : what is
  shown at a position;
* `Utf8.map_eq_lineFeed_shown` : line feeds are shown, and nothing else is shown as one.
-/

namespace Metadoc

namespace Utf8

/-- Whether a position of a text lies in a maximal invalid sequence, when the text is cut from its
start into characters and maximal invalid sequences. -/
inductive WithinInvalid : Bytes → Nat → Prop
  /-- In the sequence that the text begins with. -/
  | inside {text part pos} (h : InvalidSubpart text part) (hpos : pos < part.length) :
      WithinInvalid text pos
  /-- Behind the sequence that the text begins with. -/
  | behindInvalid {part rest pos} (h : InvalidSubpart (part ++ rest) part)
      (hrest : WithinInvalid rest pos) : WithinInvalid (part ++ rest) (part.length + pos)
  /-- Behind the character that the text begins with. -/
  | behindChar {c rest pos} (hrest : WithinInvalid rest pos) :
      WithinInvalid (String.utf8EncodeChar c ++ rest) (c.utf8Size + pos)

variable {text part rest : Bytes} {pos : Nat}

/-! ### Cutting a text -/

theorem exists_invalidSubpart_append {b : UInt8} {xs : Bytes} {n : Nat} {cut : Bool}
    (h : piece b xs = .invalid n cut) :
    ∃ part rest, b :: xs = part ++ rest ∧ InvalidSubpart (part ++ rest) part := by
  obtain ⟨hpart, -⟩ := invalidSubpart_of_piece h
  refine ⟨(b :: xs).take n, (b :: xs).drop n, (List.take_append_drop n _).symm, ?_⟩
  rwa [List.take_append_drop]

/-- What holds of the empty text, and of a text when it holds of what comes after the character or
the maximal invalid sequence that the text begins with, holds of every text. -/
theorem cut_induction {P : Bytes → Prop} (nil : P [])
    (char : ∀ c rest, P rest → P (String.utf8EncodeChar c ++ rest))
    (invalid : ∀ part rest, InvalidSubpart (part ++ rest) part → P rest → P (part ++ rest))
    (text : Bytes) : P text := by
  -- A piece may be several bytes long, so the induction is on a bound for the length.
  obtain ⟨n, hn⟩ : ∃ n, text.length ≤ n := ⟨_, Nat.le_refl _⟩
  induction n generalizing text with
  | zero => rwa [List.length_eq_zero_iff.1 (Nat.le_zero.1 hn)]
  | succ n ih =>
    cases text with
    | nil => exact nil
    | cons b xs =>
      cases hp : piece b xs with
      | char c =>
        obtain ⟨rest, hrest⟩ := encodeChar_of_piece hp
        have hlength := congrArg List.length hrest
        have hpos := c.utf8Size_pos
        rw [List.length_append, String.length_utf8EncodeChar] at hlength
        rw [hrest]
        exact char c rest (ih rest (by omega))
      | invalid k cut =>
        obtain ⟨part, rest, hrest, hpart⟩ := exists_invalidSubpart_append hp
        have hlength := congrArg List.length hrest
        have hpos := List.length_pos_iff.2 hpart.nonempty
        rw [List.length_append] at hlength
        rw [hrest]
        exact invalid part rest hpart (ih rest (by omega))

theorem shown_encodeChar_append (c : Char) (rest : Bytes) :
    shown (String.utf8EncodeChar c ++ rest) = String.utf8EncodeChar c ++ shown rest := by
  rw [shown, pieces_encodeChar_append, List.flatMap_cons]
  rfl

/-- A maximal invalid sequence is shown as question marks, one for each byte. -/
theorem InvalidSubpart.shown_append (h : InvalidSubpart (part ++ rest) part) :
    shown (part ++ rest) = List.replicate part.length 0x3F ++ shown rest := by
  obtain ⟨b, xs, rfl⟩ := List.exists_cons_of_ne_nil h.nonempty
  rw [List.cons_append] at h ⊢
  obtain ⟨cut, hp, -⟩ := invalidSubpart_iff.1 h
  rw [shown_cons, hp, Piece.length, List.length_cons, Nat.add_sub_cancel, List.drop_left]
  rfl

theorem InvalidSubpart.not_ascii (h : InvalidSubpart text part) : ∀ b ∈ part, ¬b < 0x80 := by
  obtain ⟨b, xs, rfl⟩ := h.exists_cons
  obtain ⟨cut, hp, hprefix⟩ := invalidSubpart_iff.1 h
  obtain ⟨y, ys, rfl⟩ := List.exists_cons_of_ne_nil h.nonempty
  obtain ⟨rfl, hys⟩ := List.cons_prefix_cons.1 hprefix
  intro t ht
  rcases List.mem_cons.1 ht with rfl | ht
  · intro hascii
    rw [piece, if_pos hascii] at hp
    cases hp
  · have htail : isTail t = true := by
      refine @isTail_of_mem_piece y xs t ?_
      rwa [hp, Piece.length, List.length_cons, Nat.add_sub_cancel, ← List.prefix_iff_eq_take.1 hys]
    intro hascii
    rw [isTail_of_ascii hascii] at htail
    cases htail

/-! ### What is shown at a position -/

theorem getElem?_shown_of_withinInvalid (h : WithinInvalid text pos) :
    (shown text)[pos]? = some 0x3F := by
  induction h with
  | @inside text part pos h hpos =>
    obtain ⟨rest, rfl⟩ := h.prefixed
    rw [h.shown_append, List.getElem?_append_left (by rwa [List.length_replicate]),
      List.getElem?_replicate_of_lt hpos]
  | @behindInvalid part rest pos h hrest ih =>
    rw [h.shown_append, List.getElem?_append_right (by rw [List.length_replicate]; omega),
      List.length_replicate, Nat.add_sub_cancel_left, ih]
  | @behindChar c rest pos hrest ih =>
    rw [shown_encodeChar_append, List.getElem?_append_right (by simp),
      String.length_utf8EncodeChar, Nat.add_sub_cancel_left, ih]

theorem getElem?_shown_of_not_withinInvalid (h : ¬WithinInvalid text pos) :
    (shown text)[pos]? = text[pos]? := by
  induction text using cut_induction generalizing pos with
  | nil => rfl
  | char c rest ih =>
    rw [shown_encodeChar_append]
    rcases Nat.lt_or_ge pos c.utf8Size with hlt | hge
    · rw [List.getElem?_append_left (by simpa using hlt),
        List.getElem?_append_left (by simpa using hlt)]
    · obtain ⟨k, rfl⟩ := Nat.exists_eq_add_of_le hge
      rw [List.getElem?_append_right (by simp), List.getElem?_append_right (by simp),
        String.length_utf8EncodeChar, Nat.add_sub_cancel_left]
      exact ih fun hk => h (.behindChar hk)
  | invalid part rest hpart ih =>
    rcases Nat.lt_or_ge pos part.length with hlt | hge
    · exact absurd (.inside hpart hlt) h
    · obtain ⟨k, rfl⟩ := Nat.exists_eq_add_of_le hge
      rw [hpart.shown_append, List.getElem?_append_right (by simp),
        List.getElem?_append_right (by simp), List.length_replicate, Nat.add_sub_cancel_left]
      exact ih fun hk => h (.behindInvalid hpart hk)

/-- Line feeds are shown as they are, and nothing else is shown as one. -/
theorem map_eq_lineFeed_shown (text : Bytes) :
    (shown text).map (· == Bytes.lineFeed) = text.map (· == Bytes.lineFeed) := by
  induction text using cut_induction with
  | nil => rfl
  | char c rest ih => rw [shown_encodeChar_append, List.map_append, List.map_append, ih]
  | invalid part rest hpart ih =>
    rw [hpart.shown_append, List.map_append, List.map_append, ih, List.map_replicate]
    refine congrArg (· ++ _) (List.eq_replicate_iff.2 ⟨by simp, ?_⟩).symm
    refine List.forall_mem_map.2 fun b hb => beq_eq_false_iff_ne.2 ?_
    rintro rfl
    exact hpart.not_ascii _ hb (by decide)

end Utf8

end Metadoc
