import Metadoc.Proofs.Text.Encoding
import Metadoc.Source

/-!
# Boundaries of a shown text

A place is a boundary of what is shown for a text where no character goes on.  Inside an invalid
sequence each place is one, for each of its bytes is shown by itself.

* `Utf8.isTail_of_mem_piece` : a piece goes on with bytes that continue a character;
* `Utf8.drop_shown_of_isBoundary` : what is shown from a boundary on is what is shown for the text
  from there on.
-/

namespace Metadoc

namespace Utf8

variable {b : UInt8} {xs ys : Bytes}

/-! ### Bytes that continue a character -/

theorem isTail_of_mem_tail_encodeChar {c : Char} {t : UInt8}
    (h : t ∈ (String.utf8EncodeChar c).tail) : isTail t = true := by
  have htail (n : Nat) : isTail (UInt8.ofNat (n % 64 + 128)) = true := by
    have hn : (UInt8.ofNat (n % 64 + 128)).toNat = n % 64 + 128 := toNat_ofNat_byte (by omega)
    simp only [isTail, Bool.and_eq_true, decide_eq_true_eq, UInt8.le_iff_toNat_le, hn]
    simp only [UInt8.reduceToNat]
    omega
  unfold String.utf8EncodeChar at h
  dsimp only at h
  split at h
  · cases h
  split at h
  · obtain rfl := List.mem_singleton.1 h
    exact htail _
  split at h
  · simp only [List.tail_cons, List.mem_cons, List.not_mem_nil, or_false] at h
    rcases h with rfl | rfl <;> exact htail _
  · simp only [List.tail_cons, List.mem_cons, List.not_mem_nil, or_false] at h
    rcases h with rfl | rfl | rfl <;> exact htail _

theorem isTail_of_mem_tails {n : Nat} {low high : UInt8} {t : UInt8}
    (hrange : ∀ t, low ≤ t ∧ t ≤ high → isTail t = true)
    (h : t ∈ tails n low high xs) : isTail t = true := by
  induction xs generalizing n low high with
  | nil => cases n <;> cases h
  | cons x xs ih =>
    cases n with
    | zero => cases h
    | succ n =>
      unfold tails at h
      split at h
      · rename_i hx
        rcases List.mem_cons.1 h with rfl | h
        · exact hrange t hx
        · exact ih (fun t ht => by simpa [isTail] using ht) h
      · cases h

theorem tails_eq_take (n : Nat) (low high : UInt8) (xs : Bytes) :
    tails n low high xs = xs.take (tails n low high xs).length := by
  induction xs generalizing n low high with
  | nil => cases n <;> rfl
  | cons x xs ih =>
    cases n with
    | zero => rfl
    | succ n =>
      unfold tails
      split
      · rw [List.length_cons, List.take_succ_cons, ← ih]
      · rfl

/-- The bytes of a piece behind its first are those that continue a character. -/
theorem isTail_of_mem_piece {rest : Bytes} {t : UInt8}
    (h : t ∈ rest.take ((piece b rest).length - 1)) : isTail t = true := by
  cases hp : piece b rest with
  | char c =>
    have hsplit := drop_length_piece hp
    obtain ⟨x, ts, hencode, -⟩ := piece_encodeChar c []
    have hsize : c.utf8Size - 1 = ts.length := by
      rw [← String.length_utf8EncodeChar, hencode]
      rfl
    rw [hencode, List.cons_append, List.cons.injEq] at hsplit
    simp only [hp, Piece.length, hsize] at h
    rw [hsplit.2, List.take_left] at h
    exact isTail_of_mem_tail_encodeChar (c := c) (by rwa [hencode])
  | invalid n cut =>
    rw [hp] at h
    unfold piece at hp
    split at hp
    · cases hp
    split at hp
    · cases hp
      exact absurd h (by simp [Piece.length])
    · rename_i lead hlead
      dsimp only at hp
      split at hp <;> cases hp
      simp only [Piece.length, Nat.add_sub_cancel_left] at h
      rw [← tails_eq_take] at h
      exact isTail_of_mem_tails (fun _ ht => isTail_of_mem_range hlead ht) h

theorem piece_of_isTail (h : isTail b = true) (rest : Bytes) : piece b rest = .invalid 1 false := by
  simp only [isTail, Bool.and_eq_true, decide_eq_true_eq, UInt8.le_iff_toNat_le] at h
  simp only [UInt8.reduceToNat] at h
  have hascii : ¬b < 0x80 := by
    simp only [UInt8.lt_iff_toNat_lt, UInt8.reduceToNat]
    omega
  have hlead : lead? b = none := by
    cases hl : lead? b with
    | none => rfl
    | some lead => rcases lead?_cases hl with ⟨-, hb⟩ | ⟨-, hb, -⟩ | ⟨-, hb, -⟩ <;> omega
  rw [piece, if_neg hascii, hlead]

/-- Bytes that continue a character are shown one by one where no character begins. -/
theorem shown_tails_append (h : ∀ t ∈ xs, isTail t = true) (ys : Bytes) :
    shown (xs ++ ys) = List.replicate xs.length 0x3F ++ shown ys := by
  induction xs with
  | nil => rfl
  | cons x xs ih =>
    have hx := piece_of_isTail (h x List.mem_cons_self) (xs ++ ys)
    rw [List.cons_append, shown_cons, hx]
    exact congrArg (0x3F :: ·) (ih fun t ht => h t (List.mem_cons_of_mem x ht))

/-! ### Places in a shown text -/

/-- Inside a character no place is a boundary, and inside an invalid sequence every place is. -/
theorem drop_shown_of_lt {rest : Bytes} {k : Nat} (hk : k + 1 < (piece b rest).length)
    (h : (shown (b :: rest)).isBoundary (k + 1) = true) :
    (shown (b :: rest)).drop (k + 1) = shown (rest.drop k) := by
  have hle := piece_length_le b rest
  have hlength := length_shown_piece (piece b rest)
  rw [shown_cons] at h ⊢
  rw [List.drop_append_of_le_length (by omega)]
  cases hp : piece b rest with
  | char c =>
    rw [hp] at hk hlength h
    have hcons : (String.utf8EncodeChar c).drop (k + 1) ≠ [] := by
      rw [Ne, List.drop_eq_nil_iff]
      exact Nat.not_le_of_gt (hlength ▸ hk)
    obtain ⟨t, ts, ht⟩ := List.exists_cons_of_ne_nil hcons
    have htail : isTail t = true := by
      refine isTail_of_mem_tail_encodeChar (c := c) ?_
      rw [← List.drop_one]
      have hmem : t ∈ ((String.utf8EncodeChar c).drop 1).drop k := by
        rw [List.drop_drop, Nat.add_comm, ht]
        exact List.mem_cons_self
      exact List.mem_of_mem_drop hmem
    have hdrop :
        ((Piece.char c).shown ++ shown (rest.drop ((Piece.char c).length - 1))).drop (k + 1)
        = t :: (ts ++ shown (rest.drop ((Piece.char c).length - 1))) := by
      rw [List.drop_append_of_le_length (Nat.le_of_lt (hlength ▸ hk))]
      exact congrArg (· ++ _) ht
    rw [Bytes.isBoundary, hdrop] at h
    simp [htail] at h
  | invalid n cut =>
    rw [hp] at hk hle
    simp only [Piece.length] at hk hle ⊢
    have hsplit := (List.take_append_drop (n - 1 - k) (rest.drop k)).symm
    rw [List.drop_drop, Nat.add_sub_cancel' (by omega)] at hsplit
    have htails : ∀ t ∈ (rest.drop k).take (n - 1 - k), isTail t = true := by
      intro t ht
      refine @isTail_of_mem_piece b rest t ?_
      rw [hp]
      rw [← List.drop_take] at ht
      exact List.mem_of_mem_drop ht
    rw [hsplit, shown_tails_append htails, Piece.shown, List.drop_replicate, List.length_take,
      List.length_drop, Nat.min_eq_left (by omega), Nat.add_comm k, ← Nat.sub_sub]

/-- What is shown from a place on where no character goes on is what is shown for the text from
there on.  The place may lie inside an invalid sequence. -/
theorem drop_shown_of_isBoundary {text : Bytes} {pos : Nat}
    (h : (shown text).isBoundary pos = true) : (shown text).drop pos = shown (text.drop pos) := by
  -- A piece may be several bytes long, so the induction is on a bound for the length.
  obtain ⟨n, hn⟩ : ∃ n, text.length ≤ n := ⟨_, Nat.le_refl _⟩
  induction n generalizing text pos with
  | zero =>
    rw [List.length_eq_zero_iff.1 (Nat.le_zero.1 hn)]
    simp
  | succ n ih =>
    cases text with
    | nil => simp
    | cons b rest =>
      simp only [List.length_cons] at hn
      rcases Nat.lt_or_ge pos (piece b rest).length with hlt | hge
      · cases pos with
        | zero => rw [List.drop_zero, List.drop_zero]
        | succ k =>
          rw [List.drop_succ_cons]
          exact drop_shown_of_lt hlt h
      · have hpos := piece_length_pos b rest
        obtain ⟨k, rfl⟩ := Nat.exists_eq_add_of_le hge
        have hrest : (shown (b :: rest)).drop (piece b rest).length =
            shown (rest.drop ((piece b rest).length - 1)) := by
          rw [shown_cons, ← length_shown_piece, List.drop_left]
        have hdrop : (b :: rest).drop ((piece b rest).length + k) =
            (rest.drop ((piece b rest).length - 1)).drop k := by
          obtain ⟨m, hm⟩ := Nat.exists_eq_add_of_le' hpos
          rw [hm, Nat.add_sub_cancel, List.drop_drop, Nat.add_right_comm, List.drop_succ_cons]
        rw [← List.drop_drop, hrest, hdrop]
        refine ih ?_ (by rw [List.length_drop]; omega)
        have hle := piece_length_le b rest
        rw [← hrest, Bytes.isBoundary_drop _ _ (by rw [length_shown, List.length_cons]; exact hle)]
        exact h

end Utf8

end Metadoc
