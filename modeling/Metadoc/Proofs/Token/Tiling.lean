import Metadoc.Token.Lexer
import Metadoc.Proofs.Text.Utf8

/-!
# Tokens tile the text

* `Scan.length_pos` : a token holds at least one byte;
* `Token.flatMap_bytes_all` : the tokens of a text, put together, are the text;
* `Token.exists_of_mem_all` : each token is read from what follows its place in the text;
* `Token.exists_mem_all_of_lt` : each position of a text lies in a token.
-/

namespace Metadoc

namespace Scan

open Ascii

theorem nameLength_pos_of_isWord {b : UInt8} {rest : Bytes} (h : isWord b = true) :
    0 < nameLength (b :: rest) := by
  simp [nameLength, nameLengthFrom, h]

theorem nameLength_pos_of_char {b : UInt8} {rest : Bytes} {c : Char}
    (hc : character b rest = .char c) (ha : CharClass.isAlphanumeric c = true)
    (hb : isAscii b = false) : 0 < nameLength (b :: rest) := by
  by_cases hw : isWord b = true
  · exact nameLength_pos_of_isWord hw
  · simp [nameLength, nameLengthFrom, hw, hb, hc, ha]

theorem literal_length_pos (quote : Quote) (rest : Bytes) : 0 < (literal quote rest).length := by
  refine Nat.add_pos_left ?_ _
  unfold StringStyle.width
  split <;> decide

theorem beyondAscii_length_pos {b : UInt8} {rest : Bytes} (hb : isAscii b = false) :
    0 < (beyondAscii b rest).length := by
  have hpos := Utf8.piece_length_pos b (rest.take (window - 1))
  unfold beyondAscii
  split
  · rename_i c hc
    split
    · rename_i ha
      exact nameLength_pos_of_char hc ha hb
    · exact Char.utf8Size_pos c
  · rename_i n _ hc
    rwa [show Utf8.piece b (rest.take (window - 1)) = .invalid n _ from hc] at hpos

/-- A token holds at least one byte. -/
theorem length_pos (b : UInt8) (rest : Bytes) : 0 < (first (b :: rest)).length := by
  simp only [first, ofCons]
  split
  · exact Nat.succ_pos _
  split
  · exact Nat.succ_pos _
  split
  · exact Nat.succ_pos _
  split
  · exact literal_length_pos _ _
  split
  · exact Nat.succ_pos _
  split
  · rename_i hl
    exact nameLength_pos_of_isWord (by simp [isWord, hl])
  split
  · exact Nat.one_pos
  split
  · exact Nat.one_pos
  · rename_i ha
    exact beyondAscii_length_pos (Bool.eq_false_iff.2 ha)

end Scan

namespace Token

theorem ofHead_bytes (pos : Nat) (b : UInt8) (rest : Bytes) :
    ∃ n, (ofHead pos (b :: rest)).bytes = b :: rest.take n := by
  obtain ⟨n, hn⟩ := Nat.exists_eq_add_of_lt (Scan.length_pos b rest)
  refine ⟨n, ?_⟩
  simp [ofHead, Scan.place, hn]

theorem flatMap_bytes_allFrom (bytes : Bytes) :
    ∀ pos k, (allFrom pos k bytes).flatMap Token.bytes = bytes.drop k := by
  induction bytes with
  | nil => intro pos k; simp [allFrom]
  | cons b rest ih =>
    intro pos k
    cases k with
    | succ k => simpa [allFrom] using ih (pos + 1) k
    | zero =>
      obtain ⟨n, hn⟩ := ofHead_bytes pos b rest
      have hlen : (ofHead pos (b :: rest)).length - 1 = min n rest.length := by
        simp [length, hn]
      rw [allFrom, List.flatMap_cons, ih, hlen, hn, List.drop_zero, List.cons_append]
      rcases Nat.le_total n rest.length with h | h
      · rw [Nat.min_eq_left h, List.take_append_drop]
      · simp [Nat.min_eq_right h, List.take_of_length_le h]

/-- The tokens of a text, put together, are the text. -/
theorem flatMap_bytes_all (text : Bytes) : (all text 0).flatMap Token.bytes = text := by
  simp [all, flatMap_bytes_allFrom]

theorem exists_of_mem_allFrom {bytes : Bytes} {t : Token} :
    ∀ {pos k : Nat}, t ∈ allFrom pos k bytes →
      ∃ b rest, bytes.drop (t.start - pos) = b :: rest ∧ t = ofHead t.start (b :: rest) := by
  induction bytes with
  | nil => intro pos k h; simp [allFrom] at h
  | cons b rest ih =>
    intro pos k h
    -- A token that does not begin here begins further on.
    have later {k : Nat} (hk : t ∈ allFrom (pos + 1) k rest) :
        ∃ b' rest', (b :: rest).drop (t.start - pos) = b' :: rest' ∧
          t = ofHead t.start (b' :: rest') := by
      have hle := le_start_of_mem_allFrom hk
      have hd : t.start - pos = (t.start - (pos + 1)) + 1 := by omega
      rw [hd, List.drop_succ_cons]
      exact ih hk
    cases k with
    | succ k => exact later h
    | zero =>
      rcases List.mem_cons.1 h with h | h
      · have hs : t.start = pos := by subst h; rfl
        exact ⟨b, rest, by rw [hs, Nat.sub_self, List.drop_zero], by rw [hs]; exact h⟩
      · exact later h

/-- Each token is read from what follows its place in the text. -/
theorem exists_of_mem_all {text : Bytes} {t : Token} (h : t ∈ all text 0) :
    ∃ b rest, text.drop t.start = b :: rest ∧ t = ofHead t.start (b :: rest) := by
  simpa using exists_of_mem_allFrom h

theorem bytes_ne_nil_of_mem_all {text : Bytes} {t : Token} (h : t ∈ all text 0) :
    t.bytes ≠ [] := by
  obtain ⟨b, rest, -, ht⟩ := exists_of_mem_all h
  obtain ⟨n, hn⟩ := ofHead_bytes t.start b rest
  rw [ht, hn]
  exact List.cons_ne_nil _ _

theorem exists_append_of_mem_all {text : Bytes} {t : Token} (h : t ∈ all text 0) :
    ∃ after, text = text.take t.start ++ t.bytes ++ after := by
  obtain ⟨b, rest, hdrop, ht⟩ := exists_of_mem_all h
  obtain ⟨n, hn⟩ := ofHead_bytes t.start b rest
  refine ⟨rest.drop n, ?_⟩
  rw [ht, hn, List.append_assoc, List.cons_append, List.take_append_drop, ← ht, ← hdrop,
    List.take_append_drop]

theorem exists_mem_allFrom_of_lt {bytes : Bytes} :
    ∀ {pos k i : Nat}, k ≤ i → i < bytes.length →
      ∃ t ∈ allFrom pos k bytes, t.start ≤ pos + i ∧ pos + i < t.stop := by
  induction bytes with
  | nil => intro pos k i _ h; cases h
  | cons b rest ih =>
    intro pos k i hk hi
    have later {k : Nat} (hk : k < i) :
        ∃ t ∈ allFrom (pos + 1) k rest, t.start ≤ pos + i ∧ pos + i < t.stop := by
      have hlt : i - 1 < rest.length := by
        rw [List.length_cons] at hi
        omega
      obtain ⟨t, ht, hle, hlt⟩ := @ih (pos + 1) k (i - 1) (by omega) hlt
      exact ⟨t, ht, by omega, by omega⟩
    cases k with
    | succ k => exact later hk
    | zero =>
      by_cases hin : i < (ofHead pos (b :: rest)).length
      · refine ⟨_, List.mem_cons_self, Nat.le_add_right _ _, ?_⟩
        exact Nat.add_lt_add_left hin _
      · have hpos : 0 < (ofHead pos (b :: rest)).length := by
          obtain ⟨n, hn⟩ := ofHead_bytes pos b rest
          simp [length, hn]
        obtain ⟨t, ht, hle, hlt⟩ := later (k := (ofHead pos (b :: rest)).length - 1) (by omega)
        exact ⟨t, List.mem_cons_of_mem _ ht, hle, hlt⟩

/-- Each position of a text lies in a token. -/
theorem exists_mem_all_of_lt {text : Bytes} {pos : Nat} (h : pos < text.length) :
    ∃ t ∈ all text 0, t.start ≤ pos ∧ pos < t.stop := by
  simpa [all] using @exists_mem_allFrom_of_lt text 0 0 pos (Nat.zero_le pos) h

end Token

end Metadoc
