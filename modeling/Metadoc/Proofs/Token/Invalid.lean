import Metadoc.Proofs.Token.Joined
import Mathlib.Algebra.GroupWithZero.Nat

/-!
# Invalid sequences and tokens

The pieces of a text are those of its tokens, so no invalid sequence goes on from one token into the
next.

* `Utf8.InvalidAt` says where the maximal invalid sequences of a text are;
* `Token.settledPieces_eq_flatMap` : the pieces of a text are those of its tokens;
* `Token.holds_invalid` : an invalid sequence lies inside one comment or string literal, or is a
  token by itself.
-/

namespace Metadoc

namespace Utf8

/-- Whether a maximal invalid sequence of `n` bytes stands at a position of a text. -/
def InvalidAt (text : Bytes) (pos n : Nat) : Prop :=
  ∃ before cut after, pieces text = before ++ .invalid n cut :: after ∧
    (before.map Piece.length).sum = pos

theorem sum_length_settledPieces (bytes : Bytes) :
    ((settledPieces bytes).map Piece.length).sum = bytes.length := by
  rw [← length_shown bytes, shown_eq_flatMap, List.length_flatMap]
  simp only [length_shown_piece]

theorem isChar_of_mem_settledPieces {bytes : Bytes} (h : isValid bytes = true) {p : Piece}
    (hp : p ∈ settledPieces bytes) : p.isChar = true := by
  obtain ⟨q, hq, rfl⟩ := List.mem_map.1 hp
  have hchar := List.all_eq_true.1 h q hq
  cases q with
  | char c => rfl
  | invalid n cut => cases hchar

theorem InvalidAt.settled {text : Bytes} {pos n : Nat} (h : InvalidAt text pos n) :
    ∃ before after, settledPieces text = before ++ .invalid n false :: after ∧
      (before.map Piece.length).sum = pos := by
  obtain ⟨before, cut, after, hpieces, hpos⟩ := h
  refine ⟨before.map Piece.settled, after.map Piece.settled, ?_, ?_⟩
  · rw [settledPieces, hpieces, List.map_append, List.map_cons]
    rfl
  · rw [List.map_map, ← hpos]
    exact congrArg List.sum (List.map_congr_left fun p _ => Piece.length_settled p)

end Utf8

namespace Token

open Utf8

variable {pos n : Nat} {text : Bytes} {t : Token} {ts : List Token}

/-- The pieces of a token and of what is left are those of the text. -/
theorem settledPieces_cons (h : allFrom pos 0 text = t :: ts) :
    ∃ rest, text = t.bytes ++ rest ∧ allFrom (pos + t.length) 0 rest = ts ∧
      settledPieces text = settledPieces t.bytes ++ settledPieces rest := by
  obtain ⟨-, -, rest, rfl, hfirst, hlater⟩ := allFrom_eq_cons h
  have hsplit := Scan.splitsAt_first (t.bytes ++ rest)
  rw [hfirst, SplitsAt, length, List.take_left, List.drop_left] at hsplit
  exact ⟨rest, rfl, hlater, hsplit⟩

/-- The pieces of a text are those of its tokens. -/
theorem settledPieces_eq_flatMap : ∀ {ts : List Token} {pos : Nat} {text : Bytes},
    allFrom pos 0 text = ts → settledPieces text = ts.flatMap fun t => settledPieces t.bytes
  | [], pos, text, h => by
    have hbytes := flatMap_bytes_allFrom text pos 0
    rw [h, List.drop_zero] at hbytes
    rw [← hbytes]
    rfl
  | t :: ts, _, _, h => by
    obtain ⟨rest, -, hlater, hpieces⟩ := settledPieces_cons h
    rw [hpieces, settledPieces_eq_flatMap hlater]
    rfl

theorem exists_mem_of_settledPieces {p : Utf8.Piece} {after : List Utf8.Piece} :
    ∀ {ts : List Token} {pos : Nat} {text : Bytes} {before : List Utf8.Piece},
      allFrom pos 0 text = ts → settledPieces text = before ++ p :: after →
      ∃ t ∈ ts, ∃ before' after', settledPieces t.bytes = before' ++ p :: after' ∧
        t.start + (before'.map Utf8.Piece.length).sum = pos + (before.map Utf8.Piece.length).sum
  | [], pos, text, before, h, hp => by
    rw [settledPieces_eq_flatMap h] at hp
    simp at hp
  | t :: ts, pos, text, before, h, hp => by
    obtain ⟨-, hstart, -⟩ := allFrom_eq_cons h
    obtain ⟨rest, -, hlater, hpieces⟩ := settledPieces_cons h
    rw [hpieces] at hp
    rcases List.append_eq_append_iff.1 hp with ⟨mid, hbefore, hrest⟩ | ⟨mid, htoken, hrest⟩
    · -- The piece lies behind the token.
      obtain ⟨u, hu, before', after', hmem, hsum⟩ := exists_mem_of_settledPieces hlater hrest
      refine ⟨u, List.mem_cons_of_mem t hu, before', after', hmem, ?_⟩
      rw [hsum, hbefore, List.map_append, List.sum_append, sum_length_settledPieces, length,
        Nat.add_assoc]
    · cases mid with
      | nil =>
        rw [List.nil_append] at hrest
        obtain ⟨u, hu, before', after', hmem, hsum⟩ :=
          @exists_mem_of_settledPieces _ _ _ _ _ [] hlater hrest.symm
        refine ⟨u, List.mem_cons_of_mem t hu, before', after', hmem, ?_⟩
        rw [List.append_nil] at htoken
        rw [hsum, ← htoken, sum_length_settledPieces, length]
        rfl
      | cons q mid =>
        rw [List.cons_append, List.cons.injEq] at hrest
        obtain ⟨rfl, -⟩ := hrest
        exact ⟨t, List.mem_cons_self, before, mid, htoken, by rw [hstart]⟩

/-- A token that holds an invalid sequence is a comment, a string literal or that sequence. -/
theorem kind_of_invalid {rest : Bytes} {b : UInt8} (h : t = ofHead t.start (b :: rest))
    (hmem : .invalid n false ∈ settledPieces t.bytes) :
    t.kind = .comment ∨ t.kind = .string ∨
      (t.kind = .badCharacter ∧ settledPieces t.bytes = [.invalid t.length false]) := by
  have hreads := Scan.reads_first b rest
  have hkind : t.kind = (Scan.first (b :: rest)).kind := by
    rw [h]
    rfl
  have hlength : t.length = (Scan.first (b :: rest)).length := by rw [h, length_ofHead]
  have hbytes : t.bytes = (b :: rest).take (Scan.first (b :: rest)).length := by
    rw [h]
    rfl
  rw [hkind, hlength]
  rw [hbytes] at hmem ⊢
  generalize Scan.first (b :: rest) = scan at hreads hmem ⊢
  by_cases hbreak : scan.MayBreak
  · cases hreads with
    | line slash next => exact .inl rfl
    | block slash star => exact .inl rfl
    | literal opens => exact .inr (.inl rfl)
    | broken bare beyond char =>
      obtain ⟨cut, hpiece⟩ := Scan.broken_of_character char
      exact .inr (.inr ⟨rfl, (splitsAt_of_invalid hpiece).2⟩)
    | _ => simp [Scan.MayBreak] at hbreak
  · cases isChar_of_mem_settledPieces (hreads.isValid hbreak) hmem

/-- Whether a token takes a part of a text whole: a comment or a string literal around it, or a bad
character that is no more. -/
def Holds (t : Token) (pos n : Nat) : Prop :=
  ((t.kind = .comment ∨ t.kind = .string) ∧ t.start ≤ pos ∧ pos + n ≤ t.stop) ∨
    (t.kind = .badCharacter ∧ t.start = pos ∧ t.length = n)

/-- Each invalid sequence of a text lies inside one comment or string literal, or is a bad character
by itself. -/
theorem holds_invalid (h : InvalidAt text pos n) : ∃ t ∈ all text 0, t.Holds pos n := by
  obtain ⟨before, after, hpieces, rfl⟩ := h.settled
  have hall : allFrom 0 0 text = all text 0 := by rw [all, Nat.zero_min, List.drop_zero]
  obtain ⟨t, ht, before', after', hp, hsum⟩ := exists_mem_of_settledPieces hall hpieces
  rw [Nat.zero_add] at hsum
  refine ⟨t, ht, ?_⟩
  have hmem : .invalid n false ∈ settledPieces t.bytes := by
    rw [hp]
    exact List.mem_append_right _ List.mem_cons_self
  have hinside : t.start ≤ (before.map Utf8.Piece.length).sum ∧
      (before.map Utf8.Piece.length).sum + n ≤ t.stop := by
    have hlength := sum_length_settledPieces t.bytes
    rw [hp, List.map_append, List.sum_append, List.map_cons, List.sum_cons] at hlength
    rw [stop, length, ← hlength, ← hsum]
    simp only [Utf8.Piece.length]
    omega
  obtain ⟨b, rest, -, hhead⟩ := exists_of_mem_all ht
  rcases kind_of_invalid hhead hmem with hk | hk | ⟨hk, hone⟩
  · exact .inl ⟨.inl hk, hinside⟩
  · exact .inl ⟨.inr hk, hinside⟩
  · -- The sequence is all that the token holds.
    cases before' with
    | cons q before' =>
      have hlength := congrArg List.length (hone.symm.trans hp)
      simp at hlength
    | nil =>
      rw [hone, List.nil_append, List.cons.injEq, Utf8.Piece.invalid.injEq] at hp
      exact .inr ⟨hk, hsum, hp.1.1⟩

end Token

end Metadoc
