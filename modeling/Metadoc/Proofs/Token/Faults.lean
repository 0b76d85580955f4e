import Metadoc.Proofs.Text.Utf8
import Metadoc.Proofs.Token.Tiling

/-!
# Faults of tokens

* `Token.Clean` says that a token has no fault, and that it is well-formed unless it is a comment;
* `Token.clean_of_isTrivia`, `Token.error_of_symbol` : trivia and symbols that are read have no
  faults but those that are recorded on them;
* `Token.plain_of_kind` : names and numbers have neither delimiters nor faults.
-/

namespace Metadoc

/-- Whether a token has no fault, and is well-formed unless it is a comment. -/
structure Token.Clean (t : Token) : Prop where
  /-- No fault is recorded. -/
  error : t.error = none
  /-- Nothing but a comment may be ill-formed. -/
  valid : t.kind = .comment ∨ Utf8.isValid t.bytes = true

namespace Scan

open Ascii

/-- What the lexer promises of a token before it is placed. -/
structure Honest (bytes : Bytes) (scan : Scan) : Prop where
  /-- Symbols are without fault. -/
  symbol : scan.kind = .symbol → scan.error = none
  /-- A comment, a run of blanks, or something with a fault. -/
  trivia : scan.kind.isTrivia = true → scan.error = none →
    scan.kind = .comment ∨ ∀ b ∈ bytes.take scan.length, b < 0x80
  /-- Names and numbers are without delimiters and without fault. -/
  plain : scan.kind = .identifier ∨ scan.kind = .numeric → scan.style = none ∧ scan.error = none

theorem lt_of_isBlank {b : UInt8} (h : isBlank b = true) : b < 0x80 := by
  simp only [isBlank, Bool.or_eq_true, beq_iff_eq] at h
  rcases h with ((((h | h) | h) | h) | h) | h <;> subst h <;> decide

theorem honest_whitespace {b : UInt8} {rest : Bytes} (h : isBlank b = true) :
    Honest (b :: rest)
      { kind := .whitespace, length := (rest.takeWhile isBlank).length + 1 } := by
  refine ⟨nofun, fun _ _ => .inr fun x hx => ?_, nofun⟩
  rw [List.take_succ_cons] at hx
  rcases List.mem_cons.1 hx with rfl | hx
  · exact lt_of_isBlank h
  · have hprefix := List.prefix_iff_eq_take.1 (List.takeWhile_prefix isBlank (l := rest))
    rw [← hprefix] at hx
    exact lt_of_isBlank (List.all_eq_true.1 List.all_takeWhile x hx)

theorem honest_string {bytes : Bytes} {scan : Scan} (h : scan.kind = .string) :
    Honest bytes scan := by
  constructor <;> simp [h, TokenKind.isTrivia]

theorem honest_plain {bytes : Bytes} {scan : Scan}
    (h : scan.kind = .identifier ∨ scan.kind = .numeric)
    (hplain : scan.style = none ∧ scan.error = none) : Honest bytes scan := by
  constructor <;> rcases h with h | h <;> simp [h, hplain, TokenKind.isTrivia]

theorem honest_comment {bytes : Bytes} {scan : Scan} (h : scan.kind = .comment) :
    Honest bytes scan := by
  constructor <;> simp [h]

theorem honest_symbol {bytes : Bytes} {scan : Scan} (h : scan.kind = .symbol)
    (he : scan.error = none) : Honest bytes scan := by
  constructor <;> simp [h, he, TokenKind.isTrivia]

theorem honest_fault {bytes : Bytes} {scan : Scan} (h : scan.kind = .badCharacter)
    (he : scan.error ≠ none) : Honest bytes scan := by
  constructor <;> simp [h, he]

/-- Tokens keep the promise of the lexer. -/
theorem honest_first (b : UInt8) (rest : Bytes) : Honest (b :: rest) (first (b :: rest)) := by
  simp only [first, ofCons]
  split
  · rename_i h
    exact honest_whitespace h
  split
  · exact honest_comment rfl
  split
  · exact honest_comment rfl
  split
  · exact honest_string rfl
  split
  · exact honest_plain (.inr rfl) ⟨rfl, rfl⟩
  split
  · exact honest_plain (.inl rfl) ⟨rfl, rfl⟩
  split
  · exact honest_symbol rfl rfl
  split
  · exact honest_fault rfl (Option.some_ne_none _)
  unfold beyondAscii
  split
  · split
    · exact honest_plain (.inl rfl) ⟨rfl, rfl⟩
    · exact honest_symbol rfl rfl
  · exact honest_fault rfl (Option.some_ne_none _)

theorem error_of_whitespace {b : UInt8} {rest : Bytes}
    (h : (first (b :: rest)).kind = .whitespace) : (first (b :: rest)).error = none := by
  by_cases hb : isBlank b = true
  · simp only [first, ofCons, hb, if_true]
  · -- Whatever does not begin with a blank is of another kind.
    exfalso
    revert h
    rw [first, ofCons, if_neg hb]
    unfold beyondAscii
    repeat' split
    all_goals exact fun h => by cases h

end Scan

namespace Token

variable {text : Bytes} {t : Token}

/-- Trivia have no faults but those that are recorded on them. -/
theorem clean_of_isTrivia (h : t ∈ all text 0) (ht : t.isTrivia = true) (he : t.error = none) :
    t.Clean := by
  obtain ⟨b, rest, -, hhead⟩ := exists_of_mem_all h
  have hhonest := (Scan.honest_first b rest).trivia
  rw [hhead] at ht he ⊢
  exact ⟨he, (hhonest ht he).imp_right Utf8.isValid_of_ascii⟩

theorem error_of_symbol (h : t ∈ all text 0) (hs : t.kind = .symbol) : t.error = none := by
  obtain ⟨b, rest, -, hhead⟩ := exists_of_mem_all h
  rw [hhead] at hs ⊢
  exact (Scan.honest_first b rest).symbol hs

theorem plain_of_kind (h : t ∈ all text 0) (hk : t.kind = .identifier ∨ t.kind = .numeric) :
    t.style = none ∧ t.error = none := by
  obtain ⟨b, rest, -, hhead⟩ := exists_of_mem_all h
  rw [hhead] at hk ⊢
  exact (Scan.honest_first b rest).plain hk

theorem kind_of_faulty {pos : Nat} (h : t ∈ all text pos) (ht : t.isTrivia = true)
    (he : t.error ≠ none) : t.kind = .comment ∨ t.kind = .badCharacter := by
  obtain ⟨b, rest, -, hhead⟩ := exists_of_mem_allFrom h
  have hblank : t.kind ≠ .whitespace := by
    intro hk
    rw [hhead] at hk he
    exact he (Scan.error_of_whitespace hk)
  rw [isTrivia] at ht
  generalize t.kind = k at ht hblank
  cases k with
  | comment => exact .inl rfl
  | badCharacter => exact .inr rfl
  | whitespace => exact absurd rfl hblank
  | _ => cases ht

end Token

end Metadoc
