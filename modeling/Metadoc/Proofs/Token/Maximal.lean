import Metadoc.Proofs.Token.Joined
import Metadoc.Proofs.Token.Reads
import Metadoc.Token.Reader
import Mathlib.Data.List.Chain
import Mathlib.Logic.Function.Iterate

/-!
# Tokens are as long as they can be

* `Scan.nameLength_drop`, `Scan.isWord_of_numberLengthFrom` : what a name or a number leaves does
  not go on with one;
* `Token.Follows` says which token may follow another, and `Token.isChain_allFrom` that no other
  follows;
* `Token.Tiling` says what the tokens from a position on are;
* `TokenReader.next?_iterate` : token after token, a reader finds the tokens of the text;
* `TokenReader.exists_tiling` : these tile the text, and at its end nothing more is found.
-/

namespace Metadoc

namespace Scan

open Ascii

/-! ### What names and numbers leave -/

theorem nameLength_drop_from (xs : Bytes) :
    ∀ k ≤ xs.length, nameLength (xs.drop (nameLengthFrom k xs)) = 0 := by
  induction xs with
  | nil => intro k _; cases k <;> rfl
  | cons x xs ih =>
    intro k hk
    cases k with
    | succ k =>
      rw [nameLengthFrom, List.drop_succ_cons]
      exact ih k (Nat.le_of_succ_le_succ hk)
    | zero =>
      by_cases hstop : nameLengthFrom 0 (x :: xs) = 0
      · rw [hstop]
        exact hstop
      · -- The first character belongs to the name, so the name goes on behind it.
        rcases nameLength_pos_iff.1 (Nat.pos_of_ne_zero hstop) with hword | ⟨hascii, c, hc, halnum⟩
        · rw [nameLengthFrom, if_pos hword, List.drop_succ_cons]
          exact ih 0 (Nat.zero_le _)
        · rw [nameLengthFrom, if_neg (by simp [(classes_of_beyond hascii).1]),
            if_neg (by simp [hascii]), hc]
          dsimp only
          rw [if_pos halnum, List.drop_succ_cons]
          exact ih _ (utf8Size_le_of_character hc)

theorem nameLength_drop (xs : Bytes) : nameLength (xs.drop (nameLength xs)) = 0 :=
  nameLength_drop_from xs 0 (Nat.zero_le _)

/-- What a number leaves begins with no letter, digit or underscore. -/
theorem isWord_of_numberLengthFrom {hex : Bool} (xs : Bytes) :
    ∀ point last, ∀ b ∈ (xs.drop (numberLengthFrom hex point last xs)).head?, isWord b = false := by
  induction xs with
  | nil => intro point last; exact nofun
  | cons x xs ih =>
    intro point last
    unfold numberLengthFrom
    split
    · exact ih _ _
    rename_i hword
    split
    · exact ih _ _
    split
    · exact ih _ _
    · rintro b hb
      cases hb
      exact Bool.eq_false_iff.2 hword

/-! ### Names and numbers by their first byte -/

theorem nameLength_pos_of_kind {b : UInt8} {rest : Bytes}
    (h : (first (b :: rest)).kind = .identifier ∨ (first (b :: rest)).kind = .numeric) :
    0 < nameLength (b :: rest) := by
  have hreads := reads_first b rest
  generalize first (b :: rest) = scan at h hreads
  cases hreads with
  | number bare digit => exact nameLength_pos_of_isWord (by rw [isWord, digit, Bool.or_true])
  | name bare digit pos => exact pos
  | _ => rcases h with h | h <;> cases h

theorem isDigit_of_kind {b : UInt8} {rest : Bytes} (h : (first (b :: rest)).kind = .numeric) :
    isDigit b = true := by
  have hreads := reads_first b rest
  generalize first (b :: rest) = scan at h hreads
  cases hreads with
  | number bare digit => exact digit
  | _ => cases h

theorem length_of_identifier {b : UInt8} {rest : Bytes}
    (h : (first (b :: rest)).kind = .identifier) :
    (first (b :: rest)).length = nameLength (b :: rest) := by
  have hreads := reads_first b rest
  generalize first (b :: rest) = scan at h hreads ⊢
  cases hreads with
  | name bare digit pos => rfl
  | _ => cases h

theorem length_of_numeric {b : UInt8} {rest : Bytes} (h : (first (b :: rest)).kind = .numeric) :
    (first (b :: rest)).length = numberLength b rest := by
  have hreads := reads_first b rest
  generalize first (b :: rest) = scan at h hreads ⊢
  cases hreads with
  | number bare digit => rfl
  | _ => cases h

theorem kind_first_ne (b : UInt8) (rest : Bytes) : (first (b :: rest)).kind ≠ .endOfInput := by
  have hreads := reads_first b rest
  generalize first (b :: rest) = scan at hreads
  cases hreads <;> exact nofun

end Scan

namespace Token

open Ascii

variable {t u : Token} {ts us : List Token} {pos : Nat} {text : Bytes}

/-! ### Neighbours -/

/-- Whether a token may follow another. -/
structure Follows (t u : Token) : Prop where
  /-- It begins where the other one ends. -/
  start : u.start = t.stop
  /-- Blanks do not follow blanks. -/
  blank : t.kind = .whitespace → u.kind ≠ .whitespace
  /-- Neither a name nor a number follows a name. -/
  name : t.kind = .identifier → u.kind ≠ .identifier ∧ u.kind ≠ .numeric
  /-- Neither a number nor a name that begins with a byte of ASCII follows a number. -/
  number : t.kind = .numeric → u.kind ≠ .numeric ∧
    (u.kind = .identifier → ∀ b ∈ u.bytes.head?, isAscii b = false)
  /-- Only blanks that begin with a line break follow a comment to the end of the line. -/
  line : t.isLineComment = true →
    u.kind = .whitespace ∧ u.bytes.head? = some Bytes.lineFeed

/-- The first byte of a token, with what the token is read from. -/
theorem exists_head_of_allFrom (h : allFrom pos 0 text = t :: ts) :
    ∃ b rest, text = b :: rest ∧ t.bytes.head? = some b ∧ t.kind = (Scan.first (b :: rest)).kind ∧
      t.length = (Scan.first (b :: rest)).length ∧
      allFrom (pos + t.length) 0 ((b :: rest).drop t.length) = ts := by
  obtain ⟨hne, -, rest, rfl, hfirst, hlater⟩ := allFrom_eq_cons h
  obtain ⟨b, bs, hb⟩ := List.exists_cons_of_ne_nil hne
  refine ⟨b, bs ++ rest, by rw [hb]; rfl, by rw [hb]; rfl, ?_, ?_, ?_⟩
  · rw [← List.cons_append, ← hb, hfirst]
  · rw [← List.cons_append, ← hb, hfirst]
  · rwa [← List.cons_append, ← hb, length, List.drop_left]

theorem follows_name (h : allFrom pos 0 text = t :: u :: us) (ht : t.kind = .identifier) :
    u.kind ≠ .identifier ∧ u.kind ≠ .numeric := by
  obtain ⟨b, rest, -, -, hkind, hlength, hlater⟩ := exists_head_of_allFrom h
  obtain ⟨c, rest', hdrop, -, hkind', -⟩ := exists_head_of_allFrom hlater
  rw [ht] at hkind
  rw [hlength, Scan.length_of_identifier hkind.symm] at hdrop
  have hstop := Scan.nameLength_drop (b :: rest)
  rw [hdrop] at hstop
  have hno : ¬(u.kind = .identifier ∨ u.kind = .numeric) := fun hu => by
    rw [hkind'] at hu
    have hpos := Scan.nameLength_pos_of_kind hu
    omega
  exact not_or.1 hno

theorem follows_number (h : allFrom pos 0 text = t :: u :: us) (ht : t.kind = .numeric) :
    u.kind ≠ .numeric ∧ (u.kind = .identifier → ∀ b ∈ u.bytes.head?, isAscii b = false) := by
  obtain ⟨b, rest, -, -, hkind, hlength, hlater⟩ := exists_head_of_allFrom h
  obtain ⟨c, rest', hdrop, hhead, hkind', -⟩ := exists_head_of_allFrom hlater
  rw [ht] at hkind
  rw [hlength, Scan.length_of_numeric hkind.symm, Scan.numberLength, List.drop_succ_cons] at hdrop
  have hword : isWord c = false :=
    Scan.isWord_of_numberLengthFrom rest _ _ c (by rw [hdrop]; rfl)
  constructor
  · intro hu
    rw [isWord, Scan.isDigit_of_kind (hkind'.symm.trans hu), Bool.or_true] at hword
    cases hword
  · intro hu x hx
    rw [hhead] at hx
    cases hx
    rcases Scan.nameLength_pos_iff.1 (Scan.nameLength_pos_of_kind (.inl (hkind'.symm.trans hu)))
      with hw | ⟨hascii, -⟩
    · rw [hw] at hword
      cases hword
    · exact hascii

theorem follows_line (h : allFrom pos 0 text = t :: u :: us) (ht : t.isLineComment = true) :
    u.kind = .whitespace ∧ u.bytes.head? = some Bytes.lineFeed := by
  obtain ⟨-, -, rest, rfl, -, hlater⟩ := allFrom_eq_cons h
  obtain ⟨c, rest', rfl, hhead, hkind, -⟩ := exists_head_of_allFrom hlater
  obtain rfl : c = Bytes.lineFeed := head_of_isLineComment h ht c rfl
  exact ⟨hkind.trans ((Scan.kind_first _ _).2 (by decide)), hhead⟩

theorem follows_of_allFrom (h : allFrom pos 0 text = t :: u :: us) : Follows t u := by
  obtain ⟨-, hstart, rest, -, -, hlater⟩ := allFrom_eq_cons h
  refine ⟨?_, fun ht => (isBlank_of_kind h ht).2 u rfl, follows_name h, follows_number h,
    follows_line h⟩
  rw [(allFrom_eq_cons hlater).2.1, stop, hstart]

/-- Each token of a text may follow the one before it. -/
theorem isChain_allFrom : ∀ {ts : List Token} {pos : Nat} {text : Bytes},
    allFrom pos 0 text = ts → ts.IsChain Follows
  | [], _, _, _ => .nil
  | [t], _, _, _ => .singleton t
  | _ :: _ :: _, _, _, h => by
    obtain ⟨-, -, rest, -, -, hlater⟩ := allFrom_eq_cons h
    exact .cons_cons (follows_of_allFrom h) (isChain_allFrom hlater)

theorem bytes_ne_nil_of_allFrom : ∀ {ts : List Token} {pos : Nat} {text : Bytes},
    allFrom pos 0 text = ts → ∀ t ∈ ts, t.bytes ≠ []
  | [], _, _, _ => nofun
  | _ :: _, _, _, h => by
    obtain ⟨hne, -, rest, -, -, hlater⟩ := allFrom_eq_cons h
    exact List.forall_mem_cons.2 ⟨hne, bytes_ne_nil_of_allFrom hlater⟩

theorem stop_of_allFrom : ∀ {ts : List Token} {pos : Nat} {text : Bytes},
    allFrom pos 0 text = ts → ∀ t ∈ ts.getLast?, t.stop = pos + text.length
  | [], _, _, _ => nofun
  | [t], pos, text, h => by
    obtain ⟨-, hstart, rest, rfl, -, hlater⟩ := allFrom_eq_cons h
    have hrest := flatMap_bytes_allFrom rest (pos + t.length) 0
    rw [hlater, List.flatMap_nil, List.drop_zero] at hrest
    rintro u hu
    obtain rfl : t = u := Option.some.inj hu
    rw [stop, hstart, ← hrest, List.append_nil, length]
  | t :: u :: us, pos, text, h => by
    obtain ⟨-, hstart, rest, rfl, -, hlater⟩ := allFrom_eq_cons h
    intro v hv
    rw [List.getLast?_cons_cons] at hv
    rw [stop_of_allFrom hlater v hv, List.length_append, Nat.add_assoc, length]

/-! ### The whole text -/

/-- What a list of tokens has to be in order to tile a text from a position on. -/
structure Tiling (text : Bytes) (pos : Nat) (ts : List Token) : Prop where
  /-- No token is empty. -/
  nonempty : ∀ t ∈ ts, t.bytes ≠ []
  /-- The first one begins at the position, or at the end of a shorter text. -/
  first : ∀ t ∈ ts.head?, t.start = min pos text.length
  /-- Each one begins where the one before it ends, and may follow it. -/
  chain : ts.IsChain Follows
  /-- The last one ends with the text. -/
  last : ∀ t ∈ ts.getLast?, t.stop = text.length
  /-- Put together, they are what stands from the position on. -/
  whole : ts.flatMap bytes = text.drop pos

theorem tiling_all (text : Bytes) (pos : Nat) : Tiling text pos (all text pos) where
  nonempty := bytes_ne_nil_of_allFrom rfl
  first t ht := by
    obtain ⟨ts, hts⟩ := List.head?_eq_some_iff.1 ht
    exact (allFrom_eq_cons hts).2.1
  chain := isChain_allFrom rfl
  last t ht := by
    rw [stop_of_allFrom rfl t ht, List.length_drop]
    omega
  whole := by
    rw [all, flatMap_bytes_allFrom, List.drop_zero]
    rcases Nat.le_total pos text.length with hle | hle
    · rw [Nat.min_eq_left hle]
    · rw [Nat.min_eq_right hle, List.drop_length, List.drop_of_length_le hle]

/-! ### Reading at a position -/

/-- The token at the end of a text. -/
def endOf (text : Bytes) : Token := ⟨.endOfInput, text.length, [], none, none⟩

theorem readAt_of_length_le (h : text.length ≤ pos) : readAt text pos = endOf text := by
  rw [readAt, Nat.min_eq_right h, List.drop_length]
  rfl

theorem all_of_length_le (h : text.length ≤ pos) : all text pos = [] := by
  rw [all, Nat.min_eq_right h, List.drop_length]
  rfl

theorem exists_readAt (h : pos < text.length) :
    ∃ b rest, text.drop pos = b :: rest ∧ readAt text pos = ofHead pos (b :: rest) := by
  obtain ⟨b, rest, hdrop⟩ := List.exists_cons_of_length_pos (l := text.drop pos)
    (by rw [List.length_drop]; omega)
  exact ⟨b, rest, hdrop, by rw [readAt, Nat.min_eq_left (Nat.le_of_lt h), hdrop]⟩

theorem stop_readAt_le (h : pos < text.length) : (readAt text pos).stop ≤ text.length := by
  obtain ⟨b, rest, hdrop, hread⟩ := exists_readAt h
  have hle := Scan.length_le b rest
  have hlength := congrArg List.length hdrop
  rw [List.length_drop, List.length_cons] at hlength
  rw [hread, stop, length_ofHead]
  simp only [ofHead, Scan.place]
  omega

/-- The token at a position is the first of those from there on. -/
theorem all_eq_cons (h : pos < text.length) :
    all text pos = readAt text pos :: all text (readAt text pos).stop := by
  obtain ⟨b, rest, hdrop, hread⟩ := exists_readAt h
  have hall : all text pos = readAt text pos ::
      allFrom (pos + 1) ((ofHead pos (b :: rest)).length - 1) rest := by
    rw [all, Nat.min_eq_left (Nat.le_of_lt h), hdrop, hread]
    rfl
  have hsplit := hall
  rw [all, Nat.min_eq_left (Nat.le_of_lt h)] at hsplit
  obtain ⟨-, hstart, later, hlater, -, htail⟩ := allFrom_eq_cons hsplit
  have hrest : text.drop (readAt text pos).stop = later := by
    rw [stop, hstart, ← List.drop_drop, hlater, length, List.drop_left]
  rw [hall, ← htail, all, Nat.min_eq_left (stop_readAt_le h), hrest, stop, hstart]

theorem kind_readAt (h : pos < text.length) : (readAt text pos).kind ≠ .endOfInput := by
  obtain ⟨b, rest, -, hread⟩ := exists_readAt h
  rw [hread]
  exact Scan.kind_first_ne b rest

end Token

namespace TokenReader

open Token

variable {reader : TokenReader}

/-! ### Reading on -/

theorem next?_of_lt (h : reader.pos < reader.text.length) :
    reader.next? = some reader.peek := if_neg (kind_readAt h)

theorem next?_of_length_le (h : reader.text.length ≤ reader.pos) :
    reader.peek = endOf reader.text ∧ reader.next? = none := by
  have hpeek : reader.peek = endOf reader.text := readAt_of_length_le h
  exact ⟨hpeek, if_pos (by rw [hpeek]; rfl)⟩

theorem next?_eq_head? (reader : TokenReader) :
    reader.next? = (all reader.text reader.pos).head? := by
  rcases Nat.lt_or_ge reader.pos reader.text.length with hlt | hge
  · rw [next?_of_lt hlt, all_eq_cons hlt]
    rfl
  · rw [(next?_of_length_le hge).2, all_of_length_le hge]
    rfl

theorem all_advance (reader : TokenReader) :
    all reader.advance.text reader.advance.pos = (all reader.text reader.pos).tail := by
  rcases Nat.lt_or_ge reader.pos reader.text.length with hlt | hge
  · rw [all_eq_cons hlt]
    rfl
  · rw [advance, (next?_of_length_le hge).1, all_of_length_le hge]
    exact all_length reader.text

/-- Token after token, a reader finds the tokens of the text, and none behind them. -/
theorem next?_iterate (k : Nat) :
    ∀ reader : TokenReader, (advance^[k] reader).next? = (all reader.text reader.pos)[k]? := by
  induction k with
  | zero =>
    intro reader
    rw [Function.iterate_zero_apply, next?_eq_head?, List.head?_eq_getElem?]
  | succ k ih =>
    intro reader
    rw [Function.iterate_succ_apply, ih, all_advance, List.getElem?_tail]

theorem text_iterate (k : Nat) :
    ∀ reader : TokenReader, (advance^[k] reader).text = reader.text := by
  induction k with
  | zero => intro reader; rfl
  | succ k ih => intro reader; exact ih reader.advance

/-- Whatever the text and the position, reading on finds tokens that tile the text from there on,
and then its end for ever. -/
theorem exists_tiling (text : Bytes) (pos : Nat) :
    ∃ ts, Tiling text pos ts ∧ (∀ k, (advance^[k] ⟨text, pos⟩).next? = ts[k]?) ∧
      ∀ k, ts.length ≤ k → (advance^[k] ⟨text, pos⟩).peek = endOf text := by
  refine ⟨all text pos, tiling_all text pos, fun k => next?_iterate k ⟨text, pos⟩, fun k hk => ?_⟩
  have hnone : (advance^[k] ⟨text, pos⟩).next? = none := by
    rw [next?_iterate, List.getElem?_eq_none_iff]
    exact hk
  rcases Nat.lt_or_ge (advance^[k] ⟨text, pos⟩).pos (advance^[k] ⟨text, pos⟩).text.length
    with hlt | hge
  · rw [next?_of_lt hlt] at hnone
    cases hnone
  · rw [(next?_of_length_le hge).1, text_iterate]

end TokenReader

end Metadoc
