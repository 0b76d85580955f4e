import Metadoc.Proofs.Document.Pieces
import Metadoc.Proofs.Token.Boundary

/-!
# Words of an outline

The words of a text that is put together from pieces are these pieces, if its signs stay apart.

* `LabelText.first_eq` : the text of a label is read as its token, alone;
* `Piece.word` is the word that a piece is at a given position, `Piece.words` those of many pieces;
* `Lexeme.ofBytes_append` reads one token at the head of a text;
* `Piece.Separate` says that every sign is one token before what is behind it, which is so if the
  labels are ended (`Apart.separate`);
* `Piece.split_all` : the words of a text of such pieces are the words of the pieces.
-/

namespace Metadoc

/-! ### Labels -/

namespace LabelText

variable (t : LabelText)

theorem token_eq : t.bytes ≠ [] ∧ t.token = Token.ofHead 0 t.bytes ∧ t.token.bytes = t.bytes := by
  have htiles := Token.flatMap_bytes_all t.bytes
  rw [t.alone] at htiles
  have hbytes : t.token.bytes = t.bytes := by simpa using htiles
  have hhead := t.alone
  cases hb : t.bytes with
  | nil =>
    rw [hb] at hhead
    cases hhead
  | cons b rest =>
    rw [hb] at hhead hbytes
    have hcons : Token.ofHead 0 (b :: rest) :: _ = [t.token] := hhead
    exact ⟨List.cons_ne_nil b rest, (List.cons.inj hcons).1.symm, hbytes⟩

theorem bytes_ne_nil : t.bytes ≠ [] := t.token_eq.1

theorem isTrivia : t.token.kind.isTrivia = false := by
  have hlabel := t.isLabel
  cases hk : t.token.kind with
  | identifier | numeric | string | symbol | endOfInput => rfl
  | whitespace | comment | badCharacter => simp [Token.isLabel, Lexeme.isLabel, hk] at hlabel

/-- The text of a label is read as its token, alone. -/
theorem first_eq : Scan.first t.bytes = ⟨t.token.kind, t.bytes.length, t.token.style, none⟩ := by
  obtain ⟨hne, htoken, hbytes⟩ := t.token_eq
  have htrivia := t.isTrivia
  have herror := t.error
  rw [htoken] at htrivia herror hbytes ⊢
  have hlength : (Scan.first t.bytes).length = t.bytes.length := by
    apply Nat.le_antisymm
    · obtain ⟨b, rest, hb⟩ := List.exists_cons_of_ne_nil hne
      rw [hb]
      exact Scan.length_le b rest
    · have htake := congrArg List.length hbytes
      simp only [Token.ofHead, Scan.place, List.length_take] at htake
      omega
  rw [← hlength, ← (show (Scan.first t.bytes).error = none from herror)]
  rfl

end LabelText

/-! ### Signs and pieces at a position -/

/-- The token that a sign is at the head of a text. -/
def Sign.token : Sign → Token
  | label t => t.token
  | s => ⟨.symbol, 0, s.bytes, none, none⟩

/-- The lexeme that a sign is at a position. -/
def Sign.lexeme (pos : Nat) (s : Sign) : Lexeme := ⟨s.token.shift pos, Utf8.lossy s.bytes⟩

namespace Piece

/-- The space before a piece, at a position. -/
def gapLexemes (pos : Nat) (spaced : Bool) : List Lexeme :=
  if spaced then [⟨⟨.whitespace, pos, [Outline.space], none, none⟩, " "⟩] else []

/-- The word that a piece is at a position. -/
def word (pos : Nat) (p : Piece) : Word :=
  ⟨gapLexemes pos p.spaced, p.sign.lexeme (pos + (gap p.spaced).length)⟩

/-- The words that pieces are from a position on. -/
def words : Nat → List Piece → List Word
  | _, [] => []
  | pos, p :: ps => p.word pos :: words (pos + p.bytes.length) ps

end Piece

/-! ### Reading token after token -/

theorem Bytes.isBoundary_of_isValid {bytes : Bytes} (h : Utf8.isValid bytes = true) :
    bytes.isBoundary 0 = true := by
  cases bytes with
  | nil => rfl
  | cons b rest => simp [isBoundary, Utf8.isTail_of_isValid h]

theorem Bytes.textOf_append {xs rest : Bytes} (hx : Utf8.isValid xs = true)
    (hrest : Utf8.isValid rest = true) :
    (xs ++ rest).textOf ⟨0, xs.length⟩ = Utf8.lossy xs := by
  have hstart := isBoundary_of_isValid (Utf8.isValid_append hx hrest)
  have hstop : (xs ++ rest).isBoundary xs.length = true := by
    have hle : xs.length ≤ (xs ++ rest).length := by simp
    have hdrop := isBoundary_drop (xs ++ rest) 0 hle
    rw [List.drop_left, isBoundary_of_isValid hrest] at hdrop
    exact hdrop.symm
  rw [textOf, if_pos ⟨Nat.zero_le _, hstart, hstop⟩]
  simp [slice]

namespace Lexeme

/-- The lexemes of a text that stands at a position and is shown as it is. -/
def ofBytes (pos : Nat) (bytes : Bytes) : List Lexeme :=
  ofTokens pos bytes (Token.allFrom pos 0 bytes)

theorem ofTokens_append {pos : Nat} {xs rest : Bytes} {ts : List Token}
    (h : ∀ t ∈ ts, pos + xs.length ≤ t.start) :
    ofTokens pos (xs ++ rest) ts = ofTokens (pos + xs.length) rest ts := by
  cases ts with
  | nil => rfl
  | cons t ts =>
    have ht := h t List.mem_cons_self
    have hdrop : (xs ++ rest).drop (t.start - pos) = rest.drop (t.start - (pos + xs.length)) := by
      rw [List.drop_append, List.drop_eq_nil_of_le (by omega), List.nil_append]
      congr 1
      omega
    simp only [ofTokens, hdrop]

/-- One token is read at the head of a well-formed text. -/
theorem ofBytes_append {xs rest : Bytes} (hne : xs ≠ []) (hx : Utf8.isValid xs = true)
    (hrest : Utf8.isValid rest = true) {kind : TokenKind} {style : Option StringStyle}
    {error : Option LexError}
    (hfirst : Scan.first (xs ++ rest) = ⟨kind, xs.length, style, error⟩) (pos : Nat) :
    ofBytes pos (xs ++ rest) =
      ⟨⟨kind, pos, xs, style, error⟩, Utf8.lossy xs⟩ :: ofBytes (pos + xs.length) rest := by
  have htokens := Token.allFrom_append hne (congrArg Scan.length hfirst) pos
  rw [hfirst] at htokens
  have htext : (xs ++ rest).textOf ⟨0, xs.length⟩ = Utf8.lossy xs :=
    Bytes.textOf_append hx hrest
  have hstart : ∀ t ∈ Token.allFrom (pos + xs.length) 0 rest, pos + xs.length ≤ t.start :=
    fun t ht => Token.le_start_of_mem_allFrom ht
  have hlater : ofTokens pos (xs ++ rest) _ = ofTokens (pos + xs.length) rest _ :=
    ofTokens_append hstart
  rw [ofBytes, htokens, ofTokens, ofBytes, ← hlater, Nat.sub_self, List.drop_zero]
  rw [Token.length, htext]

theorem all_eq_ofBytes {bytes : Bytes} (path : String) (h : Utf8.isValid bytes = true) :
    all ⟨path, bytes⟩ 0 = ofBytes 0 bytes := by
  rw [all, Source.shown, Utf8.shown_of_isValid h, Token.all, Nat.zero_min, List.drop_zero]
  rfl

end Lexeme

namespace Sign

/-- Whether a sign is the first token of a text that begins with it, before `rest`. -/
def StandsBefore (s : Sign) (rest : Bytes) : Prop :=
  Scan.first (s.bytes ++ rest) = ⟨s.token.kind, s.bytes.length, s.token.style, none⟩

/-- A sign is one token before any text, if it is a mark or that text ends names. -/
theorem standsBefore (s : Sign) {rest : Bytes} (h : s.mark? = none → Scan.Bounded rest) :
    s.StandsBefore rest := by
  unfold StandsBefore
  cases s with
  | label t =>
    have hfirst := t.first_eq
    have happend : Scan.first (t.bytes ++ rest) = Scan.first t.bytes :=
      Scan.first_append (h rfl) t.bytes_ne_nil (congrArg Scan.length hfirst)
        ((congrArg (·.kind.isTrivia) hfirst).trans t.isTrivia) (congrArg Scan.error hfirst)
    exact happend.trans hfirst
  | opening d => cases d <;> rfl
  | closing d => cases d <;> rfl
  | separator sep => cases sep <;> rfl
  | colon => rfl
  | «at» => rfl

theorem contains_of_mark {s : Sign} {b : UInt8} (h : s.mark? = some b) :
    reservedSymbols.contains b = true := by
  cases s with
  | label t => cases h
  | opening d => cases d <;> cases h <;> decide
  | closing d => cases d <;> cases h <;> decide
  | separator sep => cases sep <;> cases h <;> decide
  | colon => cases h; decide
  | «at» => cases h; decide

theorem isAscii_of_mark {s : Sign} {b : UInt8} (h : s.mark? = some b) : Ascii.isAscii b = true := by
  have hends : Scan.endsName b = true := by
    rw [Scan.endsName, contains_of_mark h, Bool.or_true]
  exact (Scan.foreign_of_endsName hends).ascii

theorem isValid_bytes (s : Sign) : Utf8.isValid s.bytes = true := by
  have hmark {b : UInt8} (h : s.mark? = some b) : Utf8.isValid [b] = true :=
    Utf8.isValid_of_ascii fun x hx =>
      (List.mem_singleton.1 hx).symm ▸ of_decide_eq_true (isAscii_of_mark h)
  cases s with
  | label t => exact t.valid
  | opening d => exact hmark rfl
  | closing d => exact hmark rfl
  | separator sep => exact hmark rfl
  | colon => exact hmark rfl
  | «at» => exact hmark rfl

theorem exists_bytes_eq_cons (s : Sign) :
    ∃ b rest, s.bytes = b :: rest ∧ Ascii.isBlank b = false := by
  cases s with
  | label t =>
    obtain ⟨b, rest, hb⟩ := List.exists_cons_of_ne_nil t.bytes_ne_nil
    refine ⟨b, rest, hb, ?_⟩
    rw [Bool.eq_false_iff]
    intro hblank
    have hkind := (congrArg (·.kind.isTrivia) t.first_eq).trans t.isTrivia
    rw [hb] at hkind
    simp only [Scan.first, Scan.ofCons, if_pos hblank] at hkind
    cases hkind
  | opening d => exact ⟨_, [], rfl, by cases d <;> rfl⟩
  | closing d => exact ⟨_, [], rfl, by cases d <;> rfl⟩
  | separator sep => exact ⟨_, [], rfl, by cases sep <;> rfl⟩
  | colon => exact ⟨_, [], rfl, rfl⟩
  | «at» => exact ⟨_, [], rfl, rfl⟩

theorem token_shift (s : Sign) (pos : Nat) :
    s.token.shift pos = ⟨s.token.kind, pos, s.bytes, s.token.style, none⟩ := by
  cases s with
  | label t =>
    obtain ⟨-, htoken, hbytes⟩ := t.token_eq
    have hstart : t.token.start = 0 := by rw [htoken]; rfl
    have herror := t.error
    simp only [Token.shift, token, bytes, hstart, herror, hbytes, Nat.zero_add]
  | _ => simp [Token.shift, token]

theorem lexeme_eq (s : Sign) (pos : Nat) : s.lexeme pos =
    ⟨⟨s.token.kind, pos, s.bytes, s.token.style, none⟩, Utf8.lossy s.bytes⟩ := by
  rw [lexeme, token_shift]

end Sign

namespace Piece

theorem isValid_bytes (p : Piece) : Utf8.isValid p.bytes = true := by
  have hgap : Utf8.isValid (gap p.spaced) = true := by
    cases p.spaced <;> decide
  exact Utf8.isValid_append hgap p.sign.isValid_bytes

theorem isValid_flatMap (ps : List Piece) : Utf8.isValid (ps.flatMap bytes) = true := by
  induction ps with
  | nil => rfl
  | cons p ps ih => exact Utf8.isValid_append p.isValid_bytes ih

/-- The lexemes of a piece stand at the head of those of a text that begins with it. -/
theorem ofBytes_append (p : Piece) {rest : Bytes} (hrest : Utf8.isValid rest = true)
    (h : p.sign.StandsBefore rest) (pos : Nat) :
    Lexeme.ofBytes pos (p.bytes ++ rest) =
      (p.word pos).lexemes ++ Lexeme.ofBytes (pos + p.bytes.length) rest := by
  obtain ⟨spaced, s⟩ := p
  obtain ⟨b, bs, hb, hblank⟩ := s.exists_bytes_eq_cons
  have hne : s.bytes ≠ [] := by rw [hb]; exact List.cons_ne_nil b bs
  have hsign (pos : Nat) : Lexeme.ofBytes pos (s.bytes ++ rest) =
      s.lexeme pos :: Lexeme.ofBytes (pos + s.bytes.length) rest := by
    rw [s.lexeme_eq]
    exact Lexeme.ofBytes_append hne s.isValid_bytes hrest h pos
  cases spaced with
  | false => exact hsign pos
  | true =>
    have hfirst : Scan.first ([Outline.space] ++ (s.bytes ++ rest)) =
        ⟨.whitespace, [Outline.space].length, none, none⟩ := by
      have hno : (s.bytes ++ rest).takeWhile Ascii.isBlank = [] := by
        simp [hb, hblank]
      rw [List.singleton_append, Scan.first, Scan.ofCons, if_pos (by decide), hno]
      rfl
    have hspace := Lexeme.ofBytes_append (List.cons_ne_nil _ _) (by decide)
      (Utf8.isValid_append s.isValid_bytes hrest) hfirst pos
    have hlength : (bytes ⟨true, s⟩).length = [Outline.space].length + s.bytes.length :=
      List.length_append
    rw [hsign, Nat.add_assoc, ← hlength] at hspace
    exact hspace

theorem wellFormed_word (pos : Nat) (p : Piece) : (p.word pos).WellFormed := by
  refine ⟨fun l hl => ?_, ?_⟩
  · have hgap : l ∈ gapLexemes pos p.spaced := hl
    unfold gapLexemes at hgap
    split at hgap
    · rw [List.mem_singleton.1 hgap]
      rfl
    · cases hgap
  · obtain ⟨spaced, s⟩ := p
    cases s with
    | label t => exact t.isTrivia
    | _ => rfl

theorem bounded_flatMap {p : Piece} (h : p.endsName = true) (ps : List Piece) :
    Scan.Bounded ((p :: ps).flatMap bytes) := by
  obtain ⟨spaced, s⟩ := p
  cases spaced with
  | true => exact Scan.bounded_cons.2 rfl
  | false =>
    cases s with
    | label t => cases h
    | opening d => exact Scan.bounded_cons.2 (by cases d <;> rfl)
    | closing d => exact Scan.bounded_cons.2 (by cases d <;> rfl)
    | separator sep => exact Scan.bounded_cons.2 (by cases sep <;> rfl)
    | colon => exact Scan.bounded_cons.2 rfl
    | «at» => exact Scan.bounded_cons.2 rfl

/-- Whether every sign is one token before the pieces behind it. -/
inductive Separate : List Piece → Prop
  /-- No pieces. -/
  | nil : Separate []
  /-- One more piece before others. -/
  | cons {p ps} (first : p.sign.StandsBefore (ps.flatMap bytes)) (rest : Separate ps) :
      Separate (p :: ps)

/-- Pieces are separate if labels are ended by what is behind them. -/
theorem Apart.separate {ps : List Piece} (h : Apart ps) : Separate ps := by
  induction ps with
  | nil => exact .nil
  | cons p ps ih =>
    refine .cons (p.sign.standsBefore fun hmark => ?_) (ih h.tail)
    cases ps with
    | nil => exact Scan.bounded_nil
    | cons q qs => exact bounded_flatMap (List.isChain_cons_cons.1 h |>.1 hmark) qs

theorem split_ofBytes {ps : List Piece} (h : Separate ps) :
    ∀ pos, Word.split (Lexeme.ofBytes pos (ps.flatMap bytes)) = (words pos ps, []) := by
  induction h with
  | nil => intro pos; rfl
  | @cons p ps first _ ih =>
    intro pos
    rw [List.flatMap_cons, p.ofBytes_append (isValid_flatMap ps) first,
      Word.split_lexemes_append (p.wellFormed_word pos), ih, words]

/-- The words of a text of pieces are the words of the pieces. -/
theorem split_all {ps : List Piece} (h : Separate ps) (path : String) :
    Word.split (Lexeme.all ⟨path, ps.flatMap bytes⟩ 0) = (words 0 ps, []) := by
  rw [Lexeme.all_eq_ofBytes path (isValid_flatMap ps), split_ofBytes h]

end Piece

end Metadoc
