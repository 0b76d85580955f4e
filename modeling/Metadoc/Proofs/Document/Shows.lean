import Metadoc.Proofs.Document.Lossless
import Metadoc.Proofs.Document.Spelling

/-!
# What a state sees of pieces

* `State.Shows s ps` says that the words ahead are those of the pieces `ps`, and that there are no
  reports;
* `Shows.opens?`, `Shows.closes?`, `Shows.separator?`, `Shows.isAt` and `Shows.label?_of_mark` say
  what the cursor finds ahead, by the mark of the first piece;
* `Shows.advance` and `Shows.exists_label` step over a piece;
* `Shows.close` : a node that ends here has no comment, and nothing is reported.
-/

namespace Metadoc

/-- The mark that pieces begin with, if it is one. -/
def Piece.mark? (ps : List Piece) : Option UInt8 := ps.head?.bind (·.sign.mark?)

@[simp] theorem Piece.mark?_cons (p : Piece) (ps : List Piece) :
    mark? (p :: ps) = p.sign.mark? := rfl

@[simp] theorem Piece.mark?_nil : mark? [] = none := rfl

/-- Of the reserved symbols a sign is its mark only. -/
theorem Sign.symbol?_eq_some_iff (s : Sign) (pos : Nat) {b : UInt8}
    (hb : reservedSymbols.contains b = true) :
    (s.lexeme pos).symbol? = some b ↔ s.mark? = some b := by
  cases s with
  | label t =>
    refine ⟨fun h => ?_, nofun⟩
    have hsymbol : t.token.symbol? = some b := h
    have hlabel := t.isLabel
    unfold Token.symbol? at hsymbol
    split at hsymbol
    · rename_i hkind hbytes
      cases hsymbol
      simp only [Token.isLabel, Lexeme.isLabel, Token.symbol?, hkind, hbytes, Option.any_some, hb]
        at hlabel
      cases hlabel
    · cases hsymbol
  | _ => exact Iff.rfl

namespace State

/-- The words ahead are those of pieces, with nothing behind them, and nothing is reported. -/
structure Shows (s : State) (ps : List Piece) : Prop where
  /-- The words ahead are those of the pieces. -/
  ahead : ∃ pos, s.cursor.ahead = Piece.words pos ps
  /-- Nothing comes after them. -/
  tail : s.cursor.tail = []
  /-- Nothing is reported. -/
  reports : s.reports = []

namespace Shows

variable {s s' : State} {p : Piece} {ps : List Piece}

theorem of_cursor_eq (h : s.Shows ps) (hc : s'.cursor = s.cursor) (hr : s'.reports = s.reports) :
    s'.Shows ps :=
  ⟨hc ▸ h.ahead, hc ▸ h.tail, hr ▸ h.reports⟩

theorem alloc (h : s.Shows ps) : s.alloc.state.Shows ps := h.of_cursor_eq rfl rfl

/-! ### Gaps -/

theorem exists_gap (h : s.Shows ps) :
    ∃ pos, s.cursor.gap = Piece.gapLexemes pos (ps.head?.any Piece.spaced) := by
  obtain ⟨pos, hahead⟩ := h.ahead
  refine ⟨pos, ?_⟩
  cases ps with
  | nil =>
    rw [Cursor.gap, show s.cursor.ahead = [] from hahead]
    exact h.tail
  | cons p ps =>
    rw [Cursor.gap, show s.cursor.ahead = p.word pos :: _ from hahead]
    rfl

theorem trivia_eq (h : s.Shows ps) : s.cursor.trivia = {} := by
  obtain ⟨pos, hgap⟩ := h.exists_gap
  rw [Cursor.trivia, hgap]
  cases ps.head?.any Piece.spaced with
  | false => rfl
  | true => rfl

theorem newlines_eq (h : s.Shows ps) : s.cursor.newlines = 0 := by
  rw [Cursor.newlines, h.trivia_eq]

theorem claim_eq (h : s.Shows ps) : s.claim = ⟨"", s⟩ := by
  rw [State.claim, h.trivia_eq]

/-- A space before the first piece parts it from what is behind the cursor. -/
theorem adjacent_eq (h : s.Shows (p :: ps)) :
    s.cursor.adjacent = (s.cursor.started && !p.spaced) := by
  obtain ⟨pos, hgap⟩ := h.exists_gap
  rw [Cursor.adjacent, hgap, List.head?_cons, Option.any_some]
  cases p.spaced <;> rfl

theorem reports_reportGap {pos : Nat} {spaced : Bool}
    (h : s.cursor.gap = Piece.gapLexemes pos spaced) : s.reportGap.reports = s.reports := by
  rw [State.reportGap, h]
  cases spaced <;> rfl

/-! ### What is ahead -/

theorem exists_lexeme (h : s.Shows (p :: ps)) :
    ∃ pos, s.cursor.lexeme? = some (p.sign.lexeme pos) := by
  obtain ⟨pos, hahead⟩ := h.ahead
  refine ⟨pos + (Piece.gap p.spaced).length, ?_⟩
  rw [Cursor.lexeme?, Cursor.word?, hahead]
  rfl

theorem atEnd_eq (h : s.Shows ps) : s.cursor.atEnd = ps.isEmpty := by
  obtain ⟨pos, hahead⟩ := h.ahead
  rw [Cursor.atEnd, hahead]
  cases ps <;> rfl

theorem lexeme?_nil (h : s.Shows []) : s.cursor.lexeme? = none := by
  obtain ⟨pos, hahead⟩ := h.ahead
  rw [Cursor.lexeme?, Cursor.word?, hahead]
  rfl

theorem symbol?_eq_some_iff (h : s.Shows ps) {b : UInt8}
    (hb : reservedSymbols.contains b = true) :
    s.cursor.symbol? = some b ↔ Piece.mark? ps = some b := by
  cases ps with
  | nil => simp [Cursor.symbol?, h.lexeme?_nil]
  | cons p ps =>
    obtain ⟨pos, hl⟩ := h.exists_lexeme
    rw [Cursor.symbol?, hl, Option.bind_some, p.sign.symbol?_eq_some_iff pos hb, Piece.mark?_cons]

/-- What only reserved symbols mean is meant by the mark ahead. -/
theorem symbol?_bind (h : s.Shows ps) {α : Type} {f : UInt8 → Option α}
    (hf : ∀ b a, f b = some a → reservedSymbols.contains b = true) :
    s.cursor.symbol?.bind f = (Piece.mark? ps).bind f := by
  ext a
  simp only [Option.bind_eq_some_iff]
  constructor
  · rintro ⟨b, hb, ha⟩
    exact ⟨b, (h.symbol?_eq_some_iff (hf b a ha)).1 hb, ha⟩
  · rintro ⟨b, hb, ha⟩
    exact ⟨b, (h.symbol?_eq_some_iff (hf b a ha)).2 hb, ha⟩

theorem opens? (h : s.Shows ps) : s.cursor.opens? = (Piece.mark? ps).bind Delimiter.ofOpen? :=
  h.symbol?_bind fun b d hd => by
    rw [Delimiter.ofOpen?_eq_some hd]
    cases d <;> decide

theorem closes? (h : s.Shows ps) : s.cursor.closes? = (Piece.mark? ps).bind Delimiter.ofClose? :=
  h.symbol?_bind fun b d hd => by
    rw [Delimiter.ofClose?_eq_some hd]
    cases d <;> decide

theorem separator? (h : s.Shows ps) :
    s.cursor.separator? = (Piece.mark? ps).bind Separator.ofByte? :=
  h.symbol?_bind fun b sep hsep => by
    rw [Separator.ofByte?_eq_some hsep]
    cases sep <;> decide

theorem isAt (h : s.Shows ps) {b : UInt8} (hb : reservedSymbols.contains b = true) :
    s.cursor.isAt b = decide (Piece.mark? ps = some b) := by
  simp only [Cursor.isAt, h.symbol?_eq_some_iff hb]

theorem label?_of_mark (h : s.Shows (p :: ps)) {b : UInt8} (hm : p.sign.mark? = some b) :
    s.cursor.label? = none := by
  obtain ⟨pos, hl⟩ := h.exists_lexeme
  have hsymbol := (p.sign.symbol?_eq_some_iff pos (Sign.contains_of_mark hm)).2 hm
  have hnot : (p.sign.lexeme pos).isLabel = false := by
    obtain ⟨spaced, sign⟩ := p
    cases sign with
    | label t => cases hm
    | _ =>
      unfold Lexeme.isLabel
      rw [hsymbol, Option.any_some, Sign.contains_of_mark hm]
      rfl
  rw [Cursor.label?, hl, Option.filter_some, if_neg (by simp [hnot])]

/-! ### Steps -/

theorem advance (h : s.Shows (p :: ps)) : s.advance.Shows ps := by
  obtain ⟨pos, hahead⟩ := h.ahead
  have hnext : s.cursor.advance.ahead = Piece.words (pos + p.bytes.length) ps :=
    Cursor.ahead_advance hahead
  have htail : s.cursor.advance.tail = [] := by
    rw [Cursor.advance, hahead]
    exact h.tail
  have hbetween : Shows { s with cursor := s.cursor.advance, claimed := false } ps :=
    ⟨⟨_, hnext⟩, htail, h.reports⟩
  obtain ⟨_, hgap⟩ := hbetween.exists_gap
  rw [State.advance, h.atEnd_eq, if_neg (by simp)]
  exact hbetween.of_cursor_eq (cursor_reportGap _) (reports_reportGap hgap)

/-- Something is behind the cursor once it has been moved. -/
theorem started_advance (h : s.Shows (p :: ps)) : s.advance.cursor.started = true := by
  obtain ⟨pos, hahead⟩ := h.ahead
  rw [cursor_advance, Cursor.advance, hahead]
  rfl

/-- A label ahead is read without a report. -/
theorem exists_label {spaced : Bool} {t : LabelText} (h : s.Shows (⟨spaced, .label t⟩ :: ps)) :
    ∃ l, s.cursor.label? = some l ∧ l.label = t.label ∧ (s.behindLabel l).Shows ps ∧
      (s.behindLabel l).cursor.started = true := by
  obtain ⟨pos, hl⟩ := h.exists_lexeme
  have hlabel : ((Sign.label t).lexeme pos).isLabel = true := t.isLabel
  have hquiet (s' : State) (id : Nat) : s'.reportLabel ((Sign.label t).lexeme pos) id = s' := by
    have herror : ((Sign.label t).lexeme pos).error = none := t.error
    have hspan : ((Sign.label t).lexeme pos).invalidSpan? = none := by
      have hbytes : ((Sign.label t).lexeme pos).bytes = t.bytes := t.token_eq.2.2
      rw [Lexeme.invalidSpan?, hbytes, Utf8.firstInvalid?_of_isValid t.valid]
      rfl
    simp only [State.reportLabel, State.reportFault, herror, hspan]
  have hbehind : s.behindLabel ((Sign.label t).lexeme pos) = s.alloc.state.advance :=
    hquiet _ _
  refine ⟨(Sign.label t).lexeme pos, ?_, rfl, ?_, ?_⟩
  · rw [Cursor.label?, hl, Option.filter_some, if_pos hlabel]
  · rw [hbehind]
    exact h.alloc.advance
  · rw [hbehind]
    exact h.alloc.started_advance

/-- A node that ends here has no comment behind it. -/
theorem close (h : s.Shows ps) (id start : Nat) (kind : NodeKind) (label : Label)
    (facets : Facets) (children : List Tree) :
    Grammar.close id start kind label facets children s =
      ⟨.node id
        { kind, facets, string := label.string, raw := label.raw, bytes := label.bytes,
          span := s.spanFrom start } [] children, s⟩ := by
  rw [Grammar.close, h.claim_eq]

end Shows

end State

end Metadoc
