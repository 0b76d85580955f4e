import Metadoc.Proofs.Document.Order

/-!
# Both sides of a cursor

A cursor cuts the lexemes of a document in two: those up to the last word behind it, and those from
the gap before the word ahead on.

* `Cursor.Splits` says it of a cursor, and `Cursor.Splits.advance` what stepping over a word does;
* `State.Between` says it of a state, and `State.steps_between` that all reading keeps to it;
* `Token.LeadsTo` says that a token comes behind another with nothing but trivia in between.
-/

namespace Metadoc

/-! ### Cursors -/

namespace Cursor

theorem isTrivia_of_mem_gap {c : Cursor} (hwords : ∀ w ∈ c.ahead, w.WellFormed)
    (htail : ∀ l ∈ c.tail, l.isTrivia = true) : ∀ l ∈ c.gap, l.isTrivia = true := by
  unfold gap
  split
  · exact htail
  · rename_i w ws hw
    exact (hwords w (hw ▸ List.mem_cons_self)).gap

/-- What is ahead begins with the gap, and behind that with the word ahead. -/
theorem exists_gap (c : Cursor) : ∃ rest,
    c.ahead.flatMap Word.lexemes ++ c.tail = c.gap ++ rest ∧ rest.head? = c.lexeme? := by
  unfold gap lexeme? word?
  cases c.ahead with
  | nil => exact ⟨[], by simp, rfl⟩
  | cons w ws =>
    exact ⟨w.lexeme :: (ws.flatMap Word.lexemes ++ c.tail), by simp [Word.lexemes], rfl⟩

end Cursor

/-- Whether a cursor has the lexemes `behind` of a document behind it, up to the last word read, and
all others ahead. -/
structure Cursor.Splits (source : Source) (behind : List Lexeme) (c : Cursor) : Prop where
  /-- Both together are the document. -/
  all : Lexeme.all source 0 = behind ++ (c.ahead.flatMap Word.lexemes ++ c.tail)
  /-- Gaps ahead hold trivia, and words do not. -/
  words : ∀ w ∈ c.ahead, w.WellFormed
  /-- Behind the last word is trivia. -/
  tail : ∀ l ∈ c.tail, l.isTrivia = true
  /-- Where no word has been read, nothing is behind. -/
  unread : c.started = false → behind = []
  /-- What is behind ends with the last word. -/
  last : c.started = true →
    ∃ before l, behind = before ++ [l] ∧ l.isTrivia = false ∧ l.stop = c.prevEnd

namespace Cursor.Splits

variable {source : Source} {behind : List Lexeme} {c : Cursor} (h : c.Splits source behind)
include h

theorem isTrivia_of_mem_gap : ∀ l ∈ c.gap, l.isTrivia = true :=
  Cursor.isTrivia_of_mem_gap h.words h.tail

theorem exists_gap : ∃ rest, Lexeme.all source 0 = behind ++ (c.gap ++ rest) := by
  obtain ⟨rest, hrest, -⟩ := c.exists_gap
  exact ⟨rest, by rw [h.all, hrest]⟩

/-- The word ahead lies behind the gap, and stepping over it leaves both behind. -/
theorem advance {l : Lexeme} (hl : c.lexeme? = some l) :
    l.isTrivia = false ∧ (∃ rest, Lexeme.all source 0 = behind ++ (c.gap ++ l :: rest)) ∧
      c.advance.Splits source (behind ++ (c.gap ++ [l])) := by
  obtain ⟨w, ws, hw, rfl⟩ := exists_ahead_of_lexeme hl
  have hgap : c.gap = w.gap := by rw [gap, hw]
  have hcontent := (h.words w (hw ▸ List.mem_cons_self)).lexeme
  have hall := h.all
  rw [hw, List.flatMap_cons, Word.lexemes] at hall
  rw [hgap]
  refine ⟨hcontent, ⟨ws.flatMap Word.lexemes ++ c.tail, by rw [hall]; simp⟩, ?_⟩
  rw [Cursor.advance, hw]
  refine ⟨by rw [hall]; simp, fun v hv => h.words v (hw ▸ List.mem_cons_of_mem w hv), h.tail,
    fun hstart => absurd hstart.symm Bool.false_ne_true, fun _ => ?_⟩
  exact ⟨behind ++ w.gap, w.lexeme, by simp, hcontent, rfl⟩

theorem stop_le {l : Lexeme} (hl : l ∈ behind) : l.stop ≤ c.prevEnd := by
  cases hstarted : c.started with
  | false =>
    rw [h.unread hstarted] at hl
    cases hl
  | true =>
    obtain ⟨before, last, rfl, -, hstop⟩ := h.last hstarted
    have htile := Lexeme.tile_all source 0
    rw [h.all, Lexeme.tile_append] at htile
    obtain ⟨mid, hbehind, -⟩ := htile
    obtain ⟨_, -, -, -, hmid⟩ := Lexeme.tile_append.1 hbehind
    obtain ⟨front, rest, heq⟩ := List.append_of_mem hl
    rw [heq] at hbehind
    obtain ⟨_, -, -, -, hrest⟩ := Lexeme.tile_append.1 hbehind
    rw [← hstop, (hmid : last.stop = mid)]
    exact hrest.le

end Cursor.Splits

/-! ### States -/

namespace State

/-- Whether a state lies between two parts of a document. -/
def Between (source : Source) (s : State) : Prop := ∃ behind, s.cursor.Splits source behind

theorem between_begin (source : Source) : (begin source 0).Between source := by
  refine ⟨[], ?_⟩
  rw [begin, cursor_ofLexemes]
  exact ⟨Word.split_eq _, fun w hw => Word.wellFormed_of_mem_split hw,
    fun l hl => Word.isTrivia_of_mem_split hl, fun _ => rfl,
    fun hstarted => absurd hstarted Bool.false_ne_true⟩

theorem Between.of_eq {source : Source} {s s' : State} (h : s.Between source)
    (hc : s'.cursor = s.cursor) : s'.Between source := by
  obtain ⟨behind, hsplits⟩ := h
  exact ⟨behind, hc ▸ hsplits⟩

theorem Between.advance {source : Source} {s : State} (h : s.Between source) :
    s.advance.Between source := by
  cases hl : s.cursor.lexeme? with
  | none =>
    have hend : s.cursor.atEnd = true := by
      simpa [Cursor.lexeme?, Cursor.word?, Cursor.atEnd] using hl
    rwa [State.advance, if_pos hend]
  | some l =>
    obtain ⟨behind, hsplits⟩ := h
    refine ⟨behind ++ (s.cursor.gap ++ [l]), ?_⟩
    rw [cursor_advance]
    exact (hsplits.advance hl).2.2

theorem steps_between (source : Source) :
    Steps fun s s' => s.Between source → s'.Between source where
  refl _ := id
  trans h h' := h' ∘ h
  advance _ := Between.advance
  alloc _ h := h.of_eq rfl
  report _ _ _ _ h := h.of_eq rfl
  claim s h := h.of_eq (cursor_claim s)

end State

/-! ### Tokens -/

theorem Token.content_of_symbol {t : Token} {b : UInt8} (h : t.symbol? = some b) :
    t.isTrivia = false := by
  unfold symbol? at h
  split at h
  · rename_i hk _
    rw [isTrivia, hk]
    rfl
  · cases h

/-- Whether the token `b` comes behind the token `a` with nothing but trivia in between. -/
def Token.LeadsTo (ts : List Token) (a b : Token) : Prop :=
  ∃ before gap after, ts = before ++ a :: (gap ++ b :: after) ∧ ∀ g ∈ gap, g.isTrivia = true

theorem State.Between.leadsTo {source : Source} {s : State} {a b : Lexeme}
    (h : s.Between source) (ha : s.cursor.lexeme? = some a)
    (hb : s.advance.cursor.lexeme? = some b) :
    Token.LeadsTo (Token.all source.bytes 0) a.toToken b.toToken := by
  obtain ⟨behind, hsplits⟩ := h
  obtain ⟨-, -, hnext⟩ := hsplits.advance ha
  rw [cursor_advance] at hb
  obtain ⟨-, ⟨rest, hall⟩, -⟩ := hnext.advance hb
  refine ⟨(behind ++ s.cursor.gap).map Lexeme.toToken,
    s.cursor.advance.gap.map Lexeme.toToken, rest.map Lexeme.toToken, ?_, ?_⟩
  · rw [← Parse.toToken_all, hall]
    simp
  · exact List.forall_mem_map.2 hnext.isTrivia_of_mem_gap

theorem State.Between.mem_all {source : Source} {s : State} {l : Lexeme} (h : s.Between source)
    (hl : s.cursor.lexeme? = some l) : l ∈ Lexeme.all source 0 := by
  obtain ⟨behind, hsplits⟩ := h
  obtain ⟨-, ⟨rest, hall⟩, -⟩ := hsplits.advance hl
  rw [hall]
  simp

end Metadoc
