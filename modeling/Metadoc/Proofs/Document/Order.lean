import Metadoc.Proofs.Document.Stepwise

/-!
# Reading in order

The lexemes ahead of a state cover the rest of the document, each of them beginning where the one
before it ends.  So whatever has been read ends where the word ahead begins, or before.

* `Span.LiesIn` says that one range lies inside another;
* `Lexeme.Tile` says that lexemes cover a part of a document;
* `Cursor.Tiled` says it of those ahead of a cursor, and what that means for the places before and
  behind the word ahead;
* `State.Onward` says how a state lies behind another, and `Grammar.Run.onward` that reading ends in
  such a state.
-/

namespace Metadoc

/-! ### Ranges -/

/-- Whether a range runs forward inside another. -/
structure Span.LiesIn (inner outer : Span) : Prop where
  /-- It does not begin before the other. -/
  start : outer.start ≤ inner.start
  /-- It does not end before it begins. -/
  forward : inner.start ≤ inner.stop
  /-- It does not end behind the other. -/
  stop : inner.stop ≤ outer.stop

instance (inner outer : Span) : Decidable (inner.LiesIn outer) :=
  decidable_of_iff (outer.start ≤ inner.start ∧ inner.start ≤ inner.stop ∧ inner.stop ≤ outer.stop)
    ⟨fun ⟨hstart, hforward, hstop⟩ => ⟨hstart, hforward, hstop⟩,
      fun h => ⟨h.start, h.forward, h.stop⟩⟩

theorem Span.LiesIn.trans {a b c : Span} (h : a.LiesIn b) (h' : b.LiesIn c) : a.LiesIn c :=
  ⟨h'.start.trans h.start, h.forward, h.stop.trans h'.stop⟩

/-! ### Lexemes -/

namespace Lexeme

/-- Whether lexemes cover a document from a position on up to `stop`, each of them beginning where
the one before it ends, and none of them empty. -/
def Tile (stop : Nat) : Nat → List Lexeme → Prop
  | start, [] => start = stop
  | start, l :: ls => l.start = start ∧ l.start < l.stop ∧ Tile stop l.stop ls

variable {start stop : Nat} {ls ms : List Lexeme}

theorem Tile.le : ∀ {start : Nat} {ls : List Lexeme}, Tile stop start ls → start ≤ stop
  | _, [], h => Nat.le_of_eq h
  | _, _ :: _, ⟨hstart, hlt, hrest⟩ => hstart ▸ hlt.le.trans hrest.le

theorem tile_append : ∀ {start : Nat} {ls : List Lexeme},
    Tile stop start (ls ++ ms) ↔ ∃ mid, Tile mid start ls ∧ Tile stop mid ms
  | start, [] => by simp [Tile]
  | start, l :: ls => by simp [Tile, tile_append, and_assoc]

theorem tile_allFrom (text : Token → String) {ts : List Token} :
    ∀ {pos : Nat} {bytes : Bytes}, Token.allFrom pos 0 bytes = ts →
      Tile (pos + bytes.length) pos (ts.map fun t => ⟨t, text t⟩) := by
  induction ts with
  | nil =>
    intro pos bytes h
    have hbytes := Token.flatMap_bytes_allFrom bytes pos 0
    rw [h] at hbytes
    rw [← List.drop_zero (l := bytes), ← hbytes]
    rfl
  | cons t ts ih =>
    intro pos bytes h
    obtain ⟨hne, rfl, rest, rfl, -, hrest⟩ := Token.allFrom_eq_cons h
    have hlength : 0 < t.length := List.length_pos_iff.2 hne
    refine ⟨rfl, Nat.lt_add_of_pos_right hlength, ?_⟩
    rw [List.length_append, ← Nat.add_assoc]
    exact ih hrest

theorem tile_all (source : Source) (pos : Nat) :
    Tile source.length (min pos source.length) (all source pos) := by
  rw [all_eq_map]
  have htile := tile_allFrom (fun t => source.shown.textOf t.span)
    (rfl : Token.allFrom (min pos source.length) 0
      (source.bytes.drop (min pos source.length)) = _)
  have hlength : min pos source.length + (source.bytes.length - min pos source.length) =
      source.length := Nat.add_sub_cancel' (Nat.min_le_right _ _)
  rwa [List.length_drop, hlength] at htile

end Lexeme

/-! ### Cursors -/

namespace Cursor

variable {c : Cursor}

/-- Whether the lexemes ahead cover the document from the last word behind to its end. -/
def Tiled (c : Cursor) : Prop :=
  Lexeme.Tile c.length c.prevEnd (c.ahead.flatMap Word.lexemes ++ c.tail)

theorem tiled_begin (source : Source) (pos : Nat) : (State.begin source pos).cursor.Tiled := by
  rw [State.begin, State.cursor_ofLexemes, Tiled]
  have htile := Lexeme.tile_all source pos
  rwa [Word.split_eq (Lexeme.all source pos)] at htile

/-- The gap before the word ahead lies between the words on both sides; behind the word, the rest of
the document is covered again. -/
theorem Tiled.of_cons (h : c.Tiled) {w : Word} {ws : List Word} (hw : c.ahead = w :: ws) :
    Lexeme.Tile w.lexeme.start c.prevEnd w.gap ∧ w.lexeme.start < w.lexeme.stop ∧
      c.advance.Tiled := by
  rw [Tiled, hw, List.flatMap_cons, Word.lexemes, List.append_assoc, List.append_assoc,
    Lexeme.tile_append] at h
  obtain ⟨mid, hgap, rfl, hlt, hrest⟩ := h
  refine ⟨hgap, hlt, ?_⟩
  rw [Tiled, advance, hw]
  exact hrest

theorem Tiled.advance (h : c.Tiled) : c.advance.Tiled := by
  cases hw : c.ahead with
  | nil => rwa [Cursor.advance, hw]
  | cons w ws => exact (h.of_cons hw).2.2

theorem span_of_cons {w : Word} {ws : List Word} (hw : c.ahead = w :: ws) :
    c.span = w.lexeme.span := by
  rw [span, hw]

theorem span_of_nil (hw : c.ahead = []) : c.span = ⟨c.length, c.length⟩ :=
  span_of_atEnd (List.isEmpty_iff.2 hw)

theorem span_of_label {l : Lexeme} (h : c.label? = some l) : c.span = l.span :=
  span_of_lexeme (Option.filter_eq_some_iff.1 h).1

theorem start_of_label {l : Lexeme} (h : c.label? = some l) : l.start = c.pos := by
  rw [pos, span_of_label h]
  rfl

theorem prevEnd_advance (hend : c.atEnd = false) : c.advance.prevEnd = c.span.stop := by
  cases hw : c.ahead with
  | nil => simp [atEnd, hw] at hend
  | cons w ws =>
    rw [span_of_cons hw, Cursor.advance, hw]
    rfl

theorem Tiled.prevEnd_le_pos (h : c.Tiled) : c.prevEnd ≤ c.pos := by
  cases hw : c.ahead with
  | nil =>
    rw [pos, span_of_nil hw]
    exact h.le
  | cons w ws =>
    rw [pos, span_of_cons hw]
    exact (h.of_cons hw).1.le

theorem Tiled.pos_lt_stop (h : c.Tiled) (hend : c.atEnd = false) : c.pos < c.span.stop := by
  cases hw : c.ahead with
  | nil => simp [atEnd, hw] at hend
  | cons w ws =>
    rw [pos, span_of_cons hw]
    exact (h.of_cons hw).2.1

theorem Tiled.pos_le_stop (h : c.Tiled) : c.pos ≤ c.span.stop := by
  cases hend : c.atEnd with
  | true =>
    rw [pos, span_of_nil (by simpa [atEnd] using hend)]
  | false => exact (h.pos_lt_stop hend).le

theorem Tiled.pos_eq_of_adjacent (h : c.Tiled) (hadj : c.adjacent = true) : c.pos = c.prevEnd := by
  have hgap : c.gap = [] := by
    simp only [adjacent, Bool.and_eq_true] at hadj
    exact List.isEmpty_iff.1 hadj.2
  cases hw : c.ahead with
  | nil =>
    have htail : c.tail = [] := by simpa [gap, hw] using hgap
    rw [Tiled, hw, htail] at h
    rw [pos, span_of_nil hw]
    exact h.symm
  | cons w ws =>
    have hnone : w.gap = [] := by simpa [gap, hw] using hgap
    have htile := (h.of_cons hw).1
    rw [hnone] at htile
    rw [pos, span_of_cons hw]
    exact htile.symm

end Cursor

/-! ### States -/

namespace State

variable {s s' s'' : State}

/-- How a state lies behind another: the lexemes ahead still cover the rest of the document, and
unless no word has been read, the word that was ahead is behind. -/
structure Onward (s s' : State) : Prop where
  /-- The lexemes ahead cover the rest of the document. -/
  tiled : s'.cursor.Tiled
  /-- The word that was ahead is behind, or still ahead. -/
  moved : s'.cursor = s.cursor ∨ s.cursor.span.stop ≤ s'.cursor.prevEnd

theorem atEnd_of_left_lt (h : s'.left < s.left) : s.cursor.atEnd = false := by
  refine Bool.eq_false_iff.2 fun hend => ?_
  have hnone : s.left = 0 := by simpa [left, Cursor.atEnd] using hend
  rw [hnone] at h
  exact Nat.not_lt_zero _ h

theorem spanFrom_congr (h : s'.cursor = s.cursor) (start : Nat) :
    s'.spanFrom start = s.spanFrom start := by
  rw [spanFrom, spanFrom, h]

theorem Onward.of_cursor_eq (h : s.cursor.Tiled) (hc : s'.cursor = s.cursor) : Onward s s' :=
  ⟨hc ▸ h, .inl hc⟩

theorem Onward.trans (h : Onward s s') (h' : Onward s' s'') : Onward s s'' := by
  refine ⟨h'.tiled, ?_⟩
  rcases h'.moved with hc' | hle'
  · exact hc' ▸ h.moved
  · rcases h.moved with hc | hle
    · exact .inr (hc ▸ hle')
    · exact .inr ((hle.trans (h.tiled.prevEnd_le_pos.trans h.tiled.pos_le_stop)).trans hle')

theorem onward_advance (h : s.cursor.Tiled) : Onward s s.advance := by
  refine ⟨by rw [cursor_advance]; exact h.advance, ?_⟩
  cases hend : s.cursor.atEnd with
  | true => exact .inl (by rw [advance, if_pos hend])
  | false => exact .inr (by rw [cursor_advance, Cursor.prevEnd_advance hend])

theorem steps_onward : Steps fun s s' => s.cursor.Tiled → Onward s s' where
  refl _ h := .of_cursor_eq h rfl
  trans h h' hs := (h hs).trans (h' (h hs).tiled)
  advance _ := onward_advance
  alloc _ h := .of_cursor_eq h rfl
  report _ _ _ _ h := .of_cursor_eq h rfl
  claim s h := .of_cursor_eq h (cursor_claim s)

namespace Onward

variable (h : Onward s s') (hs : s.cursor.Tiled)
include h hs

theorem prevEnd_le : s.cursor.prevEnd ≤ s'.cursor.prevEnd := by
  rcases h.moved with hc | hle
  · exact Nat.le_of_eq (hc ▸ rfl)
  · exact (hs.prevEnd_le_pos.trans hs.pos_le_stop).trans hle

theorem pos_le : s.cursor.pos ≤ s'.cursor.pos := by
  rcases h.moved with hc | hle
  · exact Nat.le_of_eq (hc ▸ rfl)
  · exact (hs.pos_le_stop.trans hle).trans h.tiled.prevEnd_le_pos

omit hs in
theorem stop_le (hlt : s'.left < s.left) : s.cursor.span.stop ≤ s'.cursor.prevEnd := by
  refine h.moved.resolve_left fun hc => ?_
  rw [left, left, hc] at hlt
  exact Nat.lt_irrefl _ hlt

theorem pos_lt_prevEnd (hlt : s'.left < s.left) : s.cursor.pos < s'.cursor.prevEnd :=
  (hs.pos_lt_stop (atEnd_of_left_lt hlt)).trans_le (h.stop_le hlt)

/-- The word that was ahead lies in the range from there, or from further back, up to here. -/
theorem liesIn_spanFrom {start : Nat} (hlt : s'.left < s.left) (hstart : start ≤ s.cursor.pos) :
    s.cursor.span.LiesIn (s'.spanFrom start) :=
  ⟨hstart, hs.pos_le_stop, (h.stop_le hlt).trans (Nat.le_max_left _ _)⟩

end Onward

end State

/-- Whether a part can be read where it begins: an entry is read only before the end. -/
def Grammar.Part.Begun (s : State) : Part → Prop
  | .entry _ => s.cursor.atEnd = false
  | _ => True

/-- Reading goes on in order. -/
theorem Grammar.Run.onward {n : Nat} {part : Part} {s : State} {r : Read SetBody}
    (h : Run n part s r) (hs : s.cursor.Tiled) : State.Onward s r.state :=
  State.steps_onward.run h hs

theorem Grammar.onward_of_label {n : Nat} {part : Part} {s : State} {l : Lexeme} {r : Read SetBody}
    (hl : s.cursor.label? = some l) (hs : s.cursor.Tiled)
    (body : Run n part (s.behindLabel l).advance r) :
    State.Onward s r.state ∧ r.state.left < s.left := by
  have hlabel := State.steps_onward.behindLabel s l hs
  have hmark := hlabel.trans (State.onward_advance hlabel.tiled)
  exact ⟨hmark.trans (body.onward hmark.tiled),
    (body.progress.1.trans (State.left_advance_le _)).trans_lt (left_behindLabel hl)⟩

end Metadoc
