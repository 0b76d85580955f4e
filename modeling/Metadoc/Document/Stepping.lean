import Metadoc.Document.Parse
import Metadoc.Document.Progress

/-!
# Reading node after node

`Parse.steps` cuts a text into lexemes once and reads on in what is left of them.  The result is
that of reading each node from the text anew.

* `Parse.stop_firstNode` : a node ends where a lexeme begins, or with the document;
* `Parse.steps_succ` : each step is `Parse.oneNode` from where the one before ended.
-/

namespace Metadoc

theorem Word.lexeme_mem_of_mem_splitAfter {w : Word} {ls : List Lexeme} :
    ∀ {gap : List Lexeme}, w ∈ (splitAfter gap ls).1 → w.lexeme ∈ ls := by
  induction ls with
  | nil => intro gap h; simp [splitAfter] at h
  | cons l ls ih =>
    intro gap h
    unfold splitAfter at h
    split at h
    · exact List.mem_cons_of_mem l (ih h)
    · rcases List.mem_cons.1 h with h | h
      · subst h; exact List.mem_cons_self
      · exact List.mem_cons_of_mem l (ih h)

theorem Cursor.pos_eq (c : Cursor) :
    c.pos = c.length ∨ ∃ w ∈ c.ahead, c.pos = w.lexeme.start := by
  unfold pos span
  cases c.ahead with
  | nil => exact .inl rfl
  | cons w rest => exact .inr ⟨w, List.mem_cons_self, rfl⟩

namespace State

theorem Reaches.pos_eq {length pos : Nat} {lexemes : List Lexeme} {s : State}
    (h : Reaches (ofLexemes length pos lexemes) s) :
    s.cursor.pos = length ∨ ∃ l ∈ lexemes, s.cursor.pos = l.start := by
  have hlength : s.cursor.length = length := by simpa [Cursor.ofLexemes] using h.length
  rcases s.cursor.pos_eq with hp | ⟨w, hw, hp⟩
  · exact .inl (hp.trans hlength)
  · refine .inr ⟨w.lexeme, ?_, hp⟩
    have hmem := h.suffix.subset hw
    rw [cursor_ofLexemes] at hmem
    exact Word.lexeme_mem_of_mem_splitAfter hmem

end State

namespace Parse

/-- A node ends where a lexeme begins, or with the document. -/
theorem stop_firstNode (depth : Nat) (source : Source) (pos : Nat) (lexemes : List Lexeme) :
    (firstNode depth source (.ofLexemes source.length pos lexemes)).stop = source.length ∨
      ∃ l ∈ lexemes,
        (firstNode depth source (.ofLexemes source.length pos lexemes)).stop = l.start := by
  unfold firstNode
  split
  · exact (State.Reaches.refl _).pos_eq
  · exact (Grammar.entry_reaches (Grammar.levels_forward depth) .top _).pos_eq

/-- What is left of the lexemes behind a node are the lexemes from its end on. -/
theorem dropWhile_firstNode (depth : Nat) (source : Source) (pos : Nat) :
    let p := firstNode depth source (State.begin source pos)
    (Lexeme.all source pos).dropWhile (·.start < p.stop) = Lexeme.all source p.stop := by
  intro p
  rcases stop_firstNode depth source pos (Lexeme.all source pos) with h | ⟨l, hl, h⟩
  · rw [show p.stop = source.length from h]; exact (Lexeme.all_length source pos).symm
  · rw [show p.stop = l.start from h]; exact (Lexeme.all_start hl).symm

@[simp] theorem steps_zero (text : Bytes) (pos : Nat) : steps text 0 pos = [] := rfl

/-- Each step is one node read from where the one before ended. -/
theorem steps_succ (text : Bytes) (n pos : Nat) :
    steps text (n + 1) pos =
      let p := oneNode text pos
      if p.root.isNone then [p] else p :: steps text n p.stop := by
  simp only [steps, stepsFrom]
  rw [← State.begin, dropWhile_firstNode]
  rfl

end Parse

end Metadoc
