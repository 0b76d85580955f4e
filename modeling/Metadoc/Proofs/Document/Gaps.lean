import Metadoc.Proofs.Document.Sides
import Mathlib.Algebra.GroupWithZero.Nat

/-!
# Comments in gaps

A gap is summed up by its line breaks and two of its comments.

* `Token.feeds` counts the line breaks in the blanks among tokens;
* `Trivia.Sums` says what the sum of a gap tells about the gap;
* `Token.Trails` and `Token.Heads` say that a comment stands behind a token on the same line, or
  above one;
* `State.Between.trails` and `State.Between.heads` : the two comments of a gap do so.
-/

namespace Metadoc

/-- Number of line breaks in the blanks among tokens. -/
def Token.feeds (ts : List Token) : Nat :=
  (ts.map fun t => if t.kind = .whitespace then Bytes.lineFeeds t.bytes else 0).sum

namespace Token

theorem feeds_append (ts us : List Token) : feeds (ts ++ us) = feeds ts + feeds us := by
  simp [feeds]

theorem feeds_singleton (t : Token) :
    feeds [t] = if t.kind = .whitespace then Bytes.lineFeeds t.bytes else 0 := by
  simp [feeds]

end Token

/-- Number of line breaks in the blanks among lexemes. -/
def Lexeme.feeds (ls : List Lexeme) : Nat := Token.feeds (ls.map toToken)

/-- A gap has the comment `c`, behind the lexemes `before` and before the lexemes `after`. -/
structure Lexeme.CommentIn (gap before : List Lexeme) (c : Lexeme) (after : List Lexeme) :
    Prop where
  /-- These are all. -/
  all : gap = before ++ c :: after
  /-- It is a comment. -/
  kind : c.kind = .comment

/-! ### Sums of gaps -/

namespace Trivia

/-- What the sum of a gap tells about the gap. -/
structure Sums (started : Bool) (gap : List Lexeme) (t : Trivia) : Prop where
  /-- It counts the line breaks. -/
  newlines : t.newlines = Lexeme.feeds gap
  /-- One comment is on the line of the word before. -/
  trailing : ∀ c ∈ t.trailing, started = true ∧ ∃ before after,
    Lexeme.CommentIn gap before c after ∧ Lexeme.feeds before = 0
  /-- The other is behind that line, and behind the first. -/
  leading : ∀ x ∈ t.leading, ∃ before after, Lexeme.CommentIn gap before x.1 after ∧
    Lexeme.feeds after = x.2 ∧ (started = true → 0 < Lexeme.feeds before) ∧
      ∀ c ∈ t.trailing, c ∈ before

namespace Sums

variable {started : Bool} {gap : List Lexeme} {t : Trivia}

theorem feeds_append (ls ms : List Lexeme) :
    Lexeme.feeds (ls ++ ms) = Lexeme.feeds ls + Lexeme.feeds ms := by
  rw [Lexeme.feeds, List.map_append, Token.feeds_append]
  rfl

theorem nil (started : Bool) : Sums started [] {} :=
  ⟨rfl, fun c hc => absurd hc (Option.not_mem_none c),
    fun x hx => absurd hx (Option.not_mem_none x)⟩

theorem snoc (h : Sums started gap t) (l : Lexeme) :
    (∀ c ∈ t.trailing, started = true ∧ ∃ before after,
      Lexeme.CommentIn (gap ++ [l]) before c after ∧ Lexeme.feeds before = 0) ∧
    ∀ x ∈ t.leading, ∃ before after, Lexeme.CommentIn (gap ++ [l]) before x.1 after ∧
      Lexeme.feeds after = x.2 + Lexeme.feeds [l] ∧
        (started = true → 0 < Lexeme.feeds before) ∧ ∀ c ∈ t.trailing, c ∈ before := by
  constructor
  · intro c hc
    obtain ⟨hstarted, before, after, hin, hzero⟩ := h.trailing c hc
    exact ⟨hstarted, before, after ++ [l], ⟨by rw [hin.all]; simp, hin.kind⟩, hzero⟩
  · intro x hx
    obtain ⟨before, after, hin, hfeeds, hbroken, htrailing⟩ := h.leading x hx
    refine ⟨before, after ++ [l], ⟨by rw [hin.all]; simp, hin.kind⟩, ?_, hbroken, htrailing⟩
    rw [feeds_append, hfeeds]

theorem add (h : Sums started gap t) (l : Lexeme) :
    Sums started (gap ++ [l]) (t.add started l) := by
  obtain ⟨htrailing, hleading⟩ := h.snoc l
  have hfeeds : Lexeme.feeds [l] =
      if l.kind = .whitespace then Bytes.lineFeeds l.bytes else 0 := Token.feeds_singleton _
  have hnewlines : (t.add started l).newlines = Lexeme.feeds (gap ++ [l]) := by
    rw [newlines_add, h.newlines, feeds_append, hfeeds]
  refine ⟨hnewlines, ?_, ?_⟩ <;> unfold Trivia.add
  · split
    · exact htrailing
    · rename_i hk
      split
      · rename_i hline
        cases ht : t.trailing with
        | some c => rwa [ht] at htrailing
        | none =>
          rintro c ⟨⟩
          refine ⟨hline.2, gap, [], ⟨rfl, hk⟩, ?_⟩
          rw [← h.newlines, hline.1]
      · exact htrailing
    · exact htrailing
  · split
    · rename_i hk
      rintro x hx
      obtain ⟨y, hy, rfl⟩ := Option.map_eq_some_iff.1 hx
      rw [hfeeds, if_pos hk] at hleading
      exact hleading y hy
    · rename_i hk
      have hnone : Lexeme.feeds [l] = 0 := by rw [hfeeds, hk, if_neg nofun]
      split
      · rename_i hline
        -- Behind a comment that leads, the line is broken already.
        intro x hx
        obtain ⟨before, after, hin, -, hbroken, -⟩ := h.leading x hx
        have hgap := h.newlines
        rw [hline.1, hin.all, feeds_append] at hgap
        exact absurd (hbroken hline.2) (by omega)
      · rename_i hline
        rintro x ⟨⟩
        refine ⟨gap, [], ⟨rfl, hk⟩, rfl, fun hstarted => ?_, fun c hc => ?_⟩
        · rw [← h.newlines]
          exact Nat.pos_of_ne_zero fun hzero => hline ⟨hzero, hstarted⟩
        · obtain ⟨-, before, after, hin, -⟩ := h.trailing c hc
          rw [hin.all]
          simp
    · rename_i hblank hcomment
      rw [hfeeds, if_neg hblank] at hleading
      exact hleading

theorem foldl (gap' : List Lexeme) : ∀ {gap : List Lexeme} {t : Trivia}, Sums started gap t →
    Sums started (gap ++ gap') (gap'.foldl (Trivia.add started) t) := by
  induction gap' with
  | nil =>
    intro gap t h
    rwa [List.append_nil]
  | cons l gap' ih =>
    intro gap t h
    have hrest := ih (h.add l)
    rwa [List.append_assoc] at hrest

end Sums

theorem sums_ofGap (started : Bool) (gap : List Lexeme) :
    Sums started gap (ofGap started gap) := (Sums.nil started).foldl gap

end Trivia

/-! ### Comments beside words -/

namespace Token

/-- Whether the token `c` stands behind the token `a` on the same line: nothing but trivia is in
between, and no line break but inside comments. -/
def Trails (ts : List Token) (a c : Token) : Prop :=
  ∃ before gap after, ts = before ++ a :: (gap ++ c :: after) ∧
    (∀ g ∈ gap, g.isTrivia = true) ∧ feeds gap = 0

/-- Whether no word stands on the line of what comes behind the tokens `before`: there is none among
them, or a line break behind the last of them. -/
def LineOpens (before : List Token) : Prop :=
  (∀ t ∈ before, t.isTrivia = true) ∨
    ∃ front a gap, before = front ++ a :: gap ∧ a.isTrivia = false ∧
      (∀ g ∈ gap, g.isTrivia = true) ∧ 0 < feeds gap

/-- Whether the token `c` stands above the token `a`, with no blank line in between: nothing but
trivia is in between, and no word before it on its line. -/
def Heads (ts : List Token) (c a : Token) : Prop :=
  ∃ before gap after, ts = before ++ c :: (gap ++ a :: after) ∧
    (∀ g ∈ gap, g.isTrivia = true) ∧ feeds gap < 2 ∧ LineOpens before

end Token

/-- The comment on the line of the last word behind a cursor stands behind that word. -/
theorem Cursor.Splits.trails {source : Source} {front : List Lexeme} {last c : Lexeme}
    {cursor : Cursor} (h : cursor.Splits source (front ++ [last]))
    (hc : cursor.trivia.trailing = some c) :
    c.kind = .comment ∧ Token.Trails (Token.all source.bytes 0) last.toToken c.toToken := by
  obtain ⟨-, before, after, hin, hzero⟩ :=
    (Trivia.sums_ofGap cursor.started cursor.gap).trailing c hc
  obtain ⟨rest, hall⟩ := h.exists_gap
  have hgap := h.isTrivia_of_mem_gap
  rw [hin.all] at hall hgap
  refine ⟨hin.kind, front.map Lexeme.toToken, before.map Lexeme.toToken,
    (after ++ rest).map Lexeme.toToken, ?_, ?_, hzero⟩
  · rw [← Parse.toToken_all, hall]
    simp
  · exact List.forall_mem_map.2 fun l hl => hgap l (List.mem_append_left _ hl)

namespace State

variable {source : Source} {s : State} {c : Lexeme}

/-- The comment on the line of the last word stands behind it. -/
theorem Between.trails (h : s.Between source) (hc : s.cursor.trivia.trailing = some c) :
    c.kind = .comment ∧ ∃ last : Token, last.isTrivia = false ∧
      last.stop = s.cursor.prevEnd ∧ Token.Trails (Token.all source.bytes 0) last c.toToken := by
  obtain ⟨behind, hsplits⟩ := h
  obtain ⟨hstarted, -⟩ :=
    (Trivia.sums_ofGap s.cursor.started s.cursor.gap).trailing c hc
  obtain ⟨front, last, rfl, hcontent, hstop⟩ := hsplits.last hstarted
  obtain ⟨hkind, htrails⟩ := hsplits.trails hc
  exact ⟨hkind, last.toToken, hcontent, hstop, htrails⟩

theorem Between.trails_advance (h : s.Between source) {a : Lexeme}
    (ha : s.cursor.lexeme? = some a) (hc : s.advance.cursor.trivia.trailing = some c) :
    c.kind = .comment ∧ Token.Trails (Token.all source.bytes 0) a.toToken c.toToken := by
  obtain ⟨behind, hsplits⟩ := h
  have hnext := (hsplits.advance ha).2.2
  rw [← List.append_assoc] at hnext
  rw [cursor_advance] at hc
  exact hnext.trails hc

/-- The comment above the word ahead stands above it. -/
theorem Between.heads (h : s.Between source) {a : Lexeme} (ha : s.cursor.lexeme? = some a)
    {n : Nat} (hc : s.cursor.trivia.leading = some (c, n)) (hn : n < 2) :
    c.kind = .comment ∧ Token.Heads (Token.all source.bytes 0) c.toToken a.toToken := by
  obtain ⟨behind, hsplits⟩ := h
  obtain ⟨before, after, hin, hfeeds, hbroken, -⟩ :=
    (Trivia.sums_ofGap s.cursor.started s.cursor.gap).leading (c, n) hc
  obtain ⟨-, ⟨rest, hall⟩, -⟩ := hsplits.advance ha
  have hgap := hsplits.isTrivia_of_mem_gap
  rw [hin.all] at hall hgap
  have hbefore : ∀ t ∈ before.map Lexeme.toToken, t.isTrivia = true :=
    List.forall_mem_map.2 fun l hl => hgap l (List.mem_append_left _ hl)
  refine ⟨hin.kind, (behind ++ before).map Lexeme.toToken, after.map Lexeme.toToken,
    rest.map Lexeme.toToken, ?_, ?_, hfeeds.trans_lt hn, ?_⟩
  · rw [← Parse.toToken_all, hall]
    simp
  · refine List.forall_mem_map.2 fun l hl => hgap l ?_
    exact List.mem_append_right _ (List.mem_cons_of_mem c hl)
  · cases hstarted : s.cursor.started with
    | false =>
      rw [hsplits.unread hstarted]
      exact .inl hbefore
    | true =>
      obtain ⟨front, last, rfl, hcontent, -⟩ := hsplits.last hstarted
      refine .inr ⟨front.map Lexeme.toToken, last.toToken, before.map Lexeme.toToken, by simp,
        hcontent, hbefore, hbroken hstarted⟩

end State

end Metadoc
