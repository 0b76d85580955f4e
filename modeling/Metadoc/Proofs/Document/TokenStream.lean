import Metadoc.Proofs.Document.Gaps
import Metadoc.Proofs.Document.Stepwise
import Metadoc.Proofs.Token.Maximal

/-!
# The cursor and the tokens that a reader finds

Stepping over a word folds the trivia behind it into a summary and reports its faults.  All of it
can be said of the tokens alone, as a `TokenReader` finds them.

* `Token.places` lists tokens with what stands on both sides of them, and `Token.trailing?` and
  `Token.leading?` look up the two comments of a gap there;
* `Trivia.trailing_ofGap` and `Trivia.leading_ofGap` : these are the comments that the fold keeps;
* `State.Stands` is what stepping over words preserves, and `State.exists_stands` that it holds
  after any number of steps;
* `State.refines_tokens` : so the cursor follows the tokens that a reader finds;
* `State.steps_along` : whatever is read, the cursor stands where steps over words lead.
-/

namespace Metadoc

/-! ### The comments of a gap -/

namespace Token

/-- A token of a list, with those on both sides. -/
structure Place where
  /-- The tokens before it. -/
  before : List Token
  /-- The token. -/
  token : Token
  /-- The tokens after it. -/
  after : List Token
deriving DecidableEq, Repr

/-- The place in a list that goes on with one more token. -/
def Place.snoc (p : Place) (t : Token) : Place := { p with after := p.after ++ [t] }

/-- The places of a list, in order. -/
def places : List Token → List Place
  | [] => []
  | t :: ts => ⟨[], t, ts⟩ :: (places ts).map fun p => { p with before := t :: p.before }

/-- The places of the comments in a list. -/
def comments (ts : List Token) : List Place := (places ts).filter (·.token.kind = .comment)

/-- The first comment of a gap with no line break before it, if the gap comes behind a word. -/
def trailing? (started : Bool) (gap : List Token) : Option Token :=
  if started then ((comments gap).find? (feeds ·.before = 0)).map (·.token) else none

/-- Whether a line break comes before a place of a gap, or no word does. -/
def Place.opens (started : Bool) (p : Place) : Bool := !started || 0 < feeds p.before

/-- The last comment of a gap with a line break before it, or the last one at all if no word comes
before the gap, and the number of line breaks after it. -/
def leading? (started : Bool) (gap : List Token) : Option (Token × Nat) :=
  ((comments gap).filter (·.opens started)).getLast?.map fun p => (p.token, feeds p.after)

theorem Place.opens_iff {started : Bool} {p : Place} :
    p.opens started = true ↔ (started = true → 0 < feeds p.before) := by
  cases started <;> simp [opens]

theorem places_concat (ts : List Token) (t : Token) :
    places (ts ++ [t]) = (places ts).map (·.snoc t) ++ [⟨ts, t, []⟩] := by
  induction ts with
  | nil => rfl
  | cons u ts ih => simp [places, ih, Place.snoc]

theorem comments_concat (ts : List Token) (t : Token) :
    comments (ts ++ [t]) =
      (comments ts).map (·.snoc t) ++ if t.kind = .comment then [⟨ts, t, []⟩] else [] := by
  rw [comments, places_concat, List.filter_append, List.filter_map]
  congr 1
  by_cases ht : t.kind = .comment <;> simp [ht]

theorem trailing?_concat (started : Bool) (gap : List Token) (t : Token) :
    trailing? started (gap ++ [t]) = (trailing? started gap <|>
      if t.kind = .comment ∧ feeds gap = 0 ∧ started then some t else none) := by
  cases started with
  | false => simp [trailing?]
  | true =>
    have hsnoc : ((comments gap).map (·.snoc t)).find? (feeds ·.before = 0) =
        ((comments gap).find? (feeds ·.before = 0)).map (·.snoc t) := List.find?_map
    rw [trailing?, trailing?, comments_concat, List.find?_append, hsnoc]
    cases (comments gap).find? (feeds ·.before = 0) with
    | some p => rfl
    | none => by_cases ht : t.kind = .comment <;> by_cases hgap : feeds gap = 0 <;> simp [ht, hgap]

/-- One more token is the leading comment if it can be one.  Else it adds its line breaks. -/
theorem leading?_concat (started : Bool) (gap : List Token) (t : Token) :
    leading? started (gap ++ [t]) =
      if t.kind = .comment ∧ (started → 0 < feeds gap) then some (t, 0)
      else (leading? started gap).map fun x => (x.1, x.2 + feeds [t]) := by
  have hsnoc : ((comments gap).map (·.snoc t)).filter (·.opens started) =
      ((comments gap).filter (·.opens started)).map (·.snoc t) := List.filter_map
  have hlast : (if t.kind = .comment then [(⟨gap, t, []⟩ : Place)] else []).filter
      (·.opens started) = if t.kind = .comment ∧ (started → 0 < feeds gap)
        then [⟨gap, t, []⟩] else [] := by
    by_cases ht : t.kind = .comment <;> simp [ht, List.filter_singleton, Place.opens_iff]
  rw [leading?, leading?, comments_concat, List.filter_append, hsnoc, hlast]
  split
  · rw [List.getLast?_concat]
    rfl
  · rw [List.append_nil, List.getLast?_map, Option.map_map, Option.map_map]
    simp [Function.comp_def, Place.snoc, feeds_append]

end Token

namespace Trivia

open Token (feeds feeds_singleton trailing? trailing?_concat leading? leading?_concat)

theorem ofGap_concat (started : Bool) (gap : List Lexeme) (l : Lexeme) :
    ofGap started (gap ++ [l]) = (ofGap started gap).add started l := by
  rw [ofGap, List.foldl_append]
  rfl

theorem newlines_ofGap (started : Bool) (gap : List Lexeme) :
    (ofGap started gap).newlines = feeds (gap.map Lexeme.toToken) :=
  (sums_ofGap started gap).newlines

/-- The comment that is kept for the word before a gap. -/
theorem trailing_ofGap (started : Bool) (gap : List Lexeme) :
    (ofGap started gap).trailing.map Lexeme.toToken =
      trailing? started (gap.map Lexeme.toToken) := by
  induction gap using List.reverseRecOn with
  | nil => cases started <;> rfl
  | append_singleton gap l ih =>
    rw [ofGap_concat, List.map_append, List.map_singleton, trailing?_concat, ← ih,
      ← newlines_ofGap started, add]
    split
    · rename_i hk
      simp [hk]
    · rename_i hk
      by_cases hline : (ofGap started gap).newlines = 0 ∧ started
      · rw [if_pos hline, if_pos ⟨hk, hline⟩]
        cases (ofGap started gap).trailing <;> rfl
      · rw [if_neg hline, if_neg fun h => hline h.2]
        simp
    · rename_i hk
      rw [if_neg fun h => hk h.1]
      simp

/-- The comment that is kept for the word behind a gap. -/
theorem leading_ofGap (started : Bool) (gap : List Lexeme) :
    (ofGap started gap).leading.map (fun x => (x.1.toToken, x.2)) =
      leading? started (gap.map Lexeme.toToken) := by
  induction gap using List.reverseRecOn with
  | nil => rfl
  | append_singleton gap l ih =>
    rw [ofGap_concat, List.map_append, List.map_singleton, leading?_concat, ← ih,
      ← newlines_ofGap started, feeds_singleton, add]
    split
    · rename_i hk
      simp [hk, Function.comp_def]
    · rename_i hk
      by_cases hline : (ofGap started gap).newlines = 0 ∧ started
      · rw [if_pos hline, if_neg fun h => (h.2 hline.2).ne' hline.1]
        simp [hk, Function.comp_def]
      · rw [if_neg hline, if_pos ⟨hk, fun hs => Nat.pos_of_ne_zero fun h => hline ⟨h, hs⟩⟩]
        rfl
    · rename_i hblank hk
      rw [if_neg fun h => hk h.1, if_neg hblank]
      simp [Function.comp_def]

end Trivia

/-! ### Between words -/

namespace Token

/-- The tokens that carry content. -/
def words (ts : List Token) : List Token := ts.filter (!·.isTrivia)

/-- Whether tokens are cut at the gap behind `m` words: `behind` ends with the last of these, and
`ahead` begins with the next word. -/
structure Cut (ts : List Token) (m : Nat) (behind gap ahead : List Token) : Prop where
  /-- Together they are all tokens. -/
  all : ts = behind ++ (gap ++ ahead)
  /-- That many words are behind. -/
  count : (words behind).length = m
  /-- The gap begins behind a word, or at the start. -/
  last : ∀ t ∈ behind.getLast?, t.isTrivia = false
  /-- It holds trivia. -/
  gap : ∀ t ∈ gap, t.isTrivia = true
  /-- It ends before a word, or at the end. -/
  head : ∀ t ∈ ahead.head?, t.isTrivia = false

theorem words_append (ts us : List Token) : words (ts ++ us) = words ts ++ words us :=
  List.filter_append ..

theorem words_eq_nil {ts : List Token} (h : ∀ t ∈ ts, t.isTrivia = true) : words ts = [] :=
  List.filter_eq_nil_iff.2 fun t ht => by simp [h t ht]

theorem Cut.getElem?_words {ts behind gap ahead : List Token} {m : Nat}
    (h : Cut ts m behind gap ahead) : (words ts)[m]? = ahead.head? := by
  rw [h.all, words_append, words_append, words_eq_nil h.gap, List.nil_append, ← h.count,
    List.getElem?_append_right (Nat.le_refl _), Nat.sub_self]
  cases ahead with
  | nil => rfl
  | cons t ts =>
    have ht : t.isTrivia = false := h.head t rfl
    rw [words, List.filter_cons_of_pos (by simp [ht])]
    rfl

end Token

namespace Cursor

/-- The token ahead; at the end of the document, the one that stands for it. -/
def token (c : Cursor) : Token :=
  (c.lexeme?.map Lexeme.toToken).getD ⟨.endOfInput, c.length, [], none, none⟩

/-- Whether a cursor behind `m` words tells what the tokens of a text tell. -/
structure Refines (text : Bytes) (ts : List Token) (m : Nat) (gap : List Token) (c : Cursor) :
    Prop where
  /-- The token ahead is the next word, or the end. -/
  token : c.token = (Token.words ts)[m]?.getD (Token.endOf text)
  /-- The line breaks are those in the blanks of the gap. -/
  newlines : c.newlines = Token.feeds gap
  /-- Words are adjacent when there is one behind and no token in between. -/
  adjacent : c.adjacent = true ↔ 0 < m ∧ gap = []
  /-- One comment is on the line of the word behind. -/
  trailing : c.trivia.trailing.map Lexeme.toToken = Token.trailing? (0 < m) gap
  /-- The other is above the word ahead. -/
  leading : c.trivia.leading.map (fun x => (x.1.toToken, x.2)) = Token.leading? (0 < m) gap

end Cursor

/-- Whether a report is about the lexical fault of a token and begins where the token does. -/
def Token.FaultOf (t : Token) (r : Report) : Prop :=
  ∃ e, t.error = some e ∧ r.problem = .lexical e ∧ r.span.start = t.start

/-- Whether the reports are those of the faults in trivia among tokens, one for each, in order. -/
structure Token.Reported (ts : List Token) (rs : List Report) : Prop where
  /-- Fault by fault there is a report. -/
  each : List.Forall₂ FaultOf (ts.filter fun t => t.isTrivia && t.error.isSome) rs
  /-- They begin one behind the other. -/
  sorted : rs.Pairwise (·.span.start < ·.span.start)

theorem Token.map_start_of_faultOf {ts : List Token} {rs : List Report}
    (h : List.Forall₂ FaultOf ts rs) : rs.map (·.span.start) = ts.map Token.start := by
  induction h with
  | nil => rfl
  | cons hfault _ ih =>
    obtain ⟨_, -, -, hstart⟩ := hfault
    rw [List.map_cons, List.map_cons, hstart, ih]

theorem Lexeme.faultOf_of_content {ls : List Lexeme} :
    ∀ {rs : List Report}, rs.map Report.content = (ls.filter (·.isTrivia)).filterMap fault? →
      List.Forall₂ Token.FaultOf
        ((ls.map toToken).filter fun t => t.isTrivia && t.error.isSome) rs := by
  induction ls with
  | nil =>
    intro rs h
    obtain rfl := List.map_eq_nil_iff.1 h
    exact .nil
  | cons l ls ih =>
    intro rs h
    rw [List.map_cons]
    cases hl : l.isTrivia with
    | false =>
      rw [List.filter_cons_of_neg (by simp [hl])] at h ⊢
      exact ih h
    | true =>
      rw [List.filter_cons_of_pos (by simp [hl])] at h
      cases he : l.error with
      | none =>
        rw [List.filterMap_cons_none (by simp [fault?, he])] at h
        rw [List.filter_cons_of_neg (by simp [he])]
        exact ih h
      | some e =>
        rw [List.filterMap_cons_some (b := (.lexical e, l.faultSpan e)) (by simp [fault?, he])] at h
        obtain ⟨r, rs, rfl, hr, hrs⟩ := List.map_eq_cons_iff.1 h
        rw [List.filter_cons_of_pos (by simp [hl, he])]
        obtain ⟨hproblem, hspan⟩ := Prod.mk.inj hr
        exact .cons ⟨e, he, hproblem, by rw [hspan]; rfl⟩ (ih hrs)

/-! ### Step by step -/

namespace State

/-- Whether a state stands behind `m` words, with the lexemes `behind` up to the last of them, and
has reported the faults of the trivia that has been read. -/
structure Stands (source : Source) (pos m : Nat) (behind : List Lexeme) (s : State) : Prop where
  /-- What is behind and what is ahead are the lexemes from the position on. -/
  all : Lexeme.all source pos = behind ++ (s.cursor.ahead.flatMap Word.lexemes ++ s.cursor.tail)
  /-- Gaps ahead hold trivia, and words do not. -/
  words : ∀ w ∈ s.cursor.ahead, w.WellFormed
  /-- Behind the last word is trivia. -/
  tail : ∀ l ∈ s.cursor.tail, l.isTrivia = true
  /-- That many words are behind. -/
  count : (behind.filter (!·.isTrivia)).length = m
  /-- What is behind ends with a word. -/
  last : ∀ l ∈ behind.getLast?, l.isTrivia = false
  /-- The cursor knows whether a word is behind. -/
  started : s.cursor.started = decide (0 < m)
  /-- It knows the length of the document. -/
  length : s.cursor.length = source.length
  /-- The faults in the trivia that has been read are reported. -/
  reports : s.reports.map Report.content =
    ((behind ++ s.cursor.gap).filter (·.isTrivia)).filterMap Lexeme.fault?

variable {source : Source} {pos m : Nat} {behind : List Lexeme} {s : State}

theorem reports_reportGap (s : State) :
    s.reportGap.reports.map Report.content =
      s.reports.map Report.content ++ s.cursor.gap.filterMap Lexeme.fault? := by
  obtain ⟨added, hadded, hcontent⟩ := exists_reports_foldl_reportTrivium s.cursor.gap s
  rw [reportGap, hadded, List.map_append, hcontent]

theorem advance_of_cons {w : Word} {ws : List Word} (hw : s.cursor.ahead = w :: ws) :
    s.advance = reportGap { s with cursor := s.cursor.advance, claimed := false } :=
  if_neg (by simp [Cursor.atEnd, hw])

theorem advance_of_nil (hnil : s.cursor.ahead = []) : s.advance = s :=
  if_pos (by simp [Cursor.atEnd, hnil])

namespace Stands

theorem begin (source : Source) (pos : Nat) : Stands source pos 0 [] (State.begin source pos) := by
  have hcursor : (State.begin source pos).cursor =
      Cursor.ofLexemes source.length pos (Lexeme.all source pos) := cursor_ofLexemes _ _ _
  have hwords : ∀ w ∈ (State.begin source pos).cursor.ahead, w.WellFormed := by
    rw [hcursor]
    exact fun w hw => Word.wellFormed_of_mem_split hw
  have htail : ∀ l ∈ (State.begin source pos).cursor.tail, l.isTrivia = true := by
    rw [hcursor]
    exact fun l hl => Word.isTrivia_of_mem_split hl
  have hlast : ∀ l ∈ ([] : List Lexeme).getLast?, l.isTrivia = false :=
    fun l hl => absurd hl (Option.not_mem_none l)
  refine ⟨?_, hwords, htail, rfl, hlast, by rw [hcursor]; rfl, by rw [hcursor]; rfl, ?_⟩
  · rw [hcursor]
    exact Word.split_eq _
  · rw [List.nil_append, List.filter_eq_self.2 (Cursor.isTrivia_of_mem_gap hwords htail), hcursor]
    exact reports_reportGap _

/-- Stepping over a word leaves it behind, with the gap before it. -/
theorem advance (h : Stands source pos m behind s) {w : Word} {ws : List Word}
    (hw : s.cursor.ahead = w :: ws) :
    Stands source pos (m + 1) (behind ++ w.lexemes) s.advance := by
  have hcursor : s.advance.cursor =
      { s.cursor with ahead := ws, prevEnd := w.lexeme.stop, started := true } := by
    rw [cursor_advance, Cursor.advance, hw]
  have hwell := h.words w (hw ▸ List.mem_cons_self)
  have hwords : ∀ v ∈ s.advance.cursor.ahead, v.WellFormed := by
    rw [hcursor]
    exact fun v hv => h.words v (hw ▸ List.mem_cons_of_mem w hv)
  have htail : ∀ l ∈ s.advance.cursor.tail, l.isTrivia = true := by
    rw [hcursor]
    exact h.tail
  have hgap : s.cursor.gap = w.gap := by rw [Cursor.gap, hw]
  refine ⟨?_, hwords, htail, ?_, ?_, ?_, ?_, ?_⟩
  · rw [h.all, hcursor, hw, List.flatMap_cons, List.append_assoc, List.append_assoc]
  · rw [Word.lexemes, List.filter_append, List.filter_append, List.length_append, h.count,
      List.filter_eq_nil_iff.2 fun l hl => by simp [hwell.gap l hl]]
    simp [hwell.lexeme]
  · simpa [Word.lexemes] using hwell.lexeme
  · rw [hcursor]
    simp
  · rw [hcursor]
    exact h.length
  · -- The word itself is no trivia, so what is new is the gap behind it.
    have hfilter : (behind ++ w.lexemes ++ s.advance.cursor.gap).filter (·.isTrivia) =
        (behind ++ s.cursor.gap).filter (·.isTrivia) ++ s.advance.cursor.gap := by
      rw [List.filter_append, List.filter_eq_self.2 (Cursor.isTrivia_of_mem_gap hwords htail),
        Word.lexemes, ← List.append_assoc, List.filter_append, hgap]
      simp [hwell.lexeme]
    rw [hfilter, List.filterMap_append, ← h.reports, advance_of_cons hw, reports_reportGap,
      cursor_reportGap]

theorem exists_cut (h : Stands source pos m behind s) :
    ∃ ahead, Token.Cut (Token.all source.bytes pos) m (behind.map Lexeme.toToken)
      (s.cursor.gap.map Lexeme.toToken) ahead ∧
        ahead.head? = s.cursor.lexeme?.map Lexeme.toToken := by
  obtain ⟨rest, hrest, hhead⟩ := s.cursor.exists_gap
  have hahead : (rest.map Lexeme.toToken).head? = s.cursor.lexeme?.map Lexeme.toToken := by
    rw [List.head?_map, hhead]
  refine ⟨rest.map Lexeme.toToken, ⟨?_, ?_, ?_, ?_, ?_⟩, hahead⟩
  · rw [← Parse.toToken_all, h.all, hrest]
    simp
  · rw [← h.count, Token.words, List.filter_map, List.length_map]
    rfl
  · rw [List.getLast?_map]
    intro t ht
    obtain ⟨l, hl, rfl⟩ := Option.map_eq_some_iff.1 ht
    exact h.last l hl
  · exact List.forall_mem_map.2 (Cursor.isTrivia_of_mem_gap h.words h.tail)
  · rw [hahead]
    intro t ht
    obtain ⟨l, hl, rfl⟩ := Option.map_eq_some_iff.1 ht
    obtain ⟨w, ws, hw, rfl⟩ := Cursor.exists_ahead_of_lexeme hl
    exact (h.words w (hw ▸ List.mem_cons_self)).lexeme

theorem lexeme?_eq (h : Stands source pos m behind s) :
    s.cursor.lexeme?.map Lexeme.toToken = (Token.words (Token.all source.bytes pos))[m]? := by
  obtain ⟨ahead, hcut, hahead⟩ := h.exists_cut
  rw [hcut.getElem?_words, hahead]

theorem refines (h : Stands source pos m behind s) :
    s.cursor.Refines source.bytes (Token.all source.bytes pos) m
      (s.cursor.gap.map Lexeme.toToken) where
  token := by rw [Cursor.token, h.lexeme?_eq, h.length]; rfl
  newlines := Trivia.newlines_ofGap _ _
  adjacent := by simp [Cursor.adjacent, h.started]
  trailing := by rw [← h.started]; exact Trivia.trailing_ofGap _ _
  leading := by rw [← h.started]; exact Trivia.leading_ofGap _ _

theorem reported (h : Stands source pos m behind s) :
    Token.Reported (behind.map Lexeme.toToken ++ s.cursor.gap.map Lexeme.toToken) s.reports := by
  have heach := Lexeme.faultOf_of_content h.reports
  rw [List.map_append] at heach
  refine ⟨heach, ?_⟩
  obtain ⟨ahead, hcut, -⟩ := h.exists_cut
  have hsorted : (Token.all source.bytes pos).Pairwise (·.start < ·.start) :=
    Token.pairwise_lt_allFrom rfl
  rw [hcut.all, ← List.append_assoc] at hsorted
  have hfaults := (List.pairwise_append.1 hsorted).1.filter fun t => t.isTrivia && t.error.isSome
  rw [← List.pairwise_map, ← Token.map_start_of_faultOf heach, List.pairwise_map] at hfaults
  exact hfaults

end Stands

/-- Stepping over words stands behind as many of them as there are. -/
theorem exists_stands (source : Source) (pos k : Nat) :
    ∃ behind, Stands source pos (min k (Token.words (Token.all source.bytes pos)).length) behind
      (advance^[k] (State.begin source pos)) := by
  induction k with
  | zero =>
    rw [Nat.zero_min]
    exact ⟨[], .begin source pos⟩
  | succ k ih =>
    obtain ⟨behind, h⟩ := ih
    rw [Function.iterate_succ_apply']
    have hlexeme := h.lexeme?_eq
    cases hahead : (advance^[k] (State.begin source pos)).cursor.ahead with
    | nil =>
      rw [Cursor.lexeme?, Cursor.word?, hahead] at hlexeme
      have hle := List.getElem?_eq_none_iff.1 hlexeme.symm
      rw [advance_of_nil hahead]
      exact ⟨behind, by rwa [Nat.min_eq_right (by omega)] at h ⊢⟩
    | cons w ws =>
      rw [Cursor.lexeme?, Cursor.word?, hahead] at hlexeme
      obtain ⟨hlt, -⟩ := List.getElem?_eq_some_iff.1 hlexeme.symm
      have hm : min (k + 1) (Token.words (Token.all source.bytes pos)).length =
          min k (Token.words (Token.all source.bytes pos)).length + 1 := by omega
      exact ⟨behind ++ w.lexemes, hm ▸ h.advance hahead⟩

end State

/-! ### The tokens that a reader finds -/

namespace TokenReader

/-- Whether a reader finds some tokens one after the other, and then the end for ever. -/
structure Yields (reader : TokenReader) (ts : List Token) : Prop where
  /-- Token after token is found. -/
  next : ∀ i, (advance^[i] reader).next? = ts[i]?
  /-- Behind the last one is the end. -/
  ends : ∀ i, ts.length ≤ i → (advance^[i] reader).peek = Token.endOf reader.text

theorem peek_of_next?_eq_none {reader : TokenReader} (h : reader.next? = none) :
    reader.peek = Token.endOf reader.text := by
  rcases Nat.lt_or_ge reader.pos reader.text.length with hlt | hge
  · rw [next?_of_lt hlt] at h
    cases h
  · exact (next?_of_length_le hge).1

theorem yields_all (text : Bytes) (pos : Nat) :
    (⟨text, min pos text.length⟩ : TokenReader).Yields (Token.all text pos) := by
  have hnext (i : Nat) :
      (advance^[i] ⟨text, min pos text.length⟩).next? = (Token.all text pos)[i]? := by
    rw [next?_iterate, Token.all, Token.all, Nat.min_assoc, Nat.min_self]
  refine ⟨hnext, fun i hi => ?_⟩
  rw [peek_of_next?_eq_none, text_iterate]
  rw [hnext, List.getElem?_eq_none hi]

end TokenReader

namespace State

/-- After any number of steps over words, the cursor tells of the next word and of the gap before it
what the tokens say that a reader finds, and exactly the faults of the trivia up to there are
reported.  A step at the end of the document changes nothing, so it does not count. -/
theorem refines_tokens (source : Source) (pos : Nat) :
    let ts := Token.all source.bytes pos
    let count := (Token.words ts).length
    (⟨source.bytes, min pos source.length⟩ : TokenReader).Yields ts ∧
    ∀ k,
      (∃ behind gap ahead, Token.Cut ts (min k count) behind gap ahead ∧
        (advance^[k] (begin source pos)).cursor.Refines source.bytes ts (min k count) gap ∧
        Token.Reported (behind ++ gap) (advance^[k] (begin source pos)).reports) ∧
      advance^[count + k] (begin source pos) = advance^[count] (begin source pos) := by
  intro ts count
  refine ⟨TokenReader.yields_all source.bytes pos, fun k => ⟨?_, ?_⟩⟩
  · obtain ⟨behind, h⟩ := exists_stands source pos k
    obtain ⟨ahead, hcut, -⟩ := h.exists_cut
    exact ⟨_, _, ahead, hcut, h.refines, h.reported⟩
  · obtain ⟨behind, h⟩ := exists_stands source pos count
    have hnone : (advance^[count] (begin source pos)).cursor.lexeme? = none := by
      rw [← Option.map_eq_none_iff, h.lexeme?_eq, Nat.min_self]
      exact List.getElem?_eq_none (Nat.le_refl count)
    have hnil : (advance^[count] (begin source pos)).cursor.ahead = [] := by
      simpa [Cursor.lexeme?, Cursor.word?] using hnone
    rw [Nat.add_comm, Function.iterate_add_apply]
    exact Function.iterate_fixed (advance_of_nil hnil) k

/-- Whether the cursor of a state is one that steps over words lead to. -/
def Along (source : Source) (pos : Nat) (s : State) : Prop :=
  ∃ k, s.cursor = (advance^[k] (begin source pos)).cursor

/-- Whatever is read, reading goes from word to word. -/
theorem steps_along (source : Source) (pos : Nat) :
    Steps fun s s' => s.Along source pos → s'.Along source pos where
  refl _ := id
  trans h h' := h' ∘ h
  advance s := by
    rintro ⟨k, hk⟩
    exact ⟨k + 1, by rw [Function.iterate_succ_apply', cursor_advance, cursor_advance, hk]⟩
  alloc _ := id
  report _ _ _ _ := id
  claim s := by rw [Along, Along, cursor_claim]; exact id

/-- So wherever reading stands, the cursor tells what the tokens tell. -/
theorem Along.refines {source : Source} {pos : Nat} {s : State} (h : s.Along source pos) :
    let ts := Token.all source.bytes pos
    ∃ m behind gap ahead, Token.Cut ts m behind gap ahead ∧
      s.cursor.Refines source.bytes ts m gap := by
  obtain ⟨k, hk⟩ := h
  obtain ⟨behind, hstands⟩ := exists_stands source pos k
  obtain ⟨ahead, hcut, -⟩ := hstands.exists_cut
  exact ⟨_, _, _, ahead, hcut, hk ▸ hstands.refines⟩

end State

end Metadoc
