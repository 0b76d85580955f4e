import Metadoc.Token.Literal

/-!
# Lexemes and words

The grammar reads words: a token that carries content together with the blanks, comments and bad
characters before it.

* `Lexeme` is a token with its text as shown in the document;
* `Word` is a lexeme with the gap before it, and `Word.split` cuts a list of lexemes into words;
* `Trivia` sums up a gap: its line breaks and the comments that may belong to a node beside it.
-/

namespace Metadoc

/-- A token with its text as shown in the document. -/
structure Lexeme extends Token where
  /-- The text shown. -/
  text : String
deriving DecidableEq, Repr

namespace Lexeme

/-- Tokens with their texts, in one walk along the shown text from position `pos` on. -/
def ofTokens : Nat → Bytes → List Token → List Lexeme
  | _, _, [] => []
  | pos, shown, t :: ts =>
    let shown : Bytes := shown.drop (t.start - pos)
    ⟨t, shown.textOf ⟨0, t.length⟩⟩ :: ofTokens t.start shown ts

/-- The lexemes of a document from a position to its end. -/
def all (source : Source) (pos : Nat) : List Lexeme :=
  ofTokens 0 source.shown (Token.all source.bytes pos)

theorem ofTokens_drop (shown : Bytes) {ts : List Token} :
    ∀ pos : Nat, (∀ t ∈ ts, pos ≤ t.start) → ts.Pairwise (·.start ≤ ·.start) →
      ofTokens pos (shown.drop pos) ts = ts.map fun t => ⟨t, shown.textOf t.span⟩ := by
  induction ts with
  | nil => intros; rfl
  | cons t ts ih =>
    intro pos hpos hsorted
    have ht : pos ≤ t.start := hpos t List.mem_cons_self
    have hrest := List.pairwise_cons.1 hsorted
    have hd : (shown.drop pos).drop (t.start - pos) = shown.drop t.start := by
      rw [List.drop_drop]; congr 1; omega
    simp only [ofTokens, hd, List.map_cons, ih _ hrest.1 hrest.2, Bytes.textOf_drop]
    rfl

/-- The text of a lexeme is the part of the document that its token covers. -/
theorem all_eq_map (source : Source) (pos : Nat) :
    all source pos =
      (Token.all source.bytes pos).map fun t => ⟨t, source.shown.textOf t.span⟩ :=
  ofTokens_drop source.shown 0 (by simp) (Token.pairwise_all source.bytes pos)

theorem start_lt_of_mem_all {source : Source} {pos : Nat} {l : Lexeme} (h : l ∈ all source pos) :
    l.start < source.length := by
  rw [all_eq_map] at h
  obtain ⟨t, ht, rfl⟩ := List.mem_map.1 h
  exact Token.start_lt_of_mem_all ht

theorem all_start {source : Source} {pos : Nat} {l : Lexeme} (h : l ∈ all source pos) :
    all source l.start = (all source pos).dropWhile (·.start < l.start) := by
  rw [all_eq_map] at h
  obtain ⟨t, ht, rfl⟩ := List.mem_map.1 h
  rw [all_eq_map, all_eq_map, List.dropWhile_map, Token.all_start ht]
  rfl

theorem dropWhile_start_lt {n : Nat} {ls : List Lexeme} (h : ∀ l ∈ ls, l.start < n) :
    ls.dropWhile (·.start < n) = [] := by
  induction ls with
  | nil => rfl
  | cons l ls ih =>
    rw [List.dropWhile_cons_of_pos (by simpa using h l List.mem_cons_self)]
    exact ih fun m hm => h m (List.mem_cons_of_mem l hm)

theorem all_length (source : Source) (pos : Nat) :
    all source source.length = (all source pos).dropWhile (·.start < source.length) := by
  rw [dropWhile_start_lt fun l h => start_lt_of_mem_all h, all_eq_map]
  simp [Source.length, Token.all_length]

/-- The part of a lexeme that a lexical fault is reported at: the opening of a literal or comment
that is not closed, else all of it. -/
def faultSpan (l : Lexeme) (e : LexError) : Span :=
  let width := match e with
    | .unterminatedComment => 2
    | .unterminatedString => (l.style.map StringStyle.width).getD 1
    | .invalidByte | .controlCharacter => l.length
  ⟨l.start, l.start + min width l.length⟩

/-- Where a label holds bytes that are not UTF-8, if it does. -/
def invalidSpan? (l : Lexeme) : Option Span :=
  (Utf8.firstInvalid? l.bytes).map fun r => ⟨l.start + r.1, l.start + r.1 + r.2⟩

end Lexeme

/-- A lexeme that carries content, with the trivia since the one before it. -/
structure Word where
  /-- The trivia before. -/
  gap : List Lexeme
  /-- The lexeme. -/
  lexeme : Lexeme
deriving DecidableEq, Repr

namespace Word

/-- The words of a list of lexemes that follows the trivia `gap`, and the trivia after the last of
them. -/
def splitAfter : List Lexeme → List Lexeme → List Word × List Lexeme
  | gap, [] => ([], gap)
  | gap, l :: ls =>
    if l.isTrivia then splitAfter (gap ++ [l]) ls
    else
      let r := splitAfter [] ls
      (⟨gap, l⟩ :: r.1, r.2)

/-- The words of a list of lexemes, and the trivia after the last of them. -/
def split (ls : List Lexeme) : List Word × List Lexeme := splitAfter [] ls

end Word

/-- What matters about the trivia before a word. -/
structure Trivia where
  /-- Number of line breaks, those inside comments not counted. -/
  newlines : Nat := 0
  /-- The first comment that stands before any line break. -/
  trailing : Option Lexeme := none
  /-- The last of the other comments, with the number of line breaks after it. -/
  leading : Option (Lexeme × Nat) := none
deriving DecidableEq, Repr

namespace Trivia

/-- The trivia with one more lexeme.  At the start of a document every comment is a leading one;
`started` says that a word stands before. -/
def add (started : Bool) (t : Trivia) (l : Lexeme) : Trivia :=
  match l.kind with
  | .whitespace =>
    let n := Bytes.lineFeeds l.bytes
    { t with newlines := t.newlines + n, leading := t.leading.map fun c => (c.1, c.2 + n) }
  | .comment =>
    if t.newlines = 0 ∧ started then { t with trailing := t.trailing <|> some l }
    else { t with leading := some (l, 0) }
  | _ => t

/-- What matters about a gap. -/
def ofGap (started : Bool) (gap : List Lexeme) : Trivia := gap.foldl (add started) {}

/-- The text of the comment directly above the word after the gap.  A blank line in between
separates them. -/
def leadingText (t : Trivia) : String :=
  match t.leading with
  | some (c, n) => if n < 2 then c.commentText else ""
  | none => ""

end Trivia

end Metadoc
