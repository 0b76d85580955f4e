import Metadoc.Document.Cursor
import Metadoc.Proofs.Token.Tiling

/-!
# Words and the tokens they are made of

* `Word.split_eq` : the words of a list of lexemes, with what comes after them, are that list;
* `Word.split_lexemes_append` : the lexemes of a word are cut off as that word;
* `Word.wellFormed_of_mem_split` : gaps hold trivia, and a word does not;
* `Token.Spells ts bs` says that `bs` are the texts of the tokens with content among `ts`, but for
  colons behind labels, and `Word.Spells` says the same of words;
* `Word.Spells.tokens` leads from words to tokens.
-/

namespace Metadoc

/-! ### Cutting lexemes into words -/

namespace Word

/-- The lexemes of a word and of the gap before it. -/
def lexemes (w : Word) : List Lexeme := w.gap ++ [w.lexeme]

/-- Whether the gap holds nothing but trivia, and the word is none. -/
structure WellFormed (w : Word) : Prop where
  /-- The gap holds trivia. -/
  gap : ∀ l ∈ w.gap, l.isTrivia = true
  /-- The word carries content. -/
  lexeme : w.lexeme.isTrivia = false

theorem splitAfter_eq (ls : List Lexeme) :
    ∀ gap, gap ++ ls = (splitAfter gap ls).1.flatMap lexemes ++ (splitAfter gap ls).2 := by
  induction ls with
  | nil => intro gap; simp [splitAfter]
  | cons l ls ih =>
    intro gap
    unfold splitAfter
    split
    · rw [← ih (gap ++ [l]), List.append_assoc, List.singleton_append]
    · simpa [lexemes] using ih []

/-- The words of a list of lexemes, with what comes after them, are that list. -/
theorem split_eq (ls : List Lexeme) : ls = (split ls).1.flatMap lexemes ++ (split ls).2 :=
  splitAfter_eq ls []

theorem splitAfter_wellFormed (ls : List Lexeme) :
    ∀ {gap}, (∀ l ∈ gap, l.isTrivia = true) →
      (∀ w ∈ (splitAfter gap ls).1, w.WellFormed) ∧
        ∀ l ∈ (splitAfter gap ls).2, l.isTrivia = true := by
  induction ls with
  | nil => intro gap hgap; exact ⟨by simp [splitAfter], hgap⟩
  | cons l ls ih =>
    intro gap hgap
    by_cases hl : l.isTrivia = true
    · rw [splitAfter, if_pos hl]
      refine ih fun m hm => ?_
      rcases List.mem_append.1 hm with hm | hm
      · exact hgap m hm
      · rwa [List.mem_singleton.1 hm]
    · rw [splitAfter, if_neg hl]
      obtain ⟨hwords, htail⟩ := @ih [] (by simp)
      refine ⟨fun w hw => ?_, htail⟩
      rcases List.mem_cons.1 hw with rfl | hw
      · exact ⟨hgap, Bool.eq_false_iff.2 hl⟩
      · exact hwords w hw

theorem wellFormed_of_mem_split {w : Word} {ls : List Lexeme} (h : w ∈ (split ls).1) :
    w.WellFormed :=
  (splitAfter_wellFormed ls (by simp)).1 w h

/-- What comes after the last word is trivia. -/
theorem isTrivia_of_mem_split {l : Lexeme} {ls : List Lexeme} (h : l ∈ (split ls).2) :
    l.isTrivia = true :=
  (splitAfter_wellFormed ls (by simp)).2 l h

theorem splitAfter_append (l : Lexeme) (hl : l.isTrivia = false) (ls between : List Lexeme)
    (hb : ∀ x ∈ between, x.isTrivia = true) : ∀ gap,
      splitAfter gap (between ++ l :: ls) = (⟨gap ++ between, l⟩ :: (split ls).1, (split ls).2) := by
  induction between with
  | nil =>
    intro gap
    rw [List.nil_append, splitAfter, if_neg (by simp [hl]), List.append_nil, split]
  | cons x between ih =>
    intro gap
    have hx := hb x List.mem_cons_self
    have hrest := ih (fun y hy => hb y (List.mem_cons_of_mem x hy)) (gap ++ [x])
    rw [List.cons_append, splitAfter, if_pos hx, hrest, List.append_assoc, List.singleton_append]

/-- The lexemes of a word are cut off as that word. -/
theorem split_lexemes_append {w : Word} (h : w.WellFormed) (ls : List Lexeme) :
    split (w.lexemes ++ ls) = (w :: (split ls).1, (split ls).2) := by
  rw [lexemes, List.append_assoc, List.singleton_append]
  exact splitAfter_append w.lexeme h.lexeme ls w.gap h.gap []

theorem mem_lexemes_of_mem_split {w : Word} {ls : List Lexeme} (h : w ∈ (split ls).1)
    {l : Lexeme} (hl : l ∈ w.lexemes) : l ∈ ls := by
  rw [split_eq ls]
  exact List.mem_append_left _ (List.mem_flatMap.2 ⟨w, h, hl⟩)

end Word

/-! ### What tokens spell -/

/-- Whether a token can be the label of a node. -/
def Token.isLabel (t : Token) : Bool := Lexeme.isLabel ⟨t, ""⟩

/-- Whether a piece of trivia is no blank that breaks the line. -/
def Token.staysOnLine (t : Token) : Prop := t.kind = .whitespace → Bytes.lineFeeds t.bytes = 0

/-- `bs` are the texts of the tokens that carry content, in order.  Of these only colons are left
out, each of them behind a label on the same line. -/
inductive Token.Spells : List Token → List Bytes → Prop
  | nil : Spells [] []
  | trivia {t ts bs} (ht : t.isTrivia = true) (rest : Spells ts bs) : Spells (t :: ts) bs
  | content {t ts bs} (ht : t.isTrivia = false) (rest : Spells ts bs) :
      Spells (t :: ts) (t.bytes :: bs)
  | colon {label gap colon ts bs} (hl : label.isLabel = true)
      (hgap : ∀ t ∈ gap, t.isTrivia = true ∧ t.staysOnLine)
      (hc : colon.symbol? = some labelMark) (rest : Spells ts bs) :
      Spells (label :: (gap ++ colon :: ts)) (label.bytes :: bs)

/-- `bs` are the texts of the words, but for colons behind labels on the same line. -/
inductive Word.Spells : List Word → List Bytes → Prop
  | nil : Spells [] []
  | word (w : Word) {ws bs} (rest : Spells ws bs) : Spells (w :: ws) (w.lexeme.bytes :: bs)
  | colon {label colon ws bs} (hl : label.lexeme.isLabel = true)
      (hgap : ∀ l ∈ colon.gap, l.staysOnLine)
      (hc : colon.lexeme.symbol? = some labelMark) (rest : Spells ws bs) :
      Spells (label :: colon :: ws) (label.lexeme.bytes :: bs)

namespace Word.Spells

theorem append {ws ws' : List Word} {bs bs' : List Bytes} (h : Spells ws bs)
    (h' : Spells ws' bs') : Spells (ws ++ ws') (bs ++ bs') := by
  induction h with
  | nil => exact h'
  | word w _ ih => exact .word w ih
  | colon hl hgap hc _ ih => exact .colon hl hgap hc ih

end Word.Spells

theorem Token.Spells.lexemes_append {gap : List Lexeme} {ts : List Token} {bs : List Bytes}
    (hgap : ∀ l ∈ gap, l.isTrivia = true) (h : Spells ts bs) :
    Spells (gap.map Lexeme.toToken ++ ts) bs := by
  induction gap with
  | nil => exact h
  | cons l gap ih =>
    exact .trivia (hgap l List.mem_cons_self) (ih fun x hx => hgap x (List.mem_cons_of_mem l hx))

/-- What words spell is spelled by their tokens, with any trivia behind. -/
theorem Word.Spells.tokens {ws : List Word} {bs : List Bytes} (h : Spells ws bs)
    (hws : ∀ w ∈ ws, w.WellFormed) {tail : List Lexeme} (htail : ∀ l ∈ tail, l.isTrivia = true) :
    Token.Spells ((ws.flatMap Word.lexemes ++ tail).map Lexeme.toToken) bs := by
  induction h with
  | nil => simpa using Token.Spells.nil.lexemes_append htail
  | @word w ws bs _ ih =>
    have hw := hws w List.mem_cons_self
    have hrest := ih fun x hx => hws x (List.mem_cons_of_mem w hx)
    simpa [Word.lexemes] using (Token.Spells.content hw.lexeme hrest).lexemes_append hw.gap
  | @colon label colon ws bs hl hgap hc _ ih =>
    have hlabel := hws label List.mem_cons_self
    have hcolon := hws colon (List.mem_cons_of_mem label List.mem_cons_self)
    have hrest := ih fun x hx => hws x (List.mem_cons_of_mem label (List.mem_cons_of_mem colon hx))
    have hbetween : ∀ t ∈ colon.gap.map Lexeme.toToken, t.isTrivia = true ∧ t.staysOnLine := by
      simpa using fun l hl => And.intro (hcolon.gap l hl) (hgap l hl)
    have hspell : Token.Spells (label.lexeme.toToken :: _) (label.lexeme.bytes :: bs) :=
      .colon hl hbetween hc hrest
    simpa [Word.lexemes] using hspell.lexemes_append hlabel.gap

/-! ### Line breaks in a gap -/

theorem Trivia.newlines_add (started : Bool) (t : Trivia) (l : Lexeme) :
    (t.add started l).newlines =
      t.newlines + if l.kind = .whitespace then Bytes.lineFeeds l.bytes else 0 := by
  unfold add
  split
  · rename_i hk
    simp [hk]
  · rename_i hk
    split <;> simp [hk]
  · rename_i hk _
    rw [if_neg hk, Nat.add_zero]

theorem Trivia.staysOnLine_of_newlines_foldl {started : Bool} {gap : List Lexeme} :
    ∀ {t : Trivia}, (gap.foldl (add started) t).newlines = 0 →
      t.newlines = 0 ∧ ∀ l ∈ gap, l.staysOnLine := by
  induction gap with
  | nil => intro t h; exact ⟨h, by simp⟩
  | cons m gap ih =>
    intro t h
    obtain ⟨hm, hgap⟩ := ih h
    rw [newlines_add] at hm
    refine ⟨by omega, fun l hl => ?_⟩
    rcases List.mem_cons.1 hl with rfl | hl
    · intro hk
      rw [if_pos hk] at hm
      omega
    · exact hgap l hl

/-- A gap without line breaks holds no blanks that break the line. -/
theorem Trivia.staysOnLine_of_newlines {started : Bool} {gap : List Lexeme}
    (h : (ofGap started gap).newlines = 0) : ∀ l ∈ gap, l.staysOnLine :=
  (staysOnLine_of_newlines_foldl h).2

/-! ### What is ahead -/

namespace Cursor

variable {c : Cursor}

theorem exists_ahead_of_lexeme {l : Lexeme} (h : c.lexeme? = some l) :
    ∃ w rest, c.ahead = w :: rest ∧ w.lexeme = l := by
  obtain ⟨w, hw, hl⟩ := Option.map_eq_some_iff.1 h
  obtain ⟨rest, hrest⟩ := List.head?_eq_some_iff.1 hw
  exact ⟨w, rest, hrest, hl⟩

theorem ahead_advance {w : Word} {rest : List Word} (h : c.ahead = w :: rest) :
    c.advance.ahead = rest := by
  simp [advance, h]

end Cursor

theorem Delimiter.ofOpen?_eq_some {b : UInt8} {d : Delimiter} (h : ofOpen? b = some d) :
    b = d.openByte := by
  unfold ofOpen? at h
  split at h
  · rename_i hb
    cases h; exact hb
  split at h
  · rename_i hb
    cases h; exact hb
  split at h
  · rename_i hb
    cases h; exact hb
  · cases h

theorem Delimiter.ofClose?_eq_some {b : UInt8} {d : Delimiter} (h : ofClose? b = some d) :
    b = d.closeByte := by
  unfold ofClose? at h
  split at h
  · rename_i hb
    cases h; exact hb
  split at h
  · rename_i hb
    cases h; exact hb
  split at h
  · rename_i hb
    cases h; exact hb
  · cases h

theorem Separator.ofByte?_eq_some {b : UInt8} {sep : Separator} (h : ofByte? b = some sep) :
    b = sep.byte := by
  unfold ofByte? at h
  split at h
  · rename_i hb
    cases h; exact hb
  split at h
  · rename_i hb
    cases h; exact hb
  · cases h

theorem Token.bytes_of_symbol {t : Token} {b : UInt8} (h : t.symbol? = some b) : t.bytes = [b] := by
  unfold symbol? at h
  split at h
  · rename_i hb
    cases h; exact hb
  · cases h

end Metadoc
