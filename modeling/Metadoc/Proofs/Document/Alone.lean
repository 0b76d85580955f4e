import Metadoc.Document.Parse
import Metadoc.Proofs.Document.Adequacy
import Metadoc.Proofs.Document.Spelling
import Metadoc.Proofs.Token.Quoting
import Metadoc.Proofs.Token.Shown

/-!
# A text that is one label

* `Parse.oneNode_label` : a text that is one label by itself is read as one node, which says what
  the label says and covers the text;
* `Parse.oneNode_quoted` : so a text that is written as a string literal is read back.
-/

namespace Metadoc

theorem Lexeme.symbol?_ne_tagMark {l : Lexeme} (h : l.isLabel = true) :
    l.symbol? ≠ some tagMark := by
  intro hmark
  have hkind : l.kind = .symbol := by
    unfold Token.symbol? at hmark
    split at hmark
    · assumption
    · cases hmark
  rw [isLabel, hkind, hmark] at h
  exact absurd h (by decide)

namespace LabelText

variable (t : LabelText)

/-- The lexeme of a label that is the whole text. -/
def lexeme : Lexeme := ⟨t.token, Utf8.lossy t.bytes⟩

/-- The word of a label that is the whole text. -/
def word : Word := ⟨[], t.lexeme⟩

theorem lexeme_all (path : String) : Lexeme.all ⟨path, t.bytes⟩ 0 = [t.lexeme] := by
  have hbytes : t.token.bytes = t.bytes := t.token_eq.2.2
  rw [Lexeme.all_eq_map_alone, t.alone, List.map_singleton, Token.alone, hbytes,
    Utf8.shown_of_isValid t.valid]
  rfl

theorem begin_eq (path : String) : State.begin ⟨path, t.bytes⟩ 0 =
    { cursor := ⟨[t.word], [], t.bytes.length, 0, false⟩ } := by
  have hsplit : Word.split [t.lexeme] = ([t.word], []) := by
    have htrivia : t.lexeme.isTrivia = false := t.isTrivia
    rw [Word.split, Word.splitAfter, htrivia]
    rfl
  rw [State.begin, State.ofLexemes, t.lexeme_all, Cursor.ofLexemes, hsplit]
  rfl

/-- The state behind the label. -/
def behind : State := { cursor := ⟨[], [], t.bytes.length, t.bytes.length, true⟩, count := 1 }

theorem isLabel_lexeme : t.lexeme.isLabel = true := t.isLabel

theorem behindLabel_begin (path : String) :
    (State.begin ⟨path, t.bytes⟩ 0).behindLabel t.lexeme = t.behind := by
  obtain ⟨-, htoken, hbytes⟩ := t.token_eq
  have hstop : t.lexeme.stop = t.bytes.length := by
    have hstart : t.token.start = 0 := by rw [htoken]; rfl
    have hlength : t.token.length = t.bytes.length := congrArg List.length hbytes
    change t.token.start + t.token.length = _
    rw [hstart, hlength, Nat.zero_add]
  have herror : t.lexeme.error = none := t.error
  have hvalid : t.lexeme.invalidSpan? = none := by
    have hlexeme : t.lexeme.bytes = t.bytes := hbytes
    rw [Lexeme.invalidSpan?, hlexeme, Utf8.firstInvalid?_of_isValid t.valid]
    rfl
  rw [t.begin_eq, State.behindLabel, State.takeLabel]
  simp only [State.reportLabel, State.reportFault, herror, hvalid]
  simp [State.advance, State.alloc, State.reportGap, Cursor.atEnd, Cursor.advance, Cursor.gap,
    word, hstop, behind]

end LabelText

namespace Parse

open Grammar

/-- What the node of a text says that is one label. -/
def labelData (t : LabelText) : NodeData :=
  { kind := .main, facets := { literal := some t.label.literal }, string := t.label.string,
    raw := t.label.raw, bytes := t.label.bytes, span := ⟨0, t.bytes.length⟩ }

/-- A text that is one label is read as one node. -/
theorem oneNode_label (t : LabelText) : oneNode t.bytes 0 =
    { source := ⟨anonymous, t.bytes⟩, root := some (.node 0 (labelData t) [] []), strays := [],
      count := 1, stop := t.bytes.length, reports := [] } := by
  let s := State.begin ⟨anonymous, t.bytes⟩ 0
  have hs : s = { cursor := ⟨[t.word], [], t.bytes.length, 0, false⟩ } := t.begin_eq anonymous
  have hlexeme : s.cursor.lexeme? = some t.lexeme := by
    rw [hs]
    rfl
  have hlabel : s.cursor.label? = some t.lexeme := by
    rw [Cursor.label?, hlexeme, Option.filter_some, if_pos t.isLabel_lexeme]
  have hend : s.cursor.atEnd = false := Cursor.atEnd_of_label hlabel
  have hat : s.cursor.isAt tagMark = false := by
    rw [Cursor.isAt, Cursor.symbol?, hlexeme]
    exact decide_eq_false (Lexeme.symbol?_ne_tagMark t.isLabel_lexeme)
  have hpromise : ¬(s.behindLabel t.lexeme).promisesSet := by
    rw [t.behindLabel_begin]
    rintro ⟨hcolon, -⟩
    cases of_decide_eq_true hcolon
  have hleading : s.cursor.trivia.leadingText = "" := by
    rw [hs]
    rfl
  have hcount : s.count = 0 := by rw [hs]
  have hstart : t.lexeme.start = 0 := by
    change t.token.start = 0
    rw [t.token_eq.2.1]
    rfl
  -- Nothing comes behind the label, so the node ends with the text and has no comment.
  have hnode : labeledNode 0 0 t.label ⟨{}, t.behind⟩ =
      ⟨.node 0 (labelData t) [] [], t.behind⟩ := by
    have hspan : t.behind.spanFrom 0 = ⟨0, t.bytes.length⟩ := by
      rw [State.spanFrom, Nat.max_zero]
      rfl
    rw [labeledNode, close, hspan]
    rfl
  have hentry : entry (levels maxDepth) .top s = ⟨.node 0 (labelData t) [] [], t.behind⟩ := by
    rw [entry, node, tags_of_not_isAt _ hat, bareNode_of_label _ _ _ hlabel,
      labeled_eq_of_not_promisesSet _ hpromise, t.behindLabel_begin, hleading, hcount, hstart]
    change Option.getD (some (Read.mk (dress "" [] (labeledNode 0 0 t.label _).value)
      (labeledNode 0 0 t.label _).state)) _ = _
    rw [hnode]
    rfl
  rw [oneNode, oneNodeTo, firstNode, hend, if_neg Bool.false_ne_true, hentry]
  rfl

/-- What the node of a text says that is written as a string literal. -/
def quotedData (style : StringStyle) (s : String) : NodeData :=
  { kind := .main, facets := { literal := some (.string style) }, string := s,
    raw := style.quoted s, bytes := Utf8.ofString (style.quoted s),
    span := ⟨0, (Utf8.ofString (style.quoted s)).length⟩ }

/-- A text that is written as a string literal, of any style that it fits, is read back: without a
diagnostic, as a single node without children that says the text and covers the literal. -/
theorem oneNode_quoted (style : StringStyle) (s : String) (h : style.Fits s.toList) :
    (oneNode (Utf8.ofString (style.quoted s)) 0).diagnostics = [] ∧
      (oneNode (Utf8.ofString (style.quoted s)) 0).root =
        some (.node 0 (quotedData style s) [] []) ∧
      (oneNode (Utf8.ofString (style.quoted s)) 0).stop =
        (Utf8.ofString (style.quoted s)).length := by
  have hread := oneNode_label (style.literal s h)
  have hdata : labelData (style.literal s h) = quotedData style s := by
    rw [labelData, StringStyle.label_literal]
    rfl
  rw [hdata] at hread
  change oneNode (Utf8.ofString (style.quoted s)) 0 = _ at hread
  rw [hread]
  exact ⟨rfl, rfl, rfl⟩

/-- The text `"\""n` between three double quotes: neither the quote at its beginning nor the two
behind its backslash end the literal. -/
theorem oneNode_quoted_slash :
    let style : StringStyle := ⟨.double, true⟩
    let s := "\"\\\"\"n"
    style.Fits s.toList ∧ style.quoted s = "\"\"\"\"\\\\\"\"n\"\"\"" ∧
      (oneNode (Utf8.ofString (style.quoted s)) 0).diagnostics = [] ∧
      (oneNode (Utf8.ofString (style.quoted s)) 0).root =
        some (.node 0 (quotedData style s) [] []) ∧
      (oneNode (Utf8.ofString (style.quoted s)) 0).stop =
        (Utf8.ofString (style.quoted s)).length := by
  intro style s
  have hfits : style.Fits s.toList := by decide
  exact ⟨hfits, by decide, oneNode_quoted style s hfits⟩

end Parse

end Metadoc
