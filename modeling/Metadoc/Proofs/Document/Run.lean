import Metadoc.Document.Grammar

/-!
# The grammar as a relation

`Grammar.Run n part s r` says that `part` of the grammar, read from the state `s` with `n` levels
of sets left, yields `r`.  The rules show all that reading a part can do, with the conditions that
tell the rules apart, and leave out the bounds of the loops.

* `Part` lists the parts of the grammar; what each yields is the body of a set, that is, trees and
  the brackets around them, if the part has any;
* `State.behindLabel` and `State.promisesSet` name what happens at the head of a labeled node, and
  `reportCramped` what happens at its end.
-/

namespace Metadoc

namespace Read

/-- A single tree as the body of a set without brackets. -/
def one (r : Read Tree) : Read SetBody := ⟨{ children := [r.value] }, r.state⟩

/-- Trees as the body of a set without brackets. -/
def many (r : Read (List Tree)) : Read SetBody := ⟨{ children := r.value }, r.state⟩

@[simp] theorem one_state (r : Read Tree) : r.one.state = r.state := rfl

@[simp] theorem one_value (r : Read Tree) : r.one.value = { children := [r.value] } := rfl

@[simp] theorem many_state (r : Read (List Tree)) : r.many.state = r.state := rfl

@[simp] theorem many_value (r : Read (List Tree)) : r.many.value = { children := r.value } := rfl

end Read

namespace State

/-- The state behind the label `l` ahead, read for a node that is begun here. -/
def behindLabel (s : State) (l : Lexeme) : State := (s.alloc.state.takeLabel l s.count).state

/-- Whether the label behind promises a set: a colon is ahead on the same line. -/
def promisesSet (s : State) : Prop := s.cursor.isAt labelMark = true ∧ s.cursor.newlines = 0

/-- Whether the tag name behind takes arguments: a round bracket touches it. -/
def takesArguments (s : State) : Prop :=
  s.cursor.isAt Delimiter.paren.openByte = true ∧ s.cursor.adjacent = true

/-- Whether a label with a colon is left without content: a blank line comes, or the line has
ended whatever line breaks there are. -/
def contentMissing (s : State) : Prop := 2 ≤ s.cursor.newlines ∨ s.cursor.atLineEnd = true

/-- Whether no entry can begin here, and no word can stand for one. -/
def noEntry (s : State) : Prop :=
  s.cursor.label? = none ∧ s.cursor.opens? = none ∧ s.cursor.atLineEnd = true

/-- Whether the entries of a set in brackets, or those of a whole document, end here. -/
def entriesEnd (ctx : Context) (s : State) : Prop :=
  s.cursor.atEnd = true ∨ (ctx = .bracketed ∧ s.cursor.closes?.isSome = true)

/-- Whether the entries of a set without brackets end here. -/
def lineEnds (s : State) : Prop := 0 < s.cursor.newlines ∨ s.cursor.atLineEnd = true

instance (s : State) : Decidable s.promisesSet := inferInstanceAs (Decidable (_ ∧ _))
instance (s : State) : Decidable s.takesArguments := inferInstanceAs (Decidable (_ ∧ _))
instance (s : State) : Decidable s.contentMissing := inferInstanceAs (Decidable (_ ∨ _))
instance (s : State) : Decidable s.noEntry := inferInstanceAs (Decidable (_ ∧ _ ∧ _))
instance (ctx : Context) (s : State) : Decidable (s.entriesEnd ctx) :=
  inferInstanceAs (Decidable (_ ∨ _))
instance (s : State) : Decidable s.lineEnds := inferInstanceAs (Decidable (_ ∨ _))

end State

namespace Grammar

/-- A labeled node with its set, with a report when the next entry touches its bracket. -/
def reportCramped (id : Nat) (r : Read Tree) : Read Tree :=
  if r.state.cursor.adjacent ∧ r.state.cursor.atNodeStart then
    ⟨r.value, r.state.report .crampedSet r.state.cursor.span id⟩
  else r

/-- The parts of the grammar. -/
inductive Part where
  /-- A tag. -/
  | tag
  /-- The tags before an entry. -/
  | tags
  /-- A set in brackets for the node `id`. -/
  | bracketed (id : Nat) (opened : Delimiter)
  /-- A set without brackets for the node `id` whose label stands at `label`. -/
  | line (id : Nat) (label : Span)
  /-- An entry whose tags have been read. -/
  | bare (ctx : Context) (tags : List Tree)
  /-- An entry with its tags. -/
  | node (ctx : Context)
  /-- An entry, or one word of what is none. -/
  | entry (ctx : Context)
  /-- The entries of a set in brackets or of a whole document, with the separator before. -/
  | entries (ctx : Context) (pending : Option Separator)
  /-- The entries of a set without brackets. -/
  | lineEntries

/-- What reading a part of the grammar from a state with `n` levels of sets left can yield. -/
inductive Run : Nat → Part → State → Read SetBody → Prop
  /-- An at sign without a name. -/
  | namelessTag {n s} (hat : s.cursor.isAt tagMark = true)
      (hl : s.advance.cursor.label? = none) :
      Run n .tag s (close s.advance.count s.cursor.pos .error (plainLabel "@" [tagMark]) {} []
        (s.advance.alloc.state.report .missingTagName s.cursor.span s.advance.count)).one
  /-- A tag without arguments. -/
  | plainTag {n s l} (hat : s.cursor.isAt tagMark = true)
      (hl : s.advance.cursor.label? = some l)
      (hargs : ¬(s.advance.behindLabel l).takesArguments) :
      Run n .tag s (close s.advance.count s.cursor.pos .tag l.label
        { literal := some l.label.literal } [] (s.advance.behindLabel l)).one
  /-- A tag with arguments. -/
  | tagWithArguments {n s l r} (hat : s.cursor.isAt tagMark = true)
      (hl : s.advance.cursor.label? = some l)
      (hargs : (s.advance.behindLabel l).takesArguments)
      (args : Run n (.bracketed s.advance.count .paren) (s.advance.behindLabel l) r) :
      Run n .tag s (close s.advance.count s.cursor.pos .tag l.label
        { opened := r.value.opened, closed := r.value.closed, literal := some l.label.literal }
        r.value.children r.state).one
  /-- No more tags. -/
  | tagsEnd {n s} (hat : s.cursor.isAt tagMark = false) : Run n .tags s ⟨{}, s⟩
  /-- One more tag. -/
  | tagsCons {n s t ts} (hat : s.cursor.isAt tagMark = true) (first : Run n .tag s (Read.one t))
      (rest : Run n .tags t.state (Read.many ts)) :
      Run n .tags s (Read.many ⟨t.value :: ts.value, ts.state⟩)
  /-- A set in brackets that is too deep. -/
  | bracketedRefused {id opened s} (ho : s.cursor.opens? = some opened) :
      Run 0 (.bracketed id opened) s ⟨{ opened := some opened, refused := true },
        skip true s.advance.left 1 (s.advance.report .tooDeep s.cursor.span id)⟩
  /-- A set in brackets with its closing bracket. -/
  | bracketedClosed {n id opened s r closed} (ho : s.cursor.opens? = some opened)
      (body : Run n (.entries .bracketed none) s.advance (Read.many r))
      (hc : r.state.cursor.closes? = some closed) :
      Run (n + 1) (.bracketed id opened) s
        ⟨{ opened := some opened, closed := some closed, children := r.value }, r.state.advance⟩
  /-- A set in brackets that is never closed. -/
  | bracketedOpen {n id opened s r} (ho : s.cursor.opens? = some opened)
      (body : Run n (.entries .bracketed none) s.advance (Read.many r))
      (hc : r.state.cursor.closes? = none) :
      Run (n + 1) (.bracketed id opened) s
        ⟨{ opened := some opened, children := r.value },
          r.state.report .unterminatedSet s.cursor.span id⟩
  /-- A label with a colon and nothing behind. -/
  | lineMissing {n id label s} (hm : s.contentMissing) :
      Run n (.line id label) s ⟨{}, s.report .emptyLabel label id⟩
  /-- A set without brackets that is too deep. -/
  | lineRefused {id label s} (hm : ¬s.contentMissing) :
      Run 0 (.line id label) s
        ⟨{ refused := true }, skip false s.left 0 (s.report .tooDeep label id)⟩
  /-- A set without brackets. -/
  | lineRead {n id label s r} (hm : ¬s.contentMissing) (body : Run n .lineEntries s (Read.many r)) :
      Run (n + 1) (.line id label) s (Read.many r)
  /-- A label alone. -/
  | label {n ctx tags s l} (hl : s.cursor.label? = some l) (hp : ¬(s.behindLabel l).promisesSet) :
      Run n (.bare ctx tags) s
        (labeledNode s.count l.start l.label ⟨{}, s.behindLabel l⟩).one
  /-- A label with a set in brackets. -/
  | labeledSet {n ctx tags s l opened r} (hl : s.cursor.label? = some l)
      (hp : (s.behindLabel l).promisesSet)
      (ho : (s.behindLabel l).advance.cursor.opens? = some opened)
      (hn : (s.behindLabel l).advance.cursor.newlines < 2)
      (body : Run n (.bracketed s.count opened) (s.behindLabel l).advance r) :
      Run n (.bare ctx tags) s
        (reportCramped s.count (labeledNode s.count l.start l.label r)).one
  /-- A label with a set without brackets. -/
  | labeledLine {n ctx tags s l r} (hl : s.cursor.label? = some l)
      (hp : (s.behindLabel l).promisesSet)
      (ho : (s.behindLabel l).advance.cursor.opens? = none ∨
        2 ≤ (s.behindLabel l).advance.cursor.newlines)
      (body : Run n (.line s.count l.span) (s.behindLabel l).advance r) :
      Run n (.bare ctx tags) s (labeledNode s.count l.start l.label r).one
  /-- A set without a label. -/
  | unlabeled {n ctx tags s opened r} (hl : s.cursor.label? = none)
      (ho : s.cursor.opens? = some opened)
      (body : Run n (.bracketed s.count opened)
        (if ctx = .line then
          s.alloc.state.report (.unlabeledSet (!tags.isEmpty)) s.cursor.span s.count
        else s.alloc.state) r) :
      Run n (.bare ctx tags) s
        (close s.count s.cursor.pos r.value.kind noLabel
          { opened := r.value.opened, closed := r.value.closed } r.value.children r.state).one
  /-- Tags with nothing to stand on. -/
  | untaggable {n ctx tags s} (hs : s.noEntry) (ht : tags ≠ []) :
      Run n (.bare ctx tags) s (Grammar.untaggable tags s).one
  /-- A word that can stand nowhere. -/
  | unexpected {n ctx tags s} (hl : s.cursor.label? = none) (ho : s.cursor.opens? = none)
      (he : s.cursor.atLineEnd = false) :
      Run n (.bare ctx tags) s (Grammar.unexpected s).one
  /-- An entry and its tags. -/
  | node {n ctx s ts t} (tags : Run n .tags s (Read.many ts))
      (bare : Run n (.bare ctx ts.value) ts.state (Read.one t)) :
      Run n (.node ctx) s
        (Read.one ⟨dress s.cursor.trivia.leadingText ts.value t.value, t.state⟩)
  /-- An entry in its place. -/
  | entry {n ctx s r} (node : Run n (.node ctx) s (Read.one r)) : Run n (.entry ctx) s r.one
  /-- A word in the place of an entry. -/
  | stray {n ctx s} (hs : s.noEntry) (hat : s.cursor.isAt tagMark = false) :
      Run n (.entry ctx) s (Grammar.unexpected s).one
  /-- No more entries. -/
  | entriesEnd {n ctx pending s} (he : s.entriesEnd ctx) :
      Run n (.entries ctx pending) s ⟨{}, s⟩
  /-- A separator with no entry before it. -/
  | extraSeparator {n ctx pending s r} (he : ¬s.entriesEnd ctx)
      (hs : s.cursor.separator?.isSome = true)
      (rest : Run n (.entries ctx pending) (Grammar.unexpected s).state (Read.many r)) :
      Run n (.entries ctx pending) s
        (Read.many ⟨(Grammar.unexpected s).value :: r.value, r.state⟩)
  /-- One more entry, with the separator behind it. -/
  | separated {n ctx pending s e sep r} (he : ¬s.entriesEnd ctx)
      (hs : s.cursor.separator? = none) (first : Run n (.entry ctx) s (Read.one e))
      (hsep : e.state.cursor.separator? = some sep)
      (rest : Run n (.entries ctx (some sep))
        (follow sep (precede pending e.value) e.state).state (Read.many r)) :
      Run n (.entries ctx pending) s
        (Read.many ⟨(follow sep (precede pending e.value) e.state).value :: r.value, r.state⟩)
  /-- One more entry, with no separator behind it. -/
  | unseparated {n ctx pending s e r} (he : ¬s.entriesEnd ctx)
      (hs : s.cursor.separator? = none) (first : Run n (.entry ctx) s (Read.one e))
      (hsep : e.state.cursor.separator? = none)
      (rest : Run n (.entries ctx none) e.state (Read.many r)) :
      Run n (.entries ctx pending) s
        (Read.many ⟨precede pending e.value :: r.value, r.state⟩)
  /-- The last entry of a set without brackets. -/
  | lineLast {n s r} (first : Run n (.node .line) s (Read.one r)) (he : r.state.lineEnds) :
      Run n .lineEntries s r.one
  /-- An entry of a set without brackets, with more of them behind it. -/
  | lineCons {n s r rs} (first : Run n (.node .line) s (Read.one r)) (he : ¬r.state.lineEnds)
      (rest : Run n .lineEntries r.state (Read.many rs)) :
      Run n .lineEntries s (Read.many ⟨r.value :: rs.value, rs.state⟩)

end Grammar

end Metadoc
