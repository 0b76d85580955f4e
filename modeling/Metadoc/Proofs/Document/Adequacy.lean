import Metadoc.Proofs.Document.Run
import Metadoc.Document.Parse
import Metadoc.Document.Progress
import Mathlib.Order.Nat

/-!
# The grammar and its relation

The functions of the grammar compute what `Grammar.Run` allows, and nothing else.

* `Run.progress` : reading never goes back, and whatever begins with a word of its own reads it;
* `run_entries`, `run_entry`, … : what the functions yield is allowed by the relation;
* `Run.yields` : what the relation allows is what the functions yield, so it is one result only;
* `Parse.document_of_run` : a document is what the relation allows for its entries.
-/

namespace Metadoc

namespace State

theorem atEnd_of_not_entriesEnd {s : State} {ctx : Context} (h : ¬s.entriesEnd ctx) :
    s.cursor.atEnd = false :=
  Bool.eq_false_iff.2 fun hend => h (.inl hend)

theorem Reaches.left_le {s s' : State} (h : Reaches s s') : s'.left ≤ s.left := h.suffix.length_le

theorem left_advance_le (s : State) : s.advance.left ≤ s.left := (reaches_advance s).left_le

@[simp] theorem cursor_advance (s : State) : s.advance.cursor = s.cursor.advance := by
  unfold advance
  split
  · rename_i h
    simp [Cursor.advance, List.isEmpty_iff.1 h]
  · exact cursor_reportGap _

theorem left_advance_lt {s : State} (h : s.cursor.atEnd = false) : s.advance.left < s.left := by
  unfold left
  rw [cursor_advance]
  exact Cursor.length_advance_lt h

theorem atEnd_of_left_eq_zero {s : State} (h : s.left = 0) : s.cursor.atEnd = true := by
  simpa [left, Cursor.atEnd] using h

@[simp] theorem left_report (s : State) (problem : Problem) (span : Span) (node : Nat) :
    (s.report problem span node).left = s.left := rfl

@[simp] theorem left_alloc (s : State) : s.alloc.state.left = s.left := rfl

end State

namespace Cursor

variable {c : Cursor}

theorem atEnd_of_symbol {b : UInt8} (h : c.symbol? = some b) : c.atEnd = false := by
  cases hc : c.ahead with
  | nil => simp [symbol?, lexeme?, word?, hc] at h
  | cons w rest => simp [atEnd, hc]

theorem atEnd_of_isAt {b : UInt8} (h : c.isAt b = true) : c.atEnd = false :=
  atEnd_of_symbol (by simpa [isAt] using h)

theorem atEnd_of_label {l : Lexeme} (h : c.label? = some l) : c.atEnd = false := by
  cases hc : c.ahead with
  | nil => simp [label?, lexeme?, word?, hc] at h
  | cons w rest => simp [atEnd, hc]

theorem atEnd_of_opens {d : Delimiter} (h : c.opens? = some d) : c.atEnd = false := by
  obtain ⟨b, hb, -⟩ := Option.bind_eq_some_iff.1 h
  exact atEnd_of_symbol hb

theorem atEnd_of_atLineEnd (h : c.atLineEnd = false) : c.atEnd = false := by
  simp only [atLineEnd, Bool.or_eq_false_iff] at h
  exact h.1.1

end Cursor

namespace Grammar

open State (Reaches)

/-! ### Progress -/

theorem left_close (id start : Nat) (kind : NodeKind) (label : Label) (facets : Facets)
    (children : List Tree) (s : State) :
    (close id start kind label facets children s).state.left = s.left := by
  simp [State.left]

theorem left_behindLabel {s : State} {l : Lexeme} (h : s.cursor.label? = some l) :
    (s.behindLabel l).left < s.left := by
  have hc : (s.behindLabel l).left = s.alloc.state.advance.left := by
    simp [State.behindLabel, State.takeLabel, State.left]
  rw [hc]
  exact State.left_advance_lt (Cursor.atEnd_of_label h)

theorem left_unexpected_lt {s : State} (h : s.cursor.atEnd = false) :
    (unexpected s).state.left < s.left := by
  have hs : (unexpected s).state.left = s.alloc.state.advance.left := by
    unfold unexpected
    dsimp only
    split <;> rw [left_close, State.left_report]
  rw [hs]
  exact State.left_advance_lt h

@[simp] theorem cursor_labeledNode (id start : Nat) (label : Label) (r : Read SetBody) :
    (labeledNode id start label r).state.cursor = r.state.cursor := cursor_close ..

@[simp] theorem cursor_reportCramped (id : Nat) (r : Read Tree) :
    (reportCramped id r).state.cursor = r.state.cursor := by
  unfold reportCramped
  split <;> rfl

@[simp] theorem cursor_untaggable (ts : List Tree) (s : State) :
    (untaggable ts s).state.cursor = s.cursor := by
  unfold untaggable
  dsimp only
  rw [cursor_close]
  split <;> rfl

@[simp] theorem cursor_follow (sep : Separator) (t : Tree) (s : State) :
    (follow sep t s).state.cursor = s.advance.cursor := by
  unfold follow
  dsimp only
  split
  · exact State.cursor_claim _
  · rfl

theorem left_reportCramped (id : Nat) (r : Read Tree) :
    (reportCramped id r).state.left = r.state.left := by
  simp [State.left]

/-- Whether a part begins with a word of its own, which it reads. -/
def Part.Consumes (s : State) (r : Read SetBody) : Part → Prop
  | .tag | .bracketed .. | .node _ | .lineEntries => True
  | .tags => r.value.children ≠ []
  | .bare _ ts => ts = []
  | .entry _ => s.cursor.atEnd = false
  | .line .. | .entries .. => False

/-- Reading never goes back, and whatever begins with a word of its own reads it. -/
theorem Run.progress {n : Nat} {part : Part} {s : State} {r : Read SetBody} (h : Run n part s r) :
    r.state.left ≤ s.left ∧ (part.Consumes s r → r.state.left < s.left) := by
  induction h with
  | @namelessTag _ s hat _ =>
    have hlt := State.left_advance_lt (Cursor.atEnd_of_isAt hat)
    simp only [Read.one_state, left_close, State.left_report, State.left_alloc]
    exact ⟨hlt.le, fun _ => hlt⟩
  | @plainTag _ s l hat hl _ =>
    have hlt := (left_behindLabel hl).trans (State.left_advance_lt (Cursor.atEnd_of_isAt hat))
    simp only [Read.one_state, left_close]
    exact ⟨hlt.le, fun _ => hlt⟩
  | @tagWithArguments _ s l r hat hl _ _ ih =>
    have hlt := (ih.1.trans_lt (left_behindLabel hl)).trans
      (State.left_advance_lt (Cursor.atEnd_of_isAt hat))
    simp only [Read.one_state, left_close]
    exact ⟨hlt.le, fun _ => hlt⟩
  | tagsEnd _ => exact ⟨Nat.le_refl _, fun h => absurd rfl h⟩
  | tagsCons _ _ _ ihFirst ihRest =>
    have hlt := ihRest.1.trans_lt (ihFirst.2 trivial)
    exact ⟨hlt.le, fun _ => hlt⟩
  | @bracketedRefused id _ s ho =>
    have hlt := (skip_reaches true s.advance.left 1
      (s.advance.report .tooDeep s.cursor.span id)).left_le.trans_lt
      (State.left_advance_lt (s := s) (Cursor.atEnd_of_opens ho))
    exact ⟨hlt.le, fun _ => hlt⟩
  | @bracketedClosed _ _ _ s r _ ho _ _ ih =>
    have hlt : r.state.left < s.left :=
      ih.1.trans_lt (State.left_advance_lt (Cursor.atEnd_of_opens ho))
    have hlt' := (State.left_advance_le r.state).trans_lt hlt
    exact ⟨hlt'.le, fun _ => hlt'⟩
  | @bracketedOpen _ _ _ s r ho _ _ ih =>
    have hlt : r.state.left < s.left :=
      ih.1.trans_lt (State.left_advance_lt (Cursor.atEnd_of_opens ho))
    exact ⟨hlt.le, fun _ => hlt⟩
  | lineMissing _ => exact ⟨Nat.le_refl _, False.elim⟩
  | @lineRefused id label s _ =>
    exact ⟨(skip_reaches false s.left 0 (s.report .tooDeep label id)).left_le, False.elim⟩
  | lineRead _ _ ih => exact ⟨ih.1, False.elim⟩
  | label hl _ =>
    have hlt := left_behindLabel hl
    simp only [Read.one_state, labeledNode, left_close]
    exact ⟨hlt.le, fun _ => hlt⟩
  | labeledSet hl _ _ _ _ ih =>
    have hlt := (ih.1.trans (State.left_advance_le _)).trans_lt (left_behindLabel hl)
    simp only [Read.one_state, left_reportCramped, labeledNode, left_close]
    exact ⟨hlt.le, fun _ => hlt⟩
  | labeledLine hl _ _ _ ih =>
    have hlt := (ih.1.trans (State.left_advance_le _)).trans_lt (left_behindLabel hl)
    simp only [Read.one_state, labeledNode, left_close]
    exact ⟨hlt.le, fun _ => hlt⟩
  | @unlabeled _ ctx tags s _ _ _ _ _ ih =>
    have hlt := ih.2 trivial
    have hs : (if ctx = .line then
        s.alloc.state.report (.unlabeledSet (!tags.isEmpty)) s.cursor.span s.count
      else s.alloc.state).left = s.left := by split <;> rfl
    rw [hs] at hlt
    simp only [Read.one_state, left_close]
    exact ⟨hlt.le, fun _ => hlt⟩
  | untaggable _ ht =>
    refine ⟨(untaggable_reaches _ _).left_le, fun h => absurd h ht⟩
  | unexpected _ _ he =>
    have hlt := left_unexpected_lt (Cursor.atEnd_of_atLineEnd he)
    exact ⟨hlt.le, fun _ => hlt⟩
  | @node _ ctx s ts t _ _ ihTags ihBare =>
    have hlt : t.state.left < s.left := by
      by_cases ht : ts.value = []
      · exact (ihBare.2 ht).trans_le ihTags.1
      · exact ihBare.1.trans_lt (ihTags.2 ht)
    exact ⟨hlt.le, fun _ => hlt⟩
  | entry _ ih => exact ⟨ih.1, fun _ => ih.2 trivial⟩
  | stray _ _ => exact ⟨(unexpected_reaches _).left_le, left_unexpected_lt⟩
  | entriesEnd _ => exact ⟨Nat.le_refl _, False.elim⟩
  | extraSeparator _ _ _ ih => exact ⟨ih.1.trans (unexpected_reaches _).left_le, False.elim⟩
  | separated _ _ _ _ _ ihFirst ihRest =>
    exact ⟨(ihRest.1.trans (follow_reaches ..).left_le).trans ihFirst.1, False.elim⟩
  | unseparated _ _ _ _ _ ihFirst ihRest => exact ⟨ihRest.1.trans ihFirst.1, False.elim⟩
  | lineLast _ _ ih => exact ⟨ih.1, fun _ => ih.2 trivial⟩
  | lineCons _ _ _ ihFirst ihRest =>
    have hlt := ihRest.1.trans_lt (ihFirst.2 trivial)
    exact ⟨hlt.le, fun _ => hlt⟩

/-! ### What the functions yield is allowed -/

/-- The contents of sets, read one level further down, are read as the relation allows. -/
def SoundBelow (n : Nat) : Prop :=
  ∀ m, n = m + 1 → ∀ s,
    Run m (.entries .bracketed none) s (entries (levels m) .bracketed s).many ∧
      (s.cursor.atLineEnd = false → Run m .lineEntries s (lineEntries (levels m) s).many)

variable {n : Nat}

theorem run_bracketedSet (h : SoundBelow n) (id : Nat) {opened : Delimiter} {s : State}
    (ho : s.cursor.opens? = some opened) :
    Run n (.bracketed id opened) s (bracketedSet (levels n) id opened s) := by
  cases n with
  | zero => exact .bracketedRefused ho
  | succ m =>
    have hb := (h m rfl s.advance).1
    unfold bracketedSet levels
    dsimp only
    split
    · rename_i hc
      exact .bracketedClosed ho hb hc
    · rename_i hc
      exact .bracketedOpen ho hb hc

theorem run_lineSet (h : SoundBelow n) (id : Nat) (label : Span) (s : State) :
    Run n (.line id label) s (lineSet (levels n) id label s) := by
  unfold lineSet
  split
  · rename_i hm
    exact .lineMissing hm
  · rename_i hm
    cases n with
    | zero => exact .lineRefused hm
    | succ m =>
      have hend : s.cursor.atLineEnd = false := by
        simpa using fun he => hm (.inr he)
      exact .lineRead hm ((h m rfl s).2 hend)

theorem run_tag (h : SoundBelow n) {s : State} (hat : s.cursor.isAt tagMark = true) :
    Run n .tag s (tag (levels n) s).one := by
  unfold tag
  dsimp only
  split
  · rename_i hl
    exact .namelessTag hat hl
  · rename_i l hl
    split
    · rename_i hargs
      have ho : (s.advance.behindLabel l).cursor.opens? = some .paren := by
        have hb : (s.advance.behindLabel l).cursor.symbol? = some Delimiter.paren.openByte := by
          exact of_decide_eq_true hargs.1
        simp [Cursor.opens?, hb]
      exact .tagWithArguments hat hl hargs (run_bracketedSet h _ ho)
    · rename_i hargs
      exact .plainTag hat hl hargs

theorem run_tags (h : SoundBelow n) (s : State) : Run n .tags s (tags (levels n) s).many := by
  suffices hmany : ∀ k s, s.left ≤ k → Run n .tags s (Grammar.many (fun s =>
      if s.cursor.isAt tagMark then some (tag (levels n) s) else none) k s).many from
    hmany s.left s (Nat.le_refl _)
  intro k
  -- The bound is the number of words ahead or more, and every tag reads one.
  induction k with
  | zero =>
    intro s hk
    have hend := State.atEnd_of_left_eq_zero (Nat.le_zero.1 hk)
    refine .tagsEnd (Bool.eq_false_iff.2 fun hat => ?_)
    rw [Cursor.atEnd_of_isAt hat] at hend
    cases hend
  | succ k ih =>
    intro s hk
    unfold Grammar.many
    by_cases hat : s.cursor.isAt tagMark = true
    · have ht := run_tag h hat
      have hlt : (tag (levels n) s).state.left < s.left := ht.progress.2 trivial
      simp only [hat, if_true]
      exact .tagsCons hat ht (ih _ (by omega))
    · simp only [hat]
      exact .tagsEnd (Bool.eq_false_iff.2 hat)

theorem run_labeled (h : SoundBelow n) {ctx : Context} {ts : List Tree} {s : State} {l : Lexeme}
    (hl : s.cursor.label? = some l) :
    Run n (.bare ctx ts) s (labeled (levels n) l s).one := by
  unfold labeled
  dsimp only
  split
  · rename_i hp
    split
    · rename_i opened ho
      split
      · rename_i hn
        exact .labeledSet hl hp ho hn (run_bracketedSet h _ ho)
      · rename_i hn
        exact .labeledLine hl hp (.inr (Nat.not_lt.1 hn)) (run_lineSet h _ _ _)
    · rename_i ho
      exact .labeledLine hl hp (.inl ho) (run_lineSet h _ _ _)
  · rename_i hp
    exact .label hl hp

theorem run_unlabeled (h : SoundBelow n) {ctx : Context} {ts : List Tree} {s : State}
    {opened : Delimiter} (hl : s.cursor.label? = none) (ho : s.cursor.opens? = some opened) :
    Run n (.bare ctx ts) s (unlabeled (levels n) ctx (!ts.isEmpty) opened s).one := by
  refine .unlabeled hl ho (run_bracketedSet h _ ?_)
  split <;> exact ho

theorem run_bareNode (h : SoundBelow n) {ctx : Context} {ts : List Tree} {s : State}
    {r : Read Tree} (hr : bareNode (levels n) ctx ts s = some r) : Run n (.bare ctx ts) s r.one := by
  unfold bareNode at hr
  split at hr
  · rename_i l hl
    cases hr
    exact run_labeled h hl
  · rename_i hl
    split at hr
    · rename_i opened ho
      cases hr
      exact run_unlabeled h hl ho
    · rename_i ho
      split at hr
      · rename_i he
        split at hr
        · cases hr
        · rename_i ht
          cases hr
          exact .untaggable ⟨hl, ho, he⟩ (by simpa using ht)
      · rename_i he
        cases hr
        exact .unexpected hl ho (Bool.eq_false_iff.2 he)

theorem run_node (h : SoundBelow n) {ctx : Context} {s : State} {r : Read Tree}
    (hr : node (levels n) ctx s = some r) : Run n (.node ctx) s r.one := by
  obtain ⟨b, hb, rfl⟩ := Option.map_eq_some_iff.1 hr
  exact .node (run_tags h s) (run_bareNode h hb)

theorem tags_of_not_isAt (inner : Option Levels) {s : State} (h : s.cursor.isAt tagMark = false) :
    tags inner s = ⟨[], s⟩ := by
  unfold tags
  cases s.left with
  | zero => rfl
  | succ k => simp [Grammar.many, h]

theorem tags_ne_nil (inner : Option Levels) {s : State} (h : s.cursor.isAt tagMark = true) :
    (tags inner s).value ≠ [] := by
  unfold tags
  cases hk : s.left with
  | zero =>
    have hend := State.atEnd_of_left_eq_zero hk
    rw [Cursor.atEnd_of_isAt h] at hend
    cases hend
  | succ k => simp [Grammar.many, h]

/-- Where `bareNode` finds nothing, there are no tags before and no entry can begin. -/
theorem noEntry_of_bareNode_eq_none {inner : Option Levels} {ctx : Context} {ts : List Tree}
    {s : State} (hb : bareNode inner ctx ts s = none) : ts = [] ∧ s.noEntry := by
  unfold bareNode at hb
  split at hb
  · cases hb
  · rename_i hl
    split at hb
    · cases hb
    · rename_i ho
      split at hb
      · rename_i he
        split at hb
        · rename_i ht
          exact ⟨List.isEmpty_iff.1 ht, hl, ho, he⟩
        · cases hb
      · cases hb

/-- Where `node` finds nothing, no entry can begin and no tag stands. -/
theorem noEntry_of_node_eq_none {inner : Option Levels} {ctx : Context} {s : State}
    (hr : node inner ctx s = none) : s.noEntry ∧ s.cursor.isAt tagMark = false := by
  obtain ⟨htags, hs⟩ := noEntry_of_bareNode_eq_none (Option.map_eq_none_iff.1 hr)
  have hat : s.cursor.isAt tagMark = false :=
    Bool.eq_false_iff.2 fun hat => tags_ne_nil inner hat htags
  rw [tags_of_not_isAt inner hat] at hs
  exact ⟨hs, hat⟩

theorem run_entry (h : SoundBelow n) (ctx : Context) (s : State) :
    Run n (.entry ctx) s (entry (levels n) ctx s).one := by
  unfold entry
  cases hr : node (levels n) ctx s with
  | none =>
    obtain ⟨hs, hat⟩ := noEntry_of_node_eq_none hr
    exact .stray hs hat
  | some r => exact .entry (run_node h hr)

theorem run_entriesFrom (h : SoundBelow n) (ctx : Context) {k : Nat} {s : State}
    (hk : s.left ≤ k) (pending : Option Separator) :
    Run n (.entries ctx pending) s (entriesFrom (levels n) ctx k pending s).many := by
  induction k generalizing s pending with
  | zero => exact .entriesEnd (.inl (State.atEnd_of_left_eq_zero (Nat.le_zero.1 hk)))
  | succ k ih =>
    unfold entriesFrom
    split
    · rename_i he
      exact .entriesEnd he
    · rename_i he
      have hend := State.atEnd_of_not_entriesEnd he
      split
      · rename_i hs
        have hlt := left_unexpected_lt hend
        exact .extraSeparator he hs (ih (by omega) pending)
      · rename_i hs
        have hs : s.cursor.separator? = none := by simpa using hs
        have hrun := run_entry h ctx s
        have hlt : (entry (levels n) ctx s).state.left < s.left := hrun.progress.2 hend
        dsimp only
        split
        · rename_i sep hsep
          have hle := (follow_reaches sep (precede pending (entry (levels n) ctx s).value)
            (entry (levels n) ctx s).state).left_le
          exact .separated he hs hrun hsep (ih (by omega) (some sep))
        · rename_i hsep
          exact .unseparated he hs hrun hsep (ih (by omega) none)

theorem run_lineEntriesFrom (h : SoundBelow n) {k : Nat} {s : State} (hk : s.left ≤ k)
    (he : s.cursor.atLineEnd = false) :
    Run n .lineEntries s (lineEntriesFrom (levels n) k s).many := by
  induction k generalizing s with
  | zero =>
    have hend := State.atEnd_of_left_eq_zero (Nat.le_zero.1 hk)
    rw [Cursor.atEnd_of_atLineEnd he] at hend
    cases hend
  | succ k ih =>
    unfold lineEntriesFrom
    cases hr : node (levels n) .line s with
    | none =>
      have hend := (noEntry_of_node_eq_none hr).1.2.2
      rw [he] at hend
      cases hend
    | some r =>
      have hrun := run_node h hr
      have hlt : r.state.left < s.left := hrun.progress.2 trivial
      dsimp only
      split
      · rename_i hend
        exact .lineLast hrun hend
      · rename_i hend
        refine .lineCons hrun hend (ih (by omega) ?_)
        exact Bool.eq_false_iff.2 fun h => hend (.inr h)

theorem soundBelow (n : Nat) : SoundBelow n := by
  induction n with
  | zero => intro m hm; cases hm
  | succ n ih =>
    intro m hm s
    cases hm
    exact ⟨run_entriesFrom ih .bracketed (Nat.le_refl _) none,
      run_lineEntriesFrom ih (Nat.le_refl _)⟩

/-- Reading entries follows the rules. -/
theorem run_entries (n : Nat) (ctx : Context) (s : State) :
    Run n (.entries ctx none) s (entries (levels n) ctx s).many :=
  run_entriesFrom (soundBelow n) ctx (Nat.le_refl _) none

/-! ### What is allowed is what the functions yield -/

/-- What the functions yield for a part of the grammar, whatever bound is set to a loop that has
room for all words ahead. -/
def Yields (inner : Option Levels) (s : State) (r : Read SetBody) : Part → Prop
  | .tag => (tag inner s).one = r
  | .tags => ∀ k, s.left ≤ k → (many (fun s =>
      if s.cursor.isAt tagMark then some (tag inner s) else none) k s).many = r
  | .bracketed id opened => bracketedSet inner id opened s = r
  | .line id label => lineSet inner id label s = r
  | .bare ctx ts => ∃ b, bareNode inner ctx ts s = some b ∧ b.one = r
  | .node ctx => ∃ b, node inner ctx s = some b ∧ b.one = r
  | .entry ctx => (entry inner ctx s).one = r
  | .entries ctx pending => ∀ k, s.left ≤ k → (entriesFrom inner ctx k pending s).many = r
  | .lineEntries => ∀ k, s.left ≤ k → (lineEntriesFrom inner k s).many = r

theorem one_inj {a b : Read Tree} (h : a.one = b.one) : a = b := by
  cases a; cases b
  simp_all [Read.one]

theorem many_inj {a b : Read (List Tree)} (h : a.many = b.many) : a = b := by
  cases a; cases b
  simp_all [Read.many]

theorem exists_left_eq_succ {s : State} {k : Nat} (h : s.cursor.atEnd = false) (hk : s.left ≤ k) :
    ∃ j, k = j + 1 := by
  refine Nat.exists_eq_succ_of_ne_zero fun h0 => ?_
  have hend := State.atEnd_of_left_eq_zero (s := s) (by omega)
  rw [h] at hend
  cases hend

theorem node_eq_none {inner : Option Levels} {ctx : Context} {s : State} (hs : s.noEntry)
    (hat : s.cursor.isAt tagMark = false) : node inner ctx s = none := by
  obtain ⟨hl, ho, he⟩ := hs
  simp [node, tags_of_not_isAt inner hat, bareNode, hl, ho, he]

theorem tag_eq (inner : Option Levels) {s : State} {l : Lexeme}
    (hl : s.advance.cursor.label? = some l) :
    tag inner s =
      let set : Read SetBody := if (s.advance.behindLabel l).takesArguments then
          bracketedSet inner s.advance.count .paren (s.advance.behindLabel l)
        else ⟨{}, s.advance.behindLabel l⟩
      close s.advance.count s.cursor.pos .tag l.label
        { opened := set.value.opened, closed := set.value.closed,
          literal := some l.label.literal } set.value.children set.state := by
  simp only [tag]
  split
  · rename_i hnone
    cases hl.symm.trans hnone
  · rename_i l' hl'
    cases hl.symm.trans hl'
    rfl

theorem labeled_eq_of_promisesSet (inner : Option Levels) {s : State} {l : Lexeme}
    (hp : (s.behindLabel l).promisesSet) :
    labeled inner l s =
      match (s.behindLabel l).advance.cursor.opens? with
      | some opened =>
        if (s.behindLabel l).advance.cursor.newlines < 2 then
          reportCramped s.count (labeledNode s.count l.start l.label
            (bracketedSet inner s.count opened (s.behindLabel l).advance))
        else
          labeledNode s.count l.start l.label
            (lineSet inner s.count l.span (s.behindLabel l).advance)
      | none =>
        labeledNode s.count l.start l.label
          (lineSet inner s.count l.span (s.behindLabel l).advance) :=
  if_pos hp

theorem labeled_eq_of_not_promisesSet (inner : Option Levels) {s : State} {l : Lexeme}
    (hp : ¬(s.behindLabel l).promisesSet) :
    labeled inner l s = labeledNode s.count l.start l.label ⟨{}, s.behindLabel l⟩ :=
  if_neg hp

theorem bareNode_of_label (inner : Option Levels) (ctx : Context) (ts : List Tree) {s : State}
    {l : Lexeme} (hl : s.cursor.label? = some l) :
    bareNode inner ctx ts s = some (labeled inner l s) := by
  simp [bareNode, hl]

theorem entriesFrom_of_separator (inner : Option Levels) (ctx : Context) (k : Nat)
    (pending : Option Separator) {s : State} (he : ¬s.entriesEnd ctx)
    (hs : s.cursor.separator?.isSome = true) :
    entriesFrom inner ctx (k + 1) pending s =
      let rest := entriesFrom inner ctx k pending (unexpected s).state
      ⟨(unexpected s).value :: rest.value, rest.state⟩ :=
  (if_neg he).trans (if_pos hs)

theorem entriesFrom_of_entry (inner : Option Levels) (ctx : Context) (k : Nat)
    (pending : Option Separator) {s : State} (he : ¬s.entriesEnd ctx)
    (hs : s.cursor.separator? = none) :
    entriesFrom inner ctx (k + 1) pending s =
      let e := entry inner ctx s
      let t := precede pending e.value
      match e.state.cursor.separator? with
      | some sep =>
        let f := follow sep t e.state
        let rest := entriesFrom inner ctx k (some sep) f.state
        ⟨f.value :: rest.value, rest.state⟩
      | none =>
        let rest := entriesFrom inner ctx k none e.state
        ⟨t :: rest.value, rest.state⟩ :=
  (if_neg he).trans (if_neg (by simp [hs]))

/-- What the relation allows is what the functions yield. -/
theorem Run.yields {n : Nat} {part : Part} {s : State} {r : Read SetBody} (h : Run n part s r) :
    Yields (levels n) s r part := by
  -- A loop whose rule reads something has a round left for it, by `Run.progress`.
  induction h with
  | namelessTag hat hl =>
    simp only [Yields, tag]
    split
    · rfl
    · rename_i hsome
      cases hl.symm.trans hsome
  | plainTag hat hl hargs => simp only [Yields, tag_eq _ hl, hargs, if_false]
  | tagWithArguments hat hl hargs _ ih =>
    simp only [Yields] at ih
    simp only [Yields, tag_eq _ hl, hargs, if_true, ih]
  | tagsEnd hat =>
    intro k _
    cases k <;> simp [many, hat, Read.many]
  | tagsCons hat first _ ihFirst ihRest =>
    intro k hk
    obtain ⟨j, rfl⟩ := exists_left_eq_succ (Cursor.atEnd_of_isAt hat) hk
    have hlt : _ < _ := first.progress.2 trivial
    have hrest := many_inj (ihRest j (Nat.le_of_lt_succ (hlt.trans_le hk)))
    simp only [many, hat, if_true, one_inj ihFirst, hrest]
  | bracketedRefused ho => rfl
  | bracketedClosed ho _ hc ih =>
    have he := many_inj (ih _ (Nat.le_refl _))
    simp [Yields, bracketedSet, levels, entries, he, hc]
  | bracketedOpen ho _ hc ih =>
    have he := many_inj (ih _ (Nat.le_refl _))
    simp [Yields, bracketedSet, levels, entries, he, hc]
  | lineMissing hm => exact if_pos hm
  | lineRefused hm => exact if_neg hm
  | lineRead hm _ ih => exact (if_neg hm).trans (ih _ (Nat.le_refl _))
  | label hl hp =>
    exact ⟨_, bareNode_of_label _ _ _ hl, by rw [labeled_eq_of_not_promisesSet _ hp]⟩
  | labeledSet hl hp ho hn _ ih =>
    refine ⟨_, bareNode_of_label _ _ _ hl, ?_⟩
    simp only [Yields] at ih
    simp only [labeled_eq_of_promisesSet _ hp, ho, hn, if_true, ih]
  | labeledLine hl hp ho _ ih =>
    refine ⟨_, bareNode_of_label _ _ _ hl, ?_⟩
    simp only [Yields] at ih
    rw [labeled_eq_of_promisesSet _ hp]
    split
    · rename_i hsome
      have hn := ho.resolve_left fun hnone => by cases hnone.symm.trans hsome
      rw [if_neg (Nat.not_lt.2 hn), ih]
    · rw [ih]
  | unlabeled hl ho _ ih =>
    refine ⟨_, by simp only [bareNode, hl, ho]; rfl, ?_⟩
    rw [← show bracketedSet _ _ _ _ = _ from ih]
    rfl
  | untaggable hs ht =>
    obtain ⟨hl, ho, he⟩ := hs
    exact ⟨_, by simp [bareNode, hl, ho, he, ht], rfl⟩
  | unexpected hl ho he => exact ⟨_, by simp [bareNode, hl, ho, he], rfl⟩
  | node _ _ ihTags ihBare =>
    obtain ⟨b, hb, hr⟩ := ihBare
    have ht := many_inj (ihTags _ (Nat.le_refl _))
    cases one_inj hr
    exact ⟨_, by simp [Grammar.node, tags, ht, hb], rfl⟩
  | entry _ ih =>
    obtain ⟨b, hb, hr⟩ := ih
    simp [Yields, Grammar.entry, hb, one_inj hr]
  | stray hs hat => simp [Yields, Grammar.entry, node_eq_none hs hat]
  | entriesEnd he =>
    intro k _
    cases k with
    | zero => rfl
    | succ k => exact congrArg Read.many (if_pos he)
  | @extraSeparator _ _ _ s _ he hs _ ih =>
    intro k hk
    have hend := State.atEnd_of_not_entriesEnd he
    obtain ⟨j, rfl⟩ := exists_left_eq_succ hend hk
    have hlt := left_unexpected_lt hend
    rw [entriesFrom_of_separator _ _ _ _ he hs, many_inj (ih j (by omega))]
  | @separated _ _ pending s e sep _ he hs first hsep _ ihFirst ihRest =>
    intro k hk
    have hend := State.atEnd_of_not_entriesEnd he
    obtain ⟨j, rfl⟩ := exists_left_eq_succ hend hk
    have hlt : e.state.left < s.left := first.progress.2 hend
    have hle := (follow_reaches sep (precede pending e.value) e.state).left_le
    rw [entriesFrom_of_entry _ _ _ _ he hs]
    simp only [one_inj ihFirst, hsep, many_inj (ihRest j (by omega))]
  | @unseparated _ _ _ s e _ he hs first hsep _ ihFirst ihRest =>
    intro k hk
    have hend := State.atEnd_of_not_entriesEnd he
    obtain ⟨j, rfl⟩ := exists_left_eq_succ hend hk
    have hlt : e.state.left < s.left := first.progress.2 hend
    rw [entriesFrom_of_entry _ _ _ _ he hs]
    simp only [one_inj ihFirst, hsep, many_inj (ihRest j (by omega))]
  | @lineLast _ s r first he ih =>
    intro k hk
    obtain ⟨b, hb, hr⟩ := ih
    cases one_inj hr
    obtain ⟨j, rfl⟩ : ∃ j, k = j + 1 := by
      have hlt : r.state.left < s.left := first.progress.2 trivial
      exact Nat.exists_eq_succ_of_ne_zero (by omega)
    simp only [lineEntriesFrom, hb]
    exact congrArg Read.many (if_pos he)
  | @lineCons _ s r _ first he _ ihFirst ihRest =>
    intro k hk
    obtain ⟨b, hb, hr⟩ := ihFirst
    cases one_inj hr
    have hlt : r.state.left < s.left := first.progress.2 trivial
    obtain ⟨j, rfl⟩ : ∃ j, k = j + 1 := Nat.exists_eq_succ_of_ne_zero (by omega)
    have hrest := many_inj (ihRest j (by omega))
    simp only [lineEntriesFrom, hb, hrest]
    exact congrArg Read.many (if_neg he)

end Grammar

/-! ### Documents -/

namespace Parse

/-- What a document is, when its entries are known. -/
theorem document_of_run {source : Source} {r : Read (List Tree)}
    (h : Grammar.Run Grammar.maxDepth (.entries .top none) (State.begin source 0).alloc.state
      r.many) :
    document source = ofState source
      (some (.node (State.begin source 0).count (rootData source) [] r.value)) r.state := by
  have hread : Grammar.entries (Grammar.levels Grammar.maxDepth) .top
      (State.begin source 0).alloc.state = r := Grammar.many_inj (h.yields _ (Nat.le_refl _))
  rw [document, documentTo, hread]
  rfl

end Parse

end Metadoc
