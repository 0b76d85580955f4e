import Metadoc.Document.Parse
import Metadoc.Proofs.Document.Growth
import Metadoc.Proofs.Document.Words

/-!
# No word is lost

* `Tree.leaves` lists the texts that a tree was written as, in order;
* `State.Consumes s s' bs` says that the words between two states spell `bs`;
* `Grammar.Run.consumes` : reading a part of the grammar consumes the leaves of what it yields,
  unless a set was too deep;
* `Parse.document_spells` : the leaves of a document are its tokens with content, in order, but for
  the colons behind labels.
-/

namespace Metadoc

/-! ### Leaves -/

/-- The texts of a node itself: its label, with an at sign before it when it is a tag. -/
def NodeData.written (d : NodeData) : List Bytes :=
  (if d.kind = .tag then [[tagMark]] else []) ++
    if d.bytes = [] ∨ d.kind = .file then [] else [d.bytes]

/-- Texts between the brackets that there are. -/
def enclosed (opened closed : Option Delimiter) (inside : List Bytes) : List Bytes :=
  opened.toList.map (fun d => [d.openByte]) ++
    (inside ++ closed.toList.map fun d => [d.closeByte])

@[simp] theorem enclosed_none (inside : List Bytes) : enclosed none none inside = inside := by
  simp [enclosed]

namespace Tree

mutual

/-- The texts that a tree was written as: its tags, its label, then its children between the
brackets. -/
def leaves : Tree → List Bytes
  | node _ d ts cs =>
    leavesAll ts ++ (d.written ++ enclosed d.facets.opened d.facets.closed (members cs))

/-- The texts of trees that stand one after the other. -/
def leavesAll : List Tree → List Bytes
  | [] => []
  | t :: ts => leaves t ++ leavesAll ts

/-- The texts of the children of a node, each with the separator after it. -/
def members : List Tree → List Bytes
  | [] => []
  | t :: ts =>
    leaves t ++ (t.data.facets.followedBy.toList.map (fun sep => [sep.byte]) ++ members ts)

end

theorem members_cons_of_followedBy_none {t : Tree} {ts : List Tree}
    (h : t.data.facets.followedBy = none) : members (t :: ts) = t.leaves ++ members ts := by
  simp [members, h]

end Tree

/-- The texts of a set. -/
def SetBody.leaves (b : SetBody) : List Bytes := enclosed b.opened b.closed (Tree.members b.children)

/-- A node with a set is neither a document nor a tag. -/
theorem SetBody.kind_ne (b : SetBody) : b.kind ≠ .file ∧ b.kind ≠ .tag := by
  unfold kind
  split <;> decide

@[simp] theorem SetBody.leaves_children (children : List Tree) :
    ({ children } : SetBody).leaves = Tree.members children := enclosed_none _

/-! ### Consuming words -/

namespace State

/-- The words between `s` and `s'` spell `bs`. -/
def Consumes (s s' : State) (bs : List Bytes) : Prop :=
  ∃ ws, s.cursor.ahead = ws ++ s'.cursor.ahead ∧ Word.Spells ws bs

/-- Every word ahead has a text. -/
def Solid (s : State) : Prop := ∀ w ∈ s.cursor.ahead, w.lexeme.bytes ≠ []

namespace Consumes

theorem of_cursor_eq {s s' : State} (h : s'.cursor = s.cursor) : Consumes s s' [] :=
  ⟨[], by rw [h, List.nil_append], .nil⟩

theorem trans {s s' s'' : State} {bs bs' : List Bytes} (h : Consumes s s' bs)
    (h' : Consumes s' s'' bs') : Consumes s s'' (bs ++ bs') := by
  obtain ⟨ws, hws, hspell⟩ := h
  obtain ⟨ws', hws', hspell'⟩ := h'
  exact ⟨ws ++ ws', by rw [hws, hws', List.append_assoc], hspell.append hspell'⟩

/-- What does not move the cursor may come after. -/
theorem trans_cursor {s s' s'' : State} {bs : List Bytes} (h : Consumes s s' bs)
    (h' : s''.cursor = s'.cursor) : Consumes s s'' bs := by
  simpa using h.trans (of_cursor_eq h')

theorem solid {s s' : State} {bs : List Bytes} (h : Consumes s s' bs) (hs : s.Solid) :
    s'.Solid := by
  obtain ⟨ws, hws, -⟩ := h
  exact fun w hw => hs w (hws ▸ List.mem_append_right ws hw)

end Consumes

theorem consumes_advance {s : State} {l : Lexeme} (h : s.cursor.lexeme? = some l) :
    Consumes s s.advance [l.bytes] := by
  obtain ⟨w, rest, hw, rfl⟩ := Cursor.exists_ahead_of_lexeme h
  exact ⟨[w], by rw [cursor_advance, Cursor.ahead_advance hw, hw]; rfl, .word w .nil⟩

theorem Solid.bytes_ne_nil {s : State} (hs : s.Solid) {l : Lexeme}
    (h : s.cursor.lexeme? = some l) : l.bytes ≠ [] := by
  obtain ⟨w, rest, hw, rfl⟩ := Cursor.exists_ahead_of_lexeme h
  exact hs w (hw ▸ List.mem_cons_self)

variable {s : State}

theorem Solid.bytes_ne_nil_of_label (hs : s.Solid) {l : Lexeme} (h : s.cursor.label? = some l) :
    l.bytes ≠ [] :=
  hs.bytes_ne_nil (Option.filter_eq_some_iff.1 h).1

theorem consumes_symbol {b : UInt8} (h : s.cursor.symbol? = some b) :
    Consumes s s.advance [[b]] := by
  obtain ⟨l, hl, hb⟩ := Option.bind_eq_some_iff.1 h
  exact Token.bytes_of_symbol hb ▸ consumes_advance hl

theorem consumes_opens {d : Delimiter} (h : s.cursor.opens? = some d) :
    Consumes s s.advance [[d.openByte]] := by
  obtain ⟨b, hb, hd⟩ := Option.bind_eq_some_iff.1 h
  exact Delimiter.ofOpen?_eq_some hd ▸ consumes_symbol hb

theorem consumes_closes {d : Delimiter} (h : s.cursor.closes? = some d) :
    Consumes s s.advance [[d.closeByte]] := by
  obtain ⟨b, hb, hd⟩ := Option.bind_eq_some_iff.1 h
  exact Delimiter.ofClose?_eq_some hd ▸ consumes_symbol hb

theorem consumes_separator {sep : Separator} (h : s.cursor.separator? = some sep) :
    Consumes s s.advance [[sep.byte]] := by
  obtain ⟨b, hb, hsep⟩ := Option.bind_eq_some_iff.1 h
  exact Separator.ofByte?_eq_some hsep ▸ consumes_symbol hb

theorem consumes_tagMark (h : s.cursor.isAt tagMark = true) :
    Consumes s s.advance [[tagMark]] :=
  consumes_symbol (of_decide_eq_true h)

@[simp] theorem cursor_behindLabel (s : State) (l : Lexeme) :
    (s.behindLabel l).cursor = s.cursor.advance := by
  simp [behindLabel, takeLabel]

theorem consumes_behindLabel {l : Lexeme} (h : s.cursor.label? = some l) :
    Consumes s (s.behindLabel l) [l.bytes] :=
  (consumes_advance (Option.filter_eq_some_iff.1 h).1).trans_cursor (by simp)

/-- The name of a tag and the at sign before it are what is written. -/
theorem consumes_tagName {l : Lexeme} (hat : s.cursor.isAt tagMark = true)
    (hl : s.advance.cursor.label? = some l) :
    Consumes s (s.advance.behindLabel l) [[tagMark], l.bytes] :=
  (consumes_tagMark hat).trans (consumes_behindLabel hl)

/-- A label and the colon behind it spell the label. -/
theorem consumes_promise {l : Lexeme} (h : s.cursor.label? = some l)
    (hp : (s.behindLabel l).promisesSet) : Consumes s (s.behindLabel l).advance [l.bytes] := by
  obtain ⟨hl, hlabel⟩ := Option.filter_eq_some_iff.1 h
  obtain ⟨w, rest, hw, rfl⟩ := Cursor.exists_ahead_of_lexeme hl
  obtain ⟨hat, hnl⟩ := hp
  rw [cursor_behindLabel] at hat hnl
  -- The colon is the word behind the label, with no line break between.
  obtain ⟨m, hm, hcolon⟩ := Option.bind_eq_some_iff.1 (of_decide_eq_true hat)
  obtain ⟨c, rest', hc, rfl⟩ := Cursor.exists_ahead_of_lexeme hm
  have hgap : s.cursor.advance.gap = c.gap := by simp only [Cursor.gap, hc]
  unfold Cursor.newlines Cursor.trivia at hnl
  rw [hgap] at hnl
  rw [Cursor.ahead_advance hw] at hc
  refine ⟨[w, c], ?_, .colon hlabel (Trivia.staysOnLine_of_newlines hnl) hcolon .nil⟩
  have hbehind : (s.behindLabel w.lexeme).cursor.ahead = c :: rest' := by
    rw [cursor_behindLabel, Cursor.ahead_advance hw, hc]
  rw [cursor_advance, Cursor.ahead_advance hbehind, hw, hc]
  rfl

end State

namespace Grammar

open State (Consumes)

/-! ### What nodes were written as -/

/-- The label of a node as its text: none where the label is empty. -/
def labelText (label : Label) : List Bytes := if label.bytes = [] then [] else [label.bytes]

theorem leaves_close {kind : NodeKind} (hk : kind ≠ .file) (id start : Nat) (label : Label)
    (facets : Facets) (children : List Tree) (s : State) :
    (close id start kind label facets children s).value.leaves =
      (if kind = .tag then [[tagMark]] else []) ++
        (labelText label ++ enclosed facets.opened facets.closed (Tree.members children)) := by
  simp [close, Tree.leaves, Tree.leavesAll, NodeData.written, labelText, hk]

theorem labelText_label {l : Lexeme} (h : l.bytes ≠ []) : labelText l.label = [l.bytes] := by
  have hb : l.label.bytes = l.bytes := by
    unfold Lexeme.label
    split <;> rfl
  rw [labelText, hb, if_neg h]

theorem leaves_labeledNode {l : Lexeme} (h : l.bytes ≠ []) (id start : Nat) (r : Read SetBody) :
    (labeledNode id start l.label r).value.leaves = l.bytes :: r.value.leaves := by
  obtain ⟨hfile, htag⟩ := r.value.kind_ne
  rw [labeledNode, leaves_close hfile, if_neg htag, labelText_label h]
  rfl

theorem leaves_follow (sep : Separator) (t : Tree) (s : State) :
    (follow sep t s).value.leaves = t.leaves := by
  cases t
  unfold follow
  dsimp only
  split <;> rfl

theorem leaves_precede (sep : Option Separator) (t : Tree) : (precede sep t).leaves = t.leaves := by
  cases t
  rfl

theorem leaves_dress (pre : String) (ts : List Tree) {t : Tree} (h : t.tags = []) :
    (dress pre ts t).leaves = Tree.leavesAll ts ++ t.leaves := by
  cases t
  cases h
  rfl

/-! ### Nodes without separators -/

/-- What holds of the entries of a part before a separator is read. -/
def Part.Unfollowed (b : SetBody) : Part → Prop
  | .bare .. => ∀ t ∈ b.children, t.tags = [] ∧ t.data.facets.followedBy = none
  | .node _ | .entry _ => ∀ t ∈ b.children, t.data.facets.followedBy = none
  | _ => True

theorem reportCramped_value (id : Nat) (r : Read Tree) : (reportCramped id r).value = r.value := by
  unfold reportCramped
  split <;> rfl

theorem unexpected_unfollowed (s : State) :
    (unexpected s).value.tags = [] ∧ (unexpected s).value.data.facets.followedBy = none := by
  unfold unexpected
  dsimp only
  split <;> exact ⟨rfl, rfl⟩

/-- Only what reads a separator records one. -/
theorem Run.unfollowed {n : Nat} {part : Part} {s : State} {r : Read SetBody}
    (h : Run n part s r) : part.Unfollowed r.value := by
  induction h with
  | label _ _ | labeledLine _ _ _ _ | unlabeled _ _ _ | untaggable _ _ =>
    intro t ht
    cases List.mem_singleton.1 ht
    exact ⟨rfl, rfl⟩
  | labeledSet _ _ _ _ _ =>
    intro t ht
    cases List.mem_singleton.1 ht
    rw [reportCramped_value]
    exact ⟨rfl, rfl⟩
  | unexpected _ _ _ =>
    intro t ht
    cases List.mem_singleton.1 ht
    exact unexpected_unfollowed _
  | @node _ _ _ _ t _ _ _ ihBare =>
    intro t' ht
    cases List.mem_singleton.1 ht
    obtain ⟨-, hnone⟩ := ihBare t.value List.mem_cons_self
    cases htree : t.value
    rw [htree] at hnone
    exact hnone
  | entry _ ih => exact ih
  | stray _ _ =>
    intro t ht
    cases List.mem_singleton.1 ht
    exact (unexpected_unfollowed _).2
  | _ => trivial

/-! ### What is read is consumed -/

/-- The texts that a part of the grammar was written as. -/
def Part.leaves (b : SetBody) : Part → List Bytes
  | .tag | .tags | .bare .. | .node _ | .entry _ => Tree.leavesAll b.children
  | .bracketed .. | .line .. | .entries .. | .lineEntries => b.leaves

theorem consumes_unexpected {s : State} (hs : s.Solid) :
    Consumes s (unexpected s).state (unexpected s).value.leaves := by
  unfold unexpected
  dsimp only
  split
  · rename_i l hl
    have hb := hs.bytes_ne_nil hl
    rw [leaves_close (by decide)]
    simpa [labelText, plainLabel, hb, Tree.members] using
      (State.consumes_advance hl).trans_cursor (by simp)
  · rename_i hl
    have hend : s.cursor.ahead = [] := by simpa [Cursor.lexeme?, Cursor.word?] using hl
    rw [leaves_close (by decide)]
    refine .of_cursor_eq ?_
    simp [Cursor.advance, hend]

/-- Whether no set was too deep so far. -/
def NeverTooDeep (s : State) : Prop := ∀ x ∈ s.reports, x.problem ≠ .tooDeep

theorem NeverTooDeep.before {s s' : State} (h : NeverTooDeep s') (hg : State.Grows s s') :
    NeverTooDeep s := hg.forall_reports h

theorem not_neverTooDeep_report (s : State) (span : Span) (id : Nat) :
    ¬NeverTooDeep (s.report .tooDeep span id) := by
  intro h
  exact h ⟨.tooDeep, span, id⟩ (List.mem_append_right _ List.mem_cons_self) rfl

/-- A node that is closed consumes what was consumed before, if that is what it was written as. -/
theorem consumes_close {s s' : State} {kind : NodeKind} {label : Label} {facets : Facets}
    {children : List Tree} {bs : List Bytes} (h : Consumes s s' bs) (id start : Nat)
    (hk : kind ≠ .file) (hbs : bs = (if kind = .tag then [[tagMark]] else []) ++
      (labelText label ++ enclosed facets.opened facets.closed (Tree.members children))) :
    Consumes s (close id start kind label facets children s').state
      (close id start kind label facets children s').value.leaves := by
  rw [leaves_close hk, ← hbs]
  exact h.trans_cursor (cursor_close ..)

theorem consumes_labeledNode {s : State} {l : Lexeme} {r : Read SetBody} (hb : l.bytes ≠ [])
    (h : Consumes s r.state (l.bytes :: r.value.leaves)) (id start : Nat) :
    Consumes s (labeledNode id start l.label r).state
      (labeledNode id start l.label r).value.leaves := by
  rw [leaves_labeledNode hb]
  exact h.trans_cursor (cursor_close ..)

theorem consumes_reportCramped {s : State} {r : Read Tree} (id : Nat)
    (h : Consumes s r.state r.value.leaves) :
    Consumes s (reportCramped id r).state (reportCramped id r).value.leaves := by
  rw [reportCramped_value]
  exact h.trans_cursor (cursor_reportCramped id r)

theorem consumes_untaggable (ts : List Tree) (s : State) :
    Consumes s (untaggable ts s).state (untaggable ts s).value.leaves :=
  .of_cursor_eq (cursor_untaggable ts s)

theorem consumes_follow {s s' : State} {t : Tree} {sep : Separator}
    (h : Consumes s s' t.leaves) (hsep : s'.cursor.separator? = some sep) :
    Consumes s (follow sep t s').state (Tree.members [(follow sep t s').value]) := by
  have hfollowed : (follow sep t s').value.data.facets.followedBy = some sep := by
    unfold follow
    dsimp only
    split <;> rfl
  simp only [Tree.members, hfollowed, leaves_follow]
  exact (h.trans (State.consumes_separator hsep)).trans_cursor (cursor_follow ..)

theorem consumes_one {s : State} {r : Read Tree} (h : Consumes s r.state r.value.leaves) :
    Consumes s r.one.state (Tree.leavesAll r.one.value.children) := by
  simpa [Tree.leavesAll] using h

/-- Reading a part of the grammar consumes the words that what it yields was written as. -/
theorem Run.consumes {n : Nat} {part : Part} {s : State} {r : Read SetBody} (h : Run n part s r)
    (hs : s.Solid) (hdeep : NeverTooDeep r.state) :
    Consumes s r.state (part.leaves r.value) := by
  -- Reports are never withdrawn, so no set was too deep at any state on the way.
  induction h with
  | @namelessTag _ s hat _ =>
    have hmark : Consumes s (s.advance.alloc.state.report .missingTagName s.cursor.span
        s.advance.count) [[tagMark]] := (State.consumes_tagMark hat).trans_cursor rfl
    refine consumes_one (consumes_close hmark _ _ ?_ ?_)
    · decide
    · rfl
  | plainTag hat hl _ =>
    have hb := ((State.consumes_tagMark hat).solid hs).bytes_ne_nil_of_label hl
    refine consumes_one (consumes_close (State.consumes_tagName hat hl) _ _ ?_ ?_)
    · decide
    · rw [labelText_label hb]; rfl
  | tagWithArguments hat hl _ _ ih =>
    have hb := ((State.consumes_tagMark hat).solid hs).bytes_ne_nil_of_label hl
    have hname := State.consumes_tagName hat hl
    have hargs := ih (hname.solid hs) (hdeep.before (State.grows_claim _))
    refine consumes_one (consumes_close (hname.trans hargs) _ _ ?_ ?_)
    · decide
    · rw [labelText_label hb]; rfl
  | tagsEnd _ => exact .of_cursor_eq rfl
  | tagsCons _ _ rest ihFirst ihRest =>
    have hfirst := ihFirst hs (hdeep.before rest.grows)
    have hrest := ihRest (hfirst.solid hs) hdeep
    simpa [Part.leaves, Tree.leavesAll] using hfirst.trans hrest
  | bracketedRefused _ =>
    exact absurd (hdeep.before (grows_skip ..)) (not_neverTooDeep_report _ _ _)
  | bracketedClosed ho _ hc ih =>
    have hopen := State.consumes_opens ho
    have hbody := ih (hopen.solid hs) (hdeep.before (State.grows_advance _))
    simpa [Part.leaves, SetBody.leaves, enclosed]
      using (hopen.trans hbody).trans (State.consumes_closes hc)
  | bracketedOpen ho _ _ ih =>
    have hopen := State.consumes_opens ho
    have hbody := ih (hopen.solid hs) (hdeep.before (State.grows_report ..))
    simpa [Part.leaves, SetBody.leaves, enclosed]
      using (hopen.trans hbody).trans_cursor (State.cursor_report ..)
  | lineMissing _ => exact .of_cursor_eq rfl
  | lineRefused _ =>
    exact absurd (hdeep.before (grows_skip ..)) (not_neverTooDeep_report _ _ _)
  | lineRead _ _ ih => exact ih hs hdeep
  | label hl _ =>
    have hb := hs.bytes_ne_nil_of_label hl
    exact consumes_one (consumes_labeledNode hb (State.consumes_behindLabel hl) _ _)
  | labeledSet hl hp _ _ _ ih =>
    have hb := hs.bytes_ne_nil_of_label hl
    have hlabel := State.consumes_promise hl hp
    have hset := ih (hlabel.solid hs)
      ((hdeep.before (grows_reportCramped ..)).before (State.grows_claim _))
    exact consumes_one (consumes_reportCramped _
      (consumes_labeledNode hb (hlabel.trans hset) _ _))
  | labeledLine hl hp _ _ ih =>
    have hb := hs.bytes_ne_nil_of_label hl
    have hlabel := State.consumes_promise hl hp
    have hset := ih (hlabel.solid hs) (hdeep.before (State.grows_claim _))
    exact consumes_one (consumes_labeledNode hb (hlabel.trans hset) _ _)
  | @unlabeled _ ctx ts s _ r _ _ _ ih =>
    obtain ⟨hfile, htag⟩ := r.value.kind_ne
    have hbegin : Consumes s (if ctx = .line then
        s.alloc.state.report (.unlabeledSet (!ts.isEmpty)) s.cursor.span s.count
      else s.alloc.state) [] := by
      split <;> exact .of_cursor_eq rfl
    have hset := ih (hbegin.solid hs) (hdeep.before (State.grows_claim _))
    refine consumes_one (consumes_close (hbegin.trans hset) _ _ hfile ?_)
    rw [if_neg htag]; rfl
  | untaggable _ _ => exact consumes_one (consumes_untaggable _ _)
  | unexpected _ _ _ => exact consumes_one (consumes_unexpected hs)
  | @node _ ctx s ts t _ bare ihTags ihBare =>
    have htags := ihTags hs (hdeep.before bare.grows)
    have hbare := ihBare (htags.solid hs) hdeep
    obtain ⟨htagless, -⟩ := bare.unfollowed t.value List.mem_cons_self
    simpa [Part.leaves, Tree.leavesAll, leaves_dress _ _ htagless] using htags.trans hbare
  | entry _ ih => exact ih hs hdeep
  | stray _ _ => exact consumes_one (consumes_unexpected hs)
  | entriesEnd _ => exact .of_cursor_eq rfl
  | @extraSeparator _ _ _ s _ _ _ _ ih =>
    have hfirst := consumes_unexpected hs
    have hrest := ih (hfirst.solid hs) hdeep
    have hnone := (unexpected_unfollowed s).2
    simpa [Part.leaves, Tree.members_cons_of_followedBy_none hnone]
      using hfirst.trans hrest
  | @separated _ _ pending s e sep r _ _ _ hsep rest ihFirst ihRest =>
    have hfollows := grows_follow sep (precede pending e.value) e.state
    have hfirst := ihFirst hs (hdeep.before (hfollows.trans rest.grows))
    have hentry : Consumes s e.state (precede pending e.value).leaves := by
      simpa [Part.leaves, Tree.leavesAll, leaves_precede] using hfirst
    have hfollow := consumes_follow hentry hsep
    have hrest := ihRest (hfollow.solid hs) hdeep
    simpa [Part.leaves, Tree.members] using hfollow.trans hrest
  | @unseparated _ _ pending _ e r _ _ first _ rest ihFirst ihRest =>
    have hfirst := ihFirst hs (hdeep.before rest.grows)
    have hrest := ihRest (hfirst.solid hs) hdeep
    have hnone : (precede pending e.value).data.facets.followedBy = none := by
      have hnone := first.unfollowed e.value List.mem_cons_self
      cases htree : e.value
      rw [htree] at hnone
      exact hnone
    simpa [Part.leaves, Tree.leavesAll, leaves_precede,
      Tree.members_cons_of_followedBy_none hnone] using hfirst.trans hrest
  | lineLast first _ ih =>
    have hnone := first.unfollowed _ List.mem_cons_self
    simpa [Part.leaves, Tree.leavesAll, Tree.members, hnone] using ih hs hdeep
  | lineCons first _ rest ihFirst ihRest =>
    have hfirst := ihFirst hs (hdeep.before rest.grows)
    have hrest := ihRest (hfirst.solid hs) hdeep
    have hnone := first.unfollowed _ List.mem_cons_self
    simpa [Part.leaves, Tree.leavesAll,
      Tree.members_cons_of_followedBy_none hnone] using hfirst.trans hrest

/-- Entries are read up to where they end. -/
theorem Run.entriesEnd_state {n : Nat} {ctx : Context} {pending : Option Separator} {s : State}
    {r : Read SetBody} (h : Run n (.entries ctx pending) s r) : r.state.entriesEnd ctx := by
  generalize hpart : Part.entries ctx pending = part at h
  induction h generalizing pending with
  | entriesEnd he =>
    cases hpart
    exact he
  | extraSeparator _ _ _ ih | separated _ _ _ _ _ _ ih | unseparated _ _ _ _ _ _ ih =>
    cases hpart
    exact ih rfl
  | _ => cases hpart

/-- The entries of a whole document consume every word ahead. -/
theorem Run.spells {n : Nat} {s : State} {r : Read (List Tree)}
    (h : Run n (.entries .top none) s r.many) (hs : s.Solid) (hdeep : NeverTooDeep r.state) :
    Word.Spells s.cursor.ahead (Tree.members r.value) := by
  obtain ⟨ws, hws, hspell⟩ := h.consumes hs hdeep
  have hend : r.state.cursor.ahead = [] :=
    h.entriesEnd_state.elim List.isEmpty_iff.1 fun hb => nomatch hb.1
  rw [Read.many_state, hend, List.append_nil] at hws
  rw [hws]
  simpa [Part.leaves] using hspell

end Grammar

/-! ### Whole documents -/

namespace Parse

theorem ahead_begin (source : Source) :
    (State.begin source 0).cursor.ahead = (Word.split (Lexeme.all source 0)).1 := by
  simp [State.begin, Cursor.ofLexemes]

theorem solid_begin (source : Source) : (State.begin source 0).Solid := by
  intro w hw
  rw [ahead_begin] at hw
  have hmem := Word.mem_lexemes_of_mem_split hw (List.mem_append_right _ List.mem_cons_self)
  rw [Lexeme.all_eq_map] at hmem
  obtain ⟨t, ht, htext⟩ := List.mem_map.1 hmem
  rw [← htext]
  exact Token.bytes_ne_nil_of_mem_all ht

theorem toToken_all (source : Source) (pos : Nat) :
    (Lexeme.all source pos).map Lexeme.toToken = Token.all source.bytes pos := by
  rw [Lexeme.all_eq_map, List.map_map]
  exact List.map_id _

theorem leaves_root (source : Source) (id : Nat) (children : List Tree) :
    (Tree.node id (rootData source) [] children).leaves = Tree.members children := by
  simp [Tree.leaves, Tree.leavesAll, NodeData.written, rootData, NodeData.plain]

/-- Unless a set is too deep, a document is read without losing, doubling or moving a token: its
leaves are the tokens with content, in order, but for colons behind labels. -/
theorem document_spells (source : Source)
    (h : ∀ d ∈ (document source).diagnostics, d.message ≠ Problem.tooDeep.message) :
    ∃ root, (document source).root = some root ∧
      Token.Spells (Token.all source.bytes 0) root.leaves := by
  refine ⟨_, rfl, ?_⟩
  have hrun := Grammar.run_entries Grammar.maxDepth .top (State.begin source 0).alloc.state
  have hspell := hrun.spells (solid_begin source) fun x hx htoo => by
    refine h x.diagnostic (List.mem_map_of_mem hx) ?_
    rw [Report.diagnostic, htoo]
  rw [State.cursor_alloc, ahead_begin] at hspell
  have htail : ∀ l ∈ (Word.split (Lexeme.all source 0)).2, l.isTrivia = true :=
    fun l hl => Word.isTrivia_of_mem_split hl
  have htokens := hspell.tokens (fun w hw => Word.wellFormed_of_mem_split hw) htail
  rw [← Word.split_eq, toToken_all] at htokens
  rwa [leaves_root]

/-- The colon behind the label `b` is a leaf, that behind `a` is none. -/
theorem document_spells_unclosed : ∃ root,
    (document ⟨"d", Utf8.ofString "@ a:\x7b ,b\n: c"⟩).root = some root ∧
      Token.Spells (Token.all (Utf8.ofString "@ a:\x7b ,b\n: c") 0) root.leaves :=
  document_spells ⟨"d", Utf8.ofString "@ a:\x7b ,b\n: c"⟩ (by decide +kernel)

end Parse

end Metadoc
