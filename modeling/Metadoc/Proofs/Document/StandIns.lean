import Metadoc.Proofs.Document.Ranges

/-!
# Empty nodes

Where tags have no node to stand on, an empty one stands in for it.  No other node is empty, but the
root of a document without text.

* `Tree.StandsIn` says what a stand-in is, and `Tree.Proper` that a node is one if it is empty;
* `Grammar.Run.proper` : all that is read is proper;
* `Parse.document_nested` : so in every document the ranges of nodes nest and are ordered, but for
  stand-ins.
-/

namespace Metadoc

/-! ### Stand-ins -/

/-- Whether no node can begin at a position of a document: the document ends there, or a closing
bracket or a separator stands there. -/
def Source.NodeFree (source : Source) (pos : Nat) : Prop :=
  pos = source.length ∨ ∃ t ∈ Token.all source.bytes 0, t.start = pos ∧
    ((t.symbol?.bind Delimiter.ofClose?).isSome = true ∨
      (t.symbol?.bind Separator.ofByte?).isSome = true)

/-- Whether a node is the stand-in for a node behind tags: it says nothing, and no node can begin
where it stands. -/
structure Tree.StandsIn (source : Source) (t : Tree) : Prop where
  /-- It is an error. -/
  kind : t.data.kind = .error
  /-- It has tags. -/
  tags : t.tags ≠ []
  /-- It has no children. -/
  children : t.children = []
  /-- It has no label. -/
  label : t.data.string = "" ∧ t.data.raw = "" ∧ t.data.bytes = [] ∧
    t.data.facets.literal = none
  /-- It has no brackets. -/
  brackets : t.data.facets.opened = none ∧ t.data.facets.closed = none
  /-- It is empty. -/
  empty : t.data.span.start = t.data.span.stop
  /-- No node can begin there. -/
  place : source.NodeFree t.data.span.start

/-- Whether a node is not empty, or a stand-in. -/
def Tree.Proper (source : Source) (t : Tree) : Prop :=
  t.data.span.start < t.data.span.stop ∨ t.StandsIn source

/-- Whether a state is reached by reading a document from its beginning. -/
structure State.Reading (source : Source) (s : State) : Prop where
  /-- What is ahead is the last part of the document. -/
  within : s.Within source 0
  /-- It covers the rest of it. -/
  tiled : s.cursor.Tiled
  /-- The document has kept its length. -/
  length : s.cursor.length = source.length

namespace State

theorem reading_begin (source : Source) : (begin source 0).Reading source :=
  ⟨List.suffix_rfl, Cursor.tiled_begin source 0, length_begin source⟩

theorem steps_reading (source : Source) :
    Steps fun s s' => s.Reading source → s'.Reading source where
  refl _ := id
  trans h h' := h' ∘ h
  advance s h := ⟨(steps_within source 0).advance s h.within, (onward_advance h.tiled).tiled,
    (reaches_advance s).length.trans h.length⟩
  alloc _ h := ⟨h.within, h.tiled, h.length⟩
  report _ _ _ _ h := ⟨h.within, h.tiled, h.length⟩
  claim s h := ⟨(steps_within source 0).claim s h.within, by rw [cursor_claim]; exact h.tiled,
    by rw [cursor_claim]; exact h.length⟩

variable {source : Source} {s : State}

/-- Where no entry can begin, no node can begin in the document. -/
theorem Reading.nodeFree (hs : s.Reading source) (hn : s.noEntry) :
    source.NodeFree s.cursor.pos := by
  cases hend : s.cursor.atEnd with
  | true =>
    rw [Cursor.pos, Cursor.span_of_nil (by simpa [Cursor.atEnd] using hend)]
    exact .inl hs.length
  | false =>
    obtain ⟨l, gap, rest, hstages⟩ := Cursor.exists_stages hend
    have hlexeme : s.cursor.lexeme? = some l := by
      rw [Cursor.lexeme?_eq_stages, hstages]
      rfl
    have hmem : l ∈ Lexeme.all source 0 := by
      have hsuffix := hs.within
      rw [Within, hstages, stages_begin] at hsuffix
      exact Word.mem_of_mem_stages (hsuffix.subset List.mem_cons_self)
    rw [Lexeme.all_eq_map] at hmem
    obtain ⟨t, ht, rfl⟩ := List.mem_map.1 hmem
    refine .inr ⟨t, ht, (Cursor.pos_of_stages hstages).symm, ?_⟩
    simpa [Cursor.atLineEnd, hend, Cursor.closes?, Cursor.separator?, Cursor.symbol?, hlexeme]
      using hn.2.2

end State

namespace Grammar

open State (Onward)
open Metadoc.Tree (Every Proper)

variable {source : Source} {s s' : State} {start : Nat}

theorem proper_close {children : List Tree} (h : Every (Proper source) children)
    (hlt : start < s'.cursor.prevEnd) (id : Nat) (kind : NodeKind) (label : Label)
    (facets : Facets) :
    Every (Proper source) [(close id start kind label facets children s').value] :=
  Tree.every_singleton.2 ⟨.inl (lt_max_of_lt_left hlt), Tree.every_nil, h⟩

theorem nonempty_unexpected (hs : s.cursor.Tiled) (hend : s.cursor.atEnd = false) :
    (unexpected s).value.data.span.start < (unexpected s).value.data.span.stop := by
  have hlt := (State.onward_advance (s := s.alloc.state) hs).pos_lt_prevEnd hs
    (State.left_advance_lt hend)
  unfold unexpected
  dsimp only
  split <;> exact lt_max_of_lt_left hlt

theorem proper_unexpected (hs : s.cursor.Tiled) (hend : s.cursor.atEnd = false) :
    Every (Proper source) [(unexpected s).value] := by
  refine Tree.every_singleton.2 ⟨.inl (nonempty_unexpected hs hend), ?_⟩
  unfold unexpected
  dsimp only
  split <;> exact ⟨Tree.every_nil, Tree.every_nil⟩

theorem proper_untaggable {ts : List Tree} (hs : s.Reading source) (hn : s.noEntry)
    (hne : ts ≠ []) (hts : Every (Proper source) ts) (pre : String) :
    Every (Proper source) [dress pre ts (untaggable ts s).value] := by
  have hspan : s.spanFrom s.cursor.pos = ⟨s.cursor.pos, s.cursor.pos⟩ := by
    rw [State.spanFrom, Nat.max_eq_right hs.tiled.prevEnd_le_pos]
  obtain ⟨id, s', hvalue, hcursor⟩ : ∃ id s',
      (untaggable ts s).value = (close id s.cursor.pos .error noLabel {} [] s').value ∧
        s'.cursor = s.cursor := by
    unfold untaggable
    dsimp only
    split <;> exact ⟨_, _, rfl, rfl⟩
  rw [← State.spanFrom_congr hcursor] at hspan
  rw [hvalue]
  refine Tree.every_singleton.2 ⟨.inr ⟨rfl, hne, rfl, ⟨rfl, rfl, rfl, rfl⟩, ⟨rfl, rfl⟩, ?_, ?_⟩,
    hts, Tree.every_nil⟩
  · exact (congrArg Span.start hspan).trans (congrArg Span.stop hspan).symm
  · exact hs.nodeFree hn

theorem proper_dress {ts : List Tree} {t : Tree} (h : Every (Proper source) [t])
    (hlt : t.data.span.start < t.data.span.stop) (hts : Every (Proper source) ts) (pre : String) :
    Every (Proper source) [dress pre ts t] := by
  obtain ⟨-, -, hchildren⟩ := Tree.every_singleton.1 h
  cases t
  exact Tree.every_singleton.2 ⟨.inl hlt, hts, hchildren⟩

/-- Whether a node is proper once it has its tags, whatever comment stands above it. -/
def ProperBehind (source : Source) (ts : List Tree) (t : Tree) : Prop :=
  ∀ pre, Every (Proper source) ts → Every (Proper source) [dress pre ts t]

/-- Whether the nodes that a part yields are proper.  A stand-in is one only with its tags. -/
def Part.Proper (source : Source) (r : Read SetBody) : Part → Prop
  | .bare _ ts => ∀ t ∈ r.value.children, ProperBehind source ts t
  | _ => Every (Tree.Proper source) r.value.children

theorem properBehind_close {children : List Tree} (h : Every (Tree.Proper source) children)
    (hlt : start < s'.cursor.prevEnd) (ts : List Tree) (id : Nat) (kind : NodeKind) (label : Label)
    (facets : Facets) :
    ProperBehind source ts (close id start kind label facets children s').value := by
  intro pre hts
  exact proper_dress (proper_close h hlt id kind label facets) (lt_max_of_lt_left hlt) hts pre

theorem proper_precede (sep : Option Separator) {t : Tree} (h : Every (Tree.Proper source) [t]) :
    Every (Tree.Proper source) [precede sep t] := by
  obtain ⟨hroot, hbelow⟩ := Tree.every_singleton.1 h
  cases t
  refine Tree.every_singleton.2 ⟨hroot.imp_right fun hs => ?_, hbelow⟩
  exact ⟨hs.kind, hs.tags, hs.children, hs.label, hs.brackets, hs.empty, hs.place⟩

theorem proper_follow (sep : Separator) {t : Tree} (s : State)
    (h : Every (Tree.Proper source) [t]) :
    Every (Tree.Proper source) [(follow sep t s).value] := by
  obtain ⟨hroot, hbelow⟩ := Tree.every_singleton.1 h
  cases t
  unfold follow
  dsimp only
  split
  all_goals
    refine Tree.every_singleton.2 ⟨hroot.imp_right fun hs => ?_, hbelow⟩
    exact ⟨hs.kind, hs.tags, hs.children, hs.label, hs.brackets, hs.empty, hs.place⟩

/-- No node that is read is empty but the stand-ins. -/
theorem Run.proper {n : Nat} {part : Part} {r : Read SetBody} (h : Run n part s r)
    (hs : s.Reading source) (hpart : part.Begun s) : part.Proper source r := by
  induction h with
  | namelessTag hat hl =>
    have htag := ((Run.namelessTag (n := 0) hat hl).spread hs.tiled).2 _ List.mem_cons_self
    exact Tree.every_singleton.2 ⟨.inl htag.nonempty, Tree.every_nil, Tree.every_nil⟩
  | plainTag hat hl hargs =>
    have htag := ((Run.plainTag (n := 0) hat hl hargs).spread hs.tiled).2 _ List.mem_cons_self
    exact Tree.every_singleton.2 ⟨.inl htag.nonempty, Tree.every_nil, Tree.every_nil⟩
  | @tagWithArguments _ s l r hat hl hargs args ih =>
    have htag := ((Run.tagWithArguments hat hl hargs args).spread hs.tiled).2 _ List.mem_cons_self
    have hread := (State.steps_reading source).behindLabel _ l
      ((State.steps_reading source).advance s hs)
    exact Tree.every_singleton.2 ⟨.inl htag.nonempty, Tree.every_nil, ih hread trivial⟩
  | tagsEnd _ => exact Tree.every_nil
  | tagsCons _ first _ ihFirst ihRest =>
    have hread := (State.steps_reading source).run first hs
    exact Tree.every_cons.2 ⟨ihFirst hs trivial, ihRest hread trivial⟩
  | bracketedRefused _ => exact Tree.every_nil
  | bracketedClosed _ _ _ ih => exact ih ((State.steps_reading source).advance _ hs) trivial
  | bracketedOpen _ _ _ ih => exact ih ((State.steps_reading source).advance _ hs) trivial
  | lineMissing _ => exact Tree.every_nil
  | lineRefused _ => exact Tree.every_nil
  | lineRead _ _ ih => exact ih hs trivial
  | @label _ _ ts s l hl _ =>
    have hlt := (State.steps_onward.behindLabel s l hs.tiled).pos_lt_prevEnd hs.tiled
      (left_behindLabel hl)
    rw [← Cursor.start_of_label hl] at hlt
    exact List.forall_mem_singleton.2 (properBehind_close Tree.every_nil hlt ts _ _ _ _)
  | @labeledSet _ _ ts s l opened r hl _ _ _ body ih =>
    have hread := (State.steps_reading source).advance _
      ((State.steps_reading source).behindLabel s l hs)
    have hlt := pos_lt_prevEnd_of_label hl hs.tiled body
    rw [← Cursor.start_of_label hl] at hlt
    have hvalue := reportCramped_value s.count (labeledNode s.count l.start l.label r)
    refine List.forall_mem_singleton.2 ?_
    rw [hvalue]
    exact properBehind_close (ih hread trivial) hlt ts _ _ _ _
  | @labeledLine _ _ ts s l r hl _ _ body ih =>
    have hread := (State.steps_reading source).advance _
      ((State.steps_reading source).behindLabel s l hs)
    have hlt := pos_lt_prevEnd_of_label hl hs.tiled body
    rw [← Cursor.start_of_label hl] at hlt
    exact List.forall_mem_singleton.2 (properBehind_close (ih hread trivial) hlt ts _ _ _ _)
  | @unlabeled _ ctx ts s _ r _ _ body ih =>
    generalize hbegun : (if ctx = .line then
        s.alloc.state.report (.unlabeledSet (!ts.isEmpty)) s.cursor.span s.count
      else s.alloc.state) = begun at body ih
    have hread : begun.Reading source := by
      rw [← hbegun]
      split <;> exact ⟨hs.within, hs.tiled, hs.length⟩
    have hcursor : begun.cursor = s.cursor := by rw [← hbegun]; split <;> rfl
    have hlt := (body.onward hread.tiled).pos_lt_prevEnd hread.tiled (body.progress.2 trivial)
    rw [hcursor] at hlt
    exact List.forall_mem_singleton.2 (properBehind_close (ih hread trivial) hlt ts _ _ _ _)
  | untaggable hn hne =>
    exact List.forall_mem_singleton.2 fun pre hts => proper_untaggable hs hn hne hts pre
  | unexpected _ _ he =>
    have hend := Cursor.atEnd_of_atLineEnd he
    exact List.forall_mem_singleton.2 fun pre hts =>
      proper_dress (proper_unexpected hs.tiled hend) (nonempty_unexpected hs.tiled hend) hts pre
  | node tags bare ihTags ihBare =>
    have hread := (State.steps_reading source).run tags hs
    exact ihBare hread trivial _ List.mem_cons_self _ (ihTags hs trivial)
  | entry _ ih => exact ih hs trivial
  | stray _ _ => exact proper_unexpected hs.tiled hpart
  | entriesEnd _ => exact Tree.every_nil
  | @extraSeparator _ _ _ s _ he _ _ ih =>
    have hread := (State.steps_reading source).unexpected s hs
    exact Tree.every_cons.2 ⟨proper_unexpected hs.tiled (State.atEnd_of_not_entriesEnd he),
      ih hread trivial⟩
  | @separated _ _ pending s e sep r he _ first _ _ ihFirst ihRest =>
    have hread := (State.steps_reading source).follow sep (precede pending e.value) _
      ((State.steps_reading source).run first hs)
    have hfirst := ihFirst hs (State.atEnd_of_not_entriesEnd he)
    exact Tree.every_cons.2 ⟨proper_follow sep _ (proper_precede pending hfirst),
      ihRest hread trivial⟩
  | @unseparated _ _ pending s e r he _ first _ _ ihFirst ihRest =>
    have hread := (State.steps_reading source).run first hs
    have hfirst := ihFirst hs (State.atEnd_of_not_entriesEnd he)
    exact Tree.every_cons.2 ⟨proper_precede pending hfirst, ihRest hread trivial⟩
  | lineLast _ _ ih => exact ih hs trivial
  | lineCons first _ _ ihFirst ihRest =>
    have hread := (State.steps_reading source).run first hs
    exact Tree.every_cons.2 ⟨ihFirst hs trivial, ihRest hread trivial⟩

end Grammar

/-! ### Documents -/

namespace Parse

/-- Whether the ranges of the nodes of a parse nest and are ordered. -/
structure Nested (p : Parse) : Prop where
  /-- Children lie in the ranges of their parents, unless they are empty, and one behind the other;
  tags lie one behind the other before their nodes, in the ranges of the parents of these. -/
  ranged : ∀ t ∈ p.nodes, t.Ranged p.source.length
  /-- The arguments of a tag lie in its range, but for a stand-in at the end of the document that
  cuts the arguments off. -/
  arguments : ∀ t ∈ p.nodes, ∀ g ∈ t.tags, ∀ c ∈ g.children, c.data.span.LiesIn g.data.span ∨
    c.StandsIn p.source ∧ c.data.span = ⟨p.source.length, p.source.length⟩ ∧
      g.data.facets.closed = none
  /-- No node is empty but the root of an empty document and the stand-ins. -/
  empty : ∀ t ∈ p.nodes, t.data.span.start = t.data.span.stop →
    p.root = some t ∧ p.source.bytes = [] ∨ t.StandsIn p.source

theorem ranged_root {source : Source} {s s' : State} {ts : List Tree} (h : s.Spread s' ts)
    (hs' : s'.Reading source) (id : Nat) :
    (Tree.node id (rootData source) [] ts).Ranged source.length := by
  have hprevEnd : s'.cursor.prevEnd ≤ source.length := by
    rw [← hs'.length]
    exact hs'.tiled.le
  refine ⟨Nat.zero_le _, fun c hc hlt => ?_, h.order, fun c hc g hg => ?_, .nil, nofun, nofun,
    nofun⟩
  · exact ⟨Nat.zero_le _, hlt.le, ((h.ends c hc).of_lt hlt).trans hprevEnd⟩
  · have hin := h.tags c hc g hg
    exact ⟨Nat.zero_le _, hin.forward, hin.stop.trans hprevEnd⟩

/-- In every document the ranges of nodes nest and are ordered. -/
theorem document_nested (source : Source) : (document source).Nested := by
  let begun := (State.begin source 0).alloc.state
  let r := Grammar.entries (Grammar.levels Grammar.maxDepth) .top begun
  have hrun := Grammar.run_entries Grammar.maxDepth .top begun
  have hread : begun.Reading source :=
    (State.steps_reading source).alloc _ (State.reading_begin source)
  have hspread : begun.Spread r.state r.value := (hrun.spread hread.tiled).1
  have hproper : Tree.Every (Tree.Proper source) r.value := hrun.proper hread trivial
  have hnodes : (document source).nodes =
      .node (State.begin source 0).count (rootData source) [] r.value ::
        Tree.preorderAll r.value := rfl
  have hbelow : Tree.Every (Tree.Ranged source.length) r.value := hread.length ▸ hspread.each
  have hroot := ranged_root hspread ((State.steps_reading source).run hrun hread)
    (State.begin source 0).count
  refine ⟨?_, ?_, ?_⟩
  · rw [hnodes]
    exact List.forall_mem_cons.2 ⟨hroot, hbelow⟩
  · rw [hnodes]
    refine List.forall_mem_cons.2 ⟨nofun, fun t ht g hg c hc => ?_⟩
    refine ((hbelow t ht).arguments g hg c hc).imp_right fun ⟨hspan, hclosed⟩ => ?_
    have hg' := (hproper.of_attached ht (List.mem_append_left _ hg)).2
    have hc' := (hproper.of_attached hg' (List.mem_append_right _ hc)).1
    exact ⟨hc'.resolve_left (by rw [hspan]; exact Nat.lt_irrefl _), hspan, hclosed⟩
  · rw [hnodes]
    refine List.forall_mem_cons.2 ⟨fun hempty => ?_, fun t ht hempty => ?_⟩
    · exact .inl ⟨rfl, List.length_eq_zero_iff.1 hempty.symm⟩
    · exact .inr ((hproper t ht).resolve_left (Nat.not_lt.2 hempty.symm.le))

/-- In `@a(@b ` the document ends behind the tag `b` and a blank.  The stand-in for the node that
`b` waits for is an argument of `a`, but it stands behind the blank, and `a` ends with `b`. -/
theorem argument_outside_tag :
    ¬∀ t ∈ (document ⟨"d", Utf8.ofString "@a(@b "⟩).nodes, ∀ g ∈ t.tags, ∀ c ∈ g.children,
      c.data.span.LiesIn g.data.span := by
  decide +kernel

end Parse

end Metadoc
