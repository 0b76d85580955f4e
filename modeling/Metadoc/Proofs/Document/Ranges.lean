import Metadoc.Proofs.Document.Order
import Metadoc.Proofs.Forest.Arranged

/-!
# How ranges nest

The nodes of a document stand inside one another as they do in its tree, and one behind the other
as they are listed.

* `Tree.Ranged` says it of a node and those directly below it;
* `State.Spread s s' ts` says it of trees that are read one after the other between two states, and
  says where they begin and end;
* `Grammar.Run.spread` : what a part of the grammar yields stands between the states before and
  behind it.
-/

namespace Metadoc

/-! ### Nodes -/

namespace Tree

/-- Whether something holds of all nodes of some trees. -/
def Every (P : Tree → Prop) (ts : List Tree) : Prop := ∀ x ∈ preorderAll ts, P x

section Every

variable {P : Tree → Prop} {t : Tree} {ts : List Tree}

theorem every_nil : Every P [] := nofun

theorem every_cons : Every P (t :: ts) ↔ Every P [t] ∧ Every P ts := by
  simp [Every, preorderAll, or_imp, forall_and]

theorem every_singleton : Every P [t] ↔ P t ∧ Every P t.tags ∧ Every P t.children := by
  cases t
  simp [Every, preorder, preorderAll, or_imp, forall_and, tags, children]

theorem Every.of_mem (h : Every P ts) (ht : t ∈ ts) : P t :=
  h t ((attached_perm_preorderAll ts).subset (List.mem_append_left _ ht))

theorem Every.of_attached (h : Every P ts) {x : Tree} (hx : x ∈ preorderAll ts)
    (ht : t ∈ x.attached) : P t ∧ t ∈ preorderAll ts := by
  have hmem := (attached_perm_preorderAll ts).subset
    (List.mem_append_right _ (List.mem_flatMap.2 ⟨x, hx, ht⟩))
  exact ⟨h t hmem, hmem⟩

end Every

/-- Where the first token of a node begins: that of its first tag, if it has tags. -/
def firstStart (t : Tree) : Nat :=
  match t.tags with
  | [] => t.data.span.start
  | g :: _ => g.data.span.start

/-- Whether arguments of a tag lie in its range.  Where they are cut off by the end of the document,
an empty one may stand there. -/
def ArgumentsIn (length : Nat) (g : Tree) : Prop :=
  ∀ c ∈ g.children, c.data.span.LiesIn g.data.span ∨
    c.data.span = ⟨length, length⟩ ∧ g.data.facets.closed = none

/-- How the ranges of a node and of those directly below it lie in a document of `length` bytes. -/
structure Ranged (length : Nat) (t : Tree) : Prop where
  /-- The range runs forward. -/
  forward : t.data.span.start ≤ t.data.span.stop
  /-- Children lie in it, unless they are empty. -/
  children : ∀ c ∈ t.children, c.data.span.start < c.data.span.stop →
    c.data.span.LiesIn t.data.span
  /-- Each child ends before those behind it begin with their first tokens. -/
  order : t.children.Pairwise fun a b => a.data.span.stop ≤ b.firstStart
  /-- The tags of the children lie in it too. -/
  childTags : ∀ c ∈ t.children, ∀ g ∈ c.tags, g.data.span.LiesIn t.data.span
  /-- Each tag ends before those behind it begin. -/
  tags : t.tags.Pairwise fun a b => a.data.span.stop ≤ b.data.span.start
  /-- Tags are not empty, and end before the node begins. -/
  before : ∀ g ∈ t.tags, g.data.span.start < g.data.span.stop ∧
    g.data.span.stop ≤ t.data.span.start
  /-- Tags have no tags. -/
  tagless : ∀ g ∈ t.tags, g.tags = []
  /-- The arguments of tags lie in their ranges. -/
  arguments : ∀ g ∈ t.tags, g.ArgumentsIn length

variable {length : Nat} {t : Tree} {ts : List Tree}

theorem Ranged.firstStart_le (h : t.Ranged length) : t.firstStart ≤ t.data.span.start := by
  unfold firstStart
  split
  · exact Nat.le_refl _
  · rename_i g _ hg
    have hbefore := h.before g (hg ▸ List.mem_cons_self)
    exact hbefore.1.le.trans hbefore.2

theorem Ranged.congr {u : Tree} (h : t.Ranged length) (hspan : u.data.span = t.data.span)
    (htags : u.tags = t.tags) (hchildren : u.children = t.children) : u.Ranged length := by
  refine ⟨?_, ?_, ?_, ?_, ?_, ?_, ?_, ?_⟩ <;> simp only [hspan, htags, hchildren]
  exacts [h.forward, h.children, h.order, h.childTags, h.tags, h.before, h.tagless, h.arguments]

theorem firstStart_congr {u : Tree} (hspan : u.data.span = t.data.span) (htags : u.tags = t.tags) :
    u.firstStart = t.firstStart := by
  unfold firstStart
  rw [hspan, htags]

end Tree

/-! ### Between two states -/

namespace State

open Metadoc.Tree (Every Ranged)

/-- Whether a range ends with the last word behind or before, or is empty and stands where the word
ahead begins. -/
def EndsBy (s : State) (span : Span) : Prop :=
  span.stop ≤ s.cursor.prevEnd ∨ span = ⟨s.cursor.pos, s.cursor.pos⟩

variable {s s' s'' : State}

theorem EndsBy.stop_le {span : Span} (h : s.EndsBy span) (hs : s.cursor.Tiled) :
    span.stop ≤ s.cursor.pos := by
  rcases h with h | rfl
  · exact h.trans hs.prevEnd_le_pos
  · exact Nat.le_refl _

theorem EndsBy.of_lt {span : Span} (h : s.EndsBy span) (hlt : span.start < span.stop) :
    span.stop ≤ s.cursor.prevEnd := by
  rcases h with h | rfl
  · exact h
  · exact absurd hlt (Nat.lt_irrefl _)

theorem endsBy_spanFrom {start : Nat} (h : start ≤ s.cursor.prevEnd) :
    s.EndsBy (s.spanFrom start) :=
  .inl (Nat.max_le.2 ⟨Nat.le_refl _, h⟩)

/-- Where reading goes on, what has ended stays behind. -/
theorem EndsBy.onward {span : Span} (h : s.EndsBy span) (hs : s.cursor.Tiled)
    (hon : Onward s s') : s'.EndsBy span := by
  rcases hon.moved with hc | hle
  · rwa [EndsBy, hc]
  · exact .inl (((h.stop_le hs).trans hs.pos_le_stop).trans hle)

/-- Trees that have been read one after the other between two states, with how their ranges lie. -/
structure Spread (s s' : State) (ts : List Tree) : Prop where
  /-- The ranges of all their nodes lie as they should. -/
  each : Every (Ranged s.cursor.length) ts
  /-- They begin behind the first state, -/
  begins : ∀ t ∈ ts, s.cursor.pos ≤ t.firstStart
  /-- and end before the second. -/
  ends : ∀ t ∈ ts, s'.EndsBy t.data.span
  /-- So do their tags. -/
  tags : ∀ t ∈ ts, ∀ g ∈ t.tags, g.data.span.LiesIn ⟨s.cursor.pos, s'.cursor.prevEnd⟩
  /-- Each ends before those behind it begin. -/
  order : ts.Pairwise fun a b => a.data.span.stop ≤ b.firstStart

namespace Spread

variable {t : Tree} {ts : List Tree}

theorem nil (s s' : State) : Spread s s' [] := ⟨nofun, nofun, nofun, nofun, .nil⟩

theorem ranged (h : Spread s s' ts) (ht : t ∈ ts) : t.Ranged s.cursor.length :=
  h.each.of_mem ht

theorem pos_le_start (h : Spread s s' ts) (ht : t ∈ ts) : s.cursor.pos ≤ t.data.span.start :=
  (h.begins t ht).trans (h.ranged ht).firstStart_le

theorem after (h : Spread s' s'' ts) (hon : Onward s s') (hs : s.cursor.Tiled)
    (hlength : s'.cursor.length = s.cursor.length) : Spread s s'' ts := by
  have hpos := hon.pos_le hs
  refine ⟨hlength ▸ h.each, fun t ht => hpos.trans (h.begins t ht), h.ends, fun t ht g hg => ?_,
    h.order⟩
  have hin := h.tags t ht g hg
  exact ⟨hpos.trans hin.start, hin.forward, hin.stop⟩

theorem before (h : Spread s s' ts) (hs : s'.cursor.Tiled) (hon : Onward s' s'') :
    Spread s s'' ts := by
  refine ⟨h.each, h.begins, fun t ht => (h.ends t ht).onward hs hon, fun t ht g hg => ?_, h.order⟩
  have hin := h.tags t ht g hg
  exact ⟨hin.start, hin.forward, hin.stop.trans (hon.prevEnd_le hs)⟩

theorem cons (h : Spread s s' [t]) (h' : Spread s' s'' ts) (hs : s.cursor.Tiled)
    (hon : Onward s s') (hon' : Onward s' s'') (hlength : s'.cursor.length = s.cursor.length) :
    Spread s s'' (t :: ts) := by
  have hfirst := h.before hon.tiled hon'
  have hrest := h'.after hon hs hlength
  refine ⟨Tree.every_cons.2 ⟨hfirst.each, hrest.each⟩, ?_, ?_, ?_, ?_⟩
  · exact List.forall_mem_cons.2 ⟨hfirst.begins t List.mem_cons_self, hrest.begins⟩
  · exact List.forall_mem_cons.2 ⟨hfirst.ends t List.mem_cons_self, hrest.ends⟩
  · exact List.forall_mem_cons.2 ⟨hfirst.tags t List.mem_cons_self, hrest.tags⟩
  · refine List.pairwise_cons.2 ⟨fun u hu => ?_, h'.order⟩
    exact ((h.ends t List.mem_cons_self).stop_le hon.tiled).trans (h'.begins u hu)

theorem congr {u : Tree} (h : Spread s s' [t]) (hspan : u.data.span = t.data.span)
    (htags : u.tags = t.tags) (hchildren : u.children = t.children) : Spread s s' [u] := by
  obtain ⟨hroot, hbelow⟩ := Tree.every_singleton.1 h.each
  refine ⟨Tree.every_singleton.2 ⟨hroot.congr hspan htags hchildren, ?_⟩, ?_, ?_, ?_, ?_⟩
  · rwa [htags, hchildren]
  · rw [List.forall_mem_singleton, Tree.firstStart_congr hspan htags]
    exact h.begins t List.mem_cons_self
  · rw [List.forall_mem_singleton, hspan]
    exact h.ends t List.mem_cons_self
  · rw [List.forall_mem_singleton, htags]
    exact h.tags t List.mem_cons_self
  · exact List.pairwise_singleton _ _

end Spread

end State

/-! ### Parts of the grammar -/

namespace Grammar

open State (Onward Spread EndsBy)

variable {s s' : State} {start : Nat}

/-- A node that is closed has in its range what has been read for it. -/
theorem spread_close {children : List Tree} (h : Spread s s' children)
    (hstart : start = s.cursor.pos) (hends : s'.EndsBy (s'.spanFrom start)) (id : Nat)
    (kind : NodeKind) (label : Label) (facets : Facets) :
    Spread s (close id start kind label facets children s').state
      [(close id start kind label facets children s').value] := by
  subst hstart
  refine ⟨Tree.every_singleton.2 ⟨⟨Nat.le_max_right _ _, fun c hc hlt => ?_, h.order,
    fun c hc g hg => ?_, .nil, nofun, nofun, nofun⟩, Tree.every_nil, h.each⟩, ?_, ?_,
    List.forall_mem_singleton.2 nofun, List.pairwise_singleton _ _⟩
  · exact ⟨h.pos_le_start hc, hlt.le, ((h.ends c hc).of_lt hlt).trans (Nat.le_max_left _ _)⟩
  · have hin := h.tags c hc g hg
    exact ⟨hin.start, hin.forward, hin.stop.trans (Nat.le_max_left _ _)⟩
  · exact List.forall_mem_singleton.2 (Nat.le_refl _)
  · rw [List.forall_mem_singleton, EndsBy, cursor_close]
    exact hends

theorem spread_leaf (hstart : start = s.cursor.pos) (hends : s'.EndsBy (s'.spanFrom start))
    (id : Nat) (kind : NodeKind) (label : Label) (facets : Facets) :
    Spread s (close id start kind label facets [] s').state
      [(close id start kind label facets [] s').value] :=
  spread_close (.nil s s') hstart hends id kind label facets

theorem spread_unexpected (hs : s.cursor.Tiled) :
    Spread s (unexpected s).state [(unexpected s).value] := by
  have hends : s.alloc.state.advance.EndsBy (s.alloc.state.advance.spanFrom s.cursor.pos) := by
    cases hend : s.cursor.atEnd with
    | false =>
      refine State.endsBy_spanFrom ?_
      rw [State.cursor_advance, State.cursor_alloc, Cursor.prevEnd_advance hend]
      exact hs.pos_le_stop
    | true =>
      refine .inr ?_
      rw [State.advance, State.cursor_alloc, if_pos hend, State.spanFrom, State.cursor_alloc,
        Nat.max_eq_right hs.prevEnd_le_pos]
  unfold unexpected
  dsimp only
  split
  all_goals
    refine spread_leaf rfl ?_ _ _ _ _
    exact hends

theorem spread_untaggable (ts : List Tree) (hs : s.cursor.Tiled) :
    Spread s (untaggable ts s).state [(untaggable ts s).value] := by
  have hends : s.EndsBy (s.spanFrom s.cursor.pos) :=
    .inr (by rw [State.spanFrom, Nat.max_eq_right hs.prevEnd_le_pos])
  unfold untaggable
  dsimp only
  split
  all_goals
    refine spread_leaf rfl ?_ _ _ _ _
    exact hends

theorem spread_reportCramped {id : Nat} {r : Read Tree} (h : Spread s r.state [r.value]) :
    Spread s (reportCramped id r).state [(reportCramped id r).value] := by
  unfold reportCramped
  split
  · exact ⟨h.each, h.begins, h.ends, h.tags, h.order⟩
  · exact h

theorem spread_precede (sep : Option Separator) {t : Tree} (h : Spread s s' [t]) :
    Spread s s' [precede sep t] := by
  cases t
  exact h.congr rfl rfl rfl

theorem spread_follow (sep : Separator) {t : Tree} (h : Spread s s' [t]) (hs : s'.cursor.Tiled) :
    Spread s (follow sep t s').state [(follow sep t s').value] := by
  have hfollow := h.before hs (State.steps_onward.follow sep t s' hs)
  refine hfollow.congr ?_ ?_ ?_ <;> (cases t; unfold follow; dsimp only; split <;> rfl)

/-- What holds of the ranges of tags that are read between two states. -/
structure TagRanges (s : State) (g : Tree) : Prop where
  /-- They have no tags. -/
  tagless : g.tags = []
  /-- They are not empty. -/
  nonempty : g.data.span.start < g.data.span.stop
  /-- Their arguments lie in their ranges. -/
  arguments : g.ArgumentsIn s.cursor.length

/-- What holds of the ranges that a part yields, besides that they stand between two states. -/
def Part.Ranges (s : State) (r : Read SetBody) : Part → Prop
  | .tag | .tags => ∀ g ∈ r.value.children, TagRanges s g
  | .bracketed .. => ∀ c ∈ r.value.children, c.data.span.stop ≤ r.state.cursor.prevEnd ∨
      c.data.span = ⟨s.cursor.length, s.cursor.length⟩ ∧ r.value.closed = none
  | _ => True

/-- A node stands between the states before its tags and behind it. -/
theorem spread_dress {s'' : State} {ts : List Tree} {t : Tree} (pre : String)
    (htags : Spread s s' ts) (hranges : ∀ g ∈ ts, TagRanges s g) (h : Spread s' s'' [t])
    (htagless : t.tags = []) (hs : s.cursor.Tiled) (hon : Onward s s') (hon' : Onward s' s'')
    (hlength : s'.cursor.length = s.cursor.length) : Spread s s'' [dress pre ts t] := by
  have hfirst : ∀ g ∈ ts, g.firstStart = g.data.span.start := fun g hg => by
    rw [Tree.firstStart, (hranges g hg).tagless]
  have hstop : ∀ g ∈ ts, g.data.span.stop ≤ s'.cursor.prevEnd := fun g hg =>
    (htags.ends g hg).of_lt (hranges g hg).nonempty
  have hstart := h.pos_le_start List.mem_cons_self
  have hwide := h.after hon hs hlength
  obtain ⟨hroot, -, hbelow⟩ := Tree.every_singleton.1 hwide.each
  cases t with
  | node i d us cs =>
    obtain rfl : us = [] := htagless
    refine ⟨Tree.every_singleton.2 ⟨⟨hroot.forward, hroot.children, hroot.order,
      hroot.childTags, ?_, fun g hg => ⟨(hranges g hg).nonempty, ?_⟩,
      fun g hg => (hranges g hg).tagless, fun g hg => (hranges g hg).arguments⟩, htags.each,
      hbelow⟩, ?_, ?_, ?_, List.pairwise_singleton _ _⟩
    · exact htags.order.imp_of_mem fun _ hb hle => hle.trans_eq (hfirst _ hb)
    · exact ((hstop g hg).trans hon.tiled.prevEnd_le_pos).trans hstart
    · rw [List.forall_mem_singleton]
      cases ts with
      | nil => exact (hon.pos_le hs).trans hstart
      | cons g gs =>
        exact (htags.begins g List.mem_cons_self).trans_eq (hfirst g List.mem_cons_self)
    · exact List.forall_mem_singleton.2 (h.ends (.node i d [] cs) List.mem_cons_self)
    · refine List.forall_mem_singleton.2 fun g hg => ⟨?_, (hranges g hg).nonempty.le, ?_⟩
      · exact (htags.begins g hg).trans_eq (hfirst g hg)
      · exact (hstop g hg).trans (hon'.prevEnd_le hon.tiled)

theorem pos_lt_prevEnd_of_label {l : Lexeme} {part : Part} {n : Nat} {r : Read SetBody}
    (hl : s.cursor.label? = some l) (hs : s.cursor.Tiled)
    (body : Run n part (s.behindLabel l).advance r) :
    s.cursor.pos < r.state.cursor.prevEnd := by
  obtain ⟨hon, hlt⟩ := onward_of_label hl hs body
  exact hon.pos_lt_prevEnd hs hlt

theorem spread_labeledNode {l : Lexeme} {part : Part} {n : Nat} {r : Read SetBody}
    (hl : s.cursor.label? = some l) (hs : s.cursor.Tiled)
    (body : Run n part (s.behindLabel l).advance r)
    (h : (s.behindLabel l).advance.cursor.Tiled →
      Spread (s.behindLabel l).advance r.state r.value.children) :
    Spread s (labeledNode s.count l.start l.label r).state
      [(labeledNode s.count l.start l.label r).value] := by
  have hlabel := State.steps_onward.behindLabel s l hs
  have hmark := hlabel.trans (State.onward_advance hlabel.tiled)
  have hlength : (s.behindLabel l).advance.cursor.length = s.cursor.length :=
    (State.steps_reaches.trans (State.steps_reaches.behindLabel s l)
      (State.reaches_advance _)).length
  refine spread_close ((h hmark.tiled).after hmark hs hlength) (Cursor.start_of_label hl) ?_ _ _ _ _
  rw [Cursor.start_of_label hl]
  exact State.endsBy_spanFrom (pos_lt_prevEnd_of_label hl hs body).le

/-- What a part of the grammar yields stands between the states before and behind it, each node with
those below it in its range. -/
theorem Run.spread {n : Nat} {part : Part} {r : Read SetBody} (h : Run n part s r)
    (hs : s.cursor.Tiled) : Spread s r.state r.value.children ∧ part.Ranges s r := by
  induction h with
  | @namelessTag _ s hat _ =>
    have hon := State.onward_advance hs
    have hlt := hon.pos_lt_prevEnd hs (State.left_advance_lt (Cursor.atEnd_of_isAt hat))
    constructor
    · refine spread_leaf rfl ?_ _ _ _ _
      exact State.endsBy_spanFrom hlt.le
    · refine List.forall_mem_singleton.2 ⟨rfl, ?_, nofun⟩
      exact lt_max_of_lt_left hlt
  | @plainTag _ s l hat hl _ =>
    have hadvance := State.onward_advance hs
    have hon := hadvance.trans (State.steps_onward.behindLabel _ l hadvance.tiled)
    have hlt := hon.pos_lt_prevEnd hs
      ((left_behindLabel hl).trans (State.left_advance_lt (Cursor.atEnd_of_isAt hat)))
    constructor
    · refine spread_leaf rfl ?_ _ _ _ _
      exact State.endsBy_spanFrom hlt.le
    · refine List.forall_mem_singleton.2 ⟨rfl, ?_, nofun⟩
      exact lt_max_of_lt_left hlt
  | @tagWithArguments _ s l r hat hl _ args ih =>
    have hadvance := State.onward_advance hs
    have hname := hadvance.trans (State.steps_onward.behindLabel _ l hadvance.tiled)
    have hlength : (s.advance.behindLabel l).cursor.length = s.cursor.length :=
      (State.steps_reaches.trans (State.reaches_advance s)
        (State.steps_reaches.behindLabel _ l)).length
    have hlt := (hname.trans (args.onward hname.tiled)).pos_lt_prevEnd hs
      (args.progress.1.trans_lt ((left_behindLabel hl).trans
        (State.left_advance_lt (Cursor.atEnd_of_isAt hat))))
    obtain ⟨hspread, hranges⟩ := ih hname.tiled
    have hargs := hspread.after hname hs hlength
    constructor
    · exact spread_close hargs rfl (State.endsBy_spanFrom hlt.le) _ _ _ _
    · refine List.forall_mem_singleton.2 ⟨rfl, lt_max_of_lt_left hlt, fun c hc => ?_⟩
      rcases hranges c hc with hstop | ⟨hspan, hclosed⟩
      · exact .inl ⟨hargs.pos_le_start hc, (hargs.ranged hc).forward,
          hstop.trans (Nat.le_max_left _ _)⟩
      · exact .inr ⟨hlength ▸ hspan, hclosed⟩
  | tagsEnd _ => exact ⟨.nil _ _, nofun⟩
  | tagsCons _ first rest ihFirst ihRest =>
    have hon := first.onward hs
    obtain ⟨hfirst, hfirstTag⟩ := ihFirst hs
    obtain ⟨hrest, hrestTags⟩ := ihRest hon.tiled
    refine ⟨hfirst.cons hrest hs hon (rest.onward hon.tiled) first.reaches.length, ?_⟩
    refine List.forall_mem_cons.2 ⟨hfirstTag _ List.mem_cons_self, fun g hg => ?_⟩
    obtain ⟨htagless, hnonempty, harguments⟩ := hrestTags g hg
    exact ⟨htagless, hnonempty, first.reaches.length ▸ harguments⟩
  | bracketedRefused _ => exact ⟨.nil _ _, nofun⟩
  | @bracketedClosed _ _ _ s r closed _ body hc ih =>
    have hadvance := State.onward_advance hs
    have hon := body.onward hadvance.tiled
    have hbody := (ih hadvance.tiled).1
    constructor
    · refine (hbody.before hon.tiled (State.onward_advance hon.tiled)).after hadvance hs ?_
      exact (State.reaches_advance s).length
    · intro c hc'
      refine .inl (((hbody.ends c hc').stop_le hon.tiled).trans ?_)
      have hend : r.state.cursor.atEnd = false := by
        obtain ⟨b, hb, -⟩ := Option.bind_eq_some_iff.1 hc
        exact Cursor.atEnd_of_symbol hb
      rw [State.cursor_advance, Cursor.prevEnd_advance hend]
      exact hon.tiled.pos_le_stop
  | @bracketedOpen _ _ _ s r _ body hc ih =>
    have hadvance := State.onward_advance hs
    have hon := body.onward hadvance.tiled
    have hlength : r.state.cursor.length = s.cursor.length :=
      (State.steps_reaches.trans (State.reaches_advance s) body.reaches).length
    have hbody := (ih hadvance.tiled).1
    have hend : r.state.cursor.atEnd = true :=
      body.entriesEnd_state.resolve_right fun h => by simp [hc] at h
    have hopen := hbody.after hadvance hs (State.reaches_advance s).length
    refine ⟨hopen.before hon.tiled (.of_cursor_eq hon.tiled rfl), fun c hc' => ?_⟩
    refine (hbody.ends c hc').imp_right fun hspan => ⟨?_, rfl⟩
    rw [hspan, Read.many_state, Cursor.pos, Cursor.span_of_nil (by simpa [Cursor.atEnd] using hend),
      hlength]
  | lineMissing _ => exact ⟨.nil _ _, trivial⟩
  | lineRefused _ => exact ⟨.nil _ _, trivial⟩
  | lineRead _ _ ih => exact ⟨(ih hs).1, trivial⟩
  | @label _ _ _ s l hl _ =>
    have hlt := (State.steps_onward.behindLabel s l hs).pos_lt_prevEnd hs (left_behindLabel hl)
    refine ⟨spread_leaf (Cursor.start_of_label hl) ?_ _ _ _ _, trivial⟩
    rw [Cursor.start_of_label hl]
    exact State.endsBy_spanFrom hlt.le
  | labeledSet hl _ _ _ body ih =>
    exact ⟨spread_reportCramped (spread_labeledNode hl hs body fun h => (ih h).1), trivial⟩
  | labeledLine hl _ _ body ih =>
    exact ⟨spread_labeledNode hl hs body fun h => (ih h).1, trivial⟩
  | @unlabeled _ ctx ts s _ r _ _ body ih =>
    generalize hbegun : (if ctx = .line then
        s.alloc.state.report (.unlabeledSet (!ts.isEmpty)) s.cursor.span s.count
      else s.alloc.state) = begun at body ih
    have hcursor : begun.cursor = s.cursor := by rw [← hbegun]; split <;> rfl
    have hon := State.Onward.of_cursor_eq hs hcursor
    have hlt := (body.onward hon.tiled).pos_lt_prevEnd hon.tiled (body.progress.2 trivial)
    have hbody := (ih hon.tiled).1.after hon hs (by rw [hcursor])
    refine ⟨spread_close hbody rfl (State.endsBy_spanFrom ?_) _ _ _ _, trivial⟩
    exact hcursor ▸ hlt.le
  | untaggable _ _ => exact ⟨spread_untaggable _ hs, trivial⟩
  | unexpected _ _ _ => exact ⟨spread_unexpected hs, trivial⟩
  | node tags bare ihTags ihBare =>
    have hon := tags.onward hs
    obtain ⟨htags, hranges⟩ := ihTags hs
    obtain ⟨htagless, -⟩ := bare.unfollowed _ List.mem_cons_self
    exact ⟨spread_dress _ htags hranges (ihBare hon.tiled).1 htagless hs hon
      (bare.onward hon.tiled) tags.reaches.length, trivial⟩
  | entry _ ih => exact ⟨(ih hs).1, trivial⟩
  | stray _ _ => exact ⟨spread_unexpected hs, trivial⟩
  | entriesEnd _ => exact ⟨.nil _ _, trivial⟩
  | extraSeparator _ _ rest ih =>
    have hon := State.steps_onward.unexpected _ hs
    exact ⟨(spread_unexpected hs).cons (ih hon.tiled).1 hs hon (rest.onward hon.tiled)
      (unexpected_reaches _).length, trivial⟩
  | @separated _ _ pending s e sep r _ _ first _ rest ihFirst ihRest =>
    have hentry := first.onward hs
    have hon := hentry.trans (State.steps_onward.follow sep (precede pending e.value) e.state
      hentry.tiled)
    have hfirst := spread_follow sep (spread_precede pending (ihFirst hs).1) hentry.tiled
    refine ⟨hfirst.cons (ihRest hon.tiled).1 hs hon (rest.onward hon.tiled) ?_, trivial⟩
    exact (State.steps_reaches.trans first.reaches (follow_reaches ..)).length
  | @unseparated _ _ pending s e r _ _ first _ rest ihFirst ihRest =>
    have hon := first.onward hs
    exact ⟨(spread_precede pending (ihFirst hs).1).cons (ihRest hon.tiled).1 hs hon
      (rest.onward hon.tiled) first.reaches.length, trivial⟩
  | lineLast _ _ ih => exact ⟨(ih hs).1, trivial⟩
  | lineCons first _ rest ihFirst ihRest =>
    have hon := first.onward hs
    exact ⟨(ihFirst hs).1.cons (ihRest hon.tiled).1 hs hon (rest.onward hon.tiled)
      first.reaches.length, trivial⟩

end Grammar

end Metadoc
