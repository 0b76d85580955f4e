import Metadoc.Proofs.Document.Arena
import Metadoc.Proofs.Document.Order
import Metadoc.Proofs.Document.Places

/-!
# Where reports are anchored

Whatever is reported is about a node that has been made, and stands where that node does, although
the range of the node is settled only when it has been read to its end.

* `Tree.sites` lists the nodes of a tree with their ranges;
* `Report.Fits` says where a report has to stand, given the range of its node;
* `State.Anchors s s' sites` says that the reports made between two states fit to nodes of `sites`
  or to stray nodes;
* `Grammar.Run.anchors` : so do those made while a part of the grammar is read, where a set is read
  for a node that is not finished yet;
* `Parse.diagnostics_anchored` : every diagnostic of what is read is anchored in the forest of its
  nodes.
-/

namespace Metadoc

/-! ### Nodes and their ranges -/

namespace Tree

/-- The numbers of the nodes of a tree with the ranges where they stand. -/
def sites (t : Tree) : List (Nat × Span) := t.preorder.map fun x => (x.id, x.data.span)

/-- The numbers of the nodes of several trees with the ranges where they stand. -/
def sitesAll (ts : List Tree) : List (Nat × Span) :=
  (preorderAll ts).map fun x => (x.id, x.data.span)

theorem sites_node (i : Nat) (d : NodeData) (ts cs : List Tree) :
    sites (node i d ts cs) = (i, d.span) :: (sitesAll ts ++ sitesAll cs) := by
  simp [sites, sitesAll, preorder, id, data]

@[simp] theorem sitesAll_nil : sitesAll [] = [] := rfl

@[simp] theorem sitesAll_cons (t : Tree) (ts : List Tree) :
    sitesAll (t :: ts) = t.sites ++ sitesAll ts := by
  simp [sitesAll, preorderAll, sites]

end Tree

/-! ### Reports -/

/-- Whether a problem is reported in the range of the node that it is about. -/
def Problem.isInside : Problem → Bool
  | .unexpectedEnd | .crampedSet | .missingTagged => false
  | _ => true

/-- Whether a report stands where it has to, given the range of the node that it is about.  That the
document ends where something has to come is never reported, and fits nowhere. -/
def Report.Fits (r : Report) (span : Span) : Prop :=
  match r.problem with
  | .unexpectedEnd => False
  | .crampedSet => span.start ≤ span.stop ∧ r.span.start = span.stop
  | .missingTagged => span = ⟨r.span.start, r.span.start⟩
  | _ => r.span.LiesIn span

/-- Whether a report fits to a node of a list. -/
def Report.AnchoredIn (r : Report) (sites : List (Nat × Span)) : Prop :=
  ∃ span, (r.node, span) ∈ sites ∧ r.Fits span

theorem Report.AnchoredIn.mono {r : Report} {sites sites' : List (Nat × Span)}
    (h : r.AnchoredIn sites) (hsub : sites ⊆ sites') : r.AnchoredIn sites' := by
  obtain ⟨span, hmem, hfits⟩ := h
  exact ⟨span, hsub hmem, hfits⟩

theorem Report.fits_of_isInside {r : Report} {span : Span} (hp : r.problem.isInside = true)
    (h : r.span.LiesIn span) : r.Fits span := by
  unfold Fits
  split
  · rename_i hp'
    rw [hp'] at hp
    cases hp
  · rename_i hp'
    rw [hp'] at hp
    cases hp
  · rename_i hp'
    rw [hp'] at hp
    cases hp
  · exact h

namespace Lexeme

variable {l : Lexeme}

theorem faultSpan_liesIn (l : Lexeme) (e : LexError) : (l.faultSpan e).LiesIn l.span :=
  ⟨Nat.le_refl _, Nat.le_add_right _ _, Nat.add_le_add_left (Nat.min_le_right _ _) _⟩

theorem invalidSpan_liesIn {span : Span} (h : l.invalidSpan? = some span) :
    span.LiesIn l.span := by
  obtain ⟨⟨p, n⟩, hfirst, rfl⟩ := Option.map_eq_some_iff.1 h
  have hle : p + n ≤ l.length := Utf8.firstInvalid?_le hfirst
  refine ⟨Nat.le_add_right _ _, Nat.le_add_right _ _, ?_⟩
  have hstop : l.span.stop = l.start + l.length := rfl
  dsimp only
  omega

end Lexeme

/-! ### States -/

namespace State

/-- The numbers of the stray nodes with the ranges where they stand. -/
def straySites (s : State) : List (Nat × Span) := s.strays.map fun x => (x.1, x.2.span)

/-- The reports made between two states fit to nodes of `sites` or to stray nodes. -/
structure Anchors (s s' : State) (sites : List (Nat × Span)) : Prop where
  /-- Stray nodes stay. -/
  strays : s.straySites ⊆ s'.straySites
  /-- A report was made before, or it fits to a node. -/
  reports : ∀ x ∈ s'.reports,
    x ∈ s.reports ∨ x.AnchoredIn sites ∨ x.AnchoredIn s'.straySites

namespace Anchors

variable {s s' s'' : State} {sites sites' : List (Nat × Span)}

theorem of_eq (hr : s'.reports = s.reports) (hs : s'.strays = s.strays) : Anchors s s' [] :=
  ⟨by rw [straySites, straySites, hs]; exact List.Subset.refl _, fun _ hx => .inl (hr ▸ hx)⟩

theorem refl (s : State) : Anchors s s [] := of_eq rfl rfl

theorem mono (h : Anchors s s' sites) (hsub : sites ⊆ sites') : Anchors s s' sites' :=
  ⟨h.strays, fun x hx => (h.reports x hx).imp_right (.imp_left (·.mono hsub))⟩

theorem trans (h : Anchors s s' sites) (h' : Anchors s' s'' sites) : Anchors s s'' sites := by
  refine ⟨List.Subset.trans h.strays h'.strays, fun x hx => ?_⟩
  rcases h'.reports x hx with hx | hnew
  · exact (h.reports x hx).imp_right (.imp_right (·.mono h'.strays))
  · exact .inr hnew

theorem after (h' : Anchors s' s'' sites) (h : Anchors s s' []) : Anchors s s'' sites :=
  (h.mono (List.nil_subset _)).trans h'

theorem before (h : Anchors s s' sites) (h' : Anchors s' s'' []) : Anchors s s'' sites :=
  h.trans (h'.mono (List.nil_subset _))

end Anchors

variable {s : State}

theorem anchors_report {problem : Problem} {span nodeSpan : Span} {node : Nat}
    (h : (⟨problem, span, node⟩ : Report).Fits nodeSpan) :
    Anchors s (s.report problem span node) [(node, nodeSpan)] := by
  refine ⟨List.Subset.refl _, fun x hx => ?_⟩
  rcases List.mem_append.1 hx with hx | hx
  · exact .inl hx
  · obtain rfl := List.mem_singleton.1 hx
    exact .inr (.inl ⟨nodeSpan, List.mem_cons_self, h⟩)

theorem anchors_report_inside (s : State) (problem : Problem) {span nodeSpan : Span} (node : Nat)
    (h : span.LiesIn nodeSpan) (hp : problem.isInside = true) :
    Anchors s (s.report problem span node) [(node, nodeSpan)] :=
  anchors_report (Report.fits_of_isInside hp h)

/-- The fault of a piece of trivia is reported against a stray node of its own. -/
theorem anchors_reportTrivium (s : State) (l : Lexeme) : Anchors s (s.reportTrivium l) [] := by
  unfold reportTrivium
  split
  · exact .refl s
  · rename_i e he
    rw [reportFault, he]
    refine ⟨?_, fun x hx => ?_⟩
    · simp only [straySites, report, List.map_append]
      exact List.subset_append_left _ _
    · rcases List.mem_append.1 hx with hx | hx
      · exact .inl hx
      · obtain rfl := List.mem_singleton.1 hx
        refine .inr (.inr ⟨l.span, ?_, Report.fits_of_isInside rfl (l.faultSpan_liesIn e)⟩)
        simp [straySites, report, strayData]

theorem anchors_reportGap (s : State) : Anchors s s.reportGap [] := by
  suffices h : ∀ (ls : List Lexeme) (s : State), Anchors s (ls.foldl reportTrivium s) [] from h _ s
  intro ls
  induction ls with
  | nil => exact Anchors.refl
  | cons l ls ih => exact fun s => (anchors_reportTrivium s l).trans (ih _)

theorem anchors_advance (s : State) : Anchors s s.advance [] := by
  unfold advance
  split
  · exact .refl s
  · exact Anchors.after (anchors_reportGap _) (.of_eq rfl rfl)

theorem anchors_claim (s : State) : Anchors s s.claim.state [] := by
  unfold claim
  split
  · split <;> exact .of_eq rfl rfl
  · exact .refl s

/-- What is wrong inside a label is reported against the node that the label stands in. -/
theorem anchors_behindLabel (s : State) {l : Lexeme} {span : Span} (h : l.span.LiesIn span) :
    Anchors s (s.behindLabel l) [(s.count, span)] := by
  have hfault : Anchors s (s.alloc.state.advance.reportFault l s.count) [(s.count, span)] := by
    have hadvance : Anchors s s.alloc.state.advance [] := (anchors_advance _).after (.of_eq rfl rfl)
    unfold reportFault
    split
    · exact hadvance.mono (List.nil_subset _)
    · rename_i e _
      have hinside := (l.faultSpan_liesIn e).trans h
      exact (anchors_report_inside _ (.lexical e) _ hinside rfl).after hadvance
  unfold behindLabel takeLabel reportLabel
  dsimp only
  split
  · exact hfault
  · rename_i invalid hinvalid
    have hinside := (Lexeme.invalidSpan_liesIn hinvalid).trans h
    exact hfault.trans (anchors_report_inside _ (.lexical .invalidByte) _ hinside rfl)

end State

/-! ### Reading -/

namespace Grammar

open State (Anchors Onward)
open Metadoc.Tree (sitesAll)

variable {s : State} {start : Nat}

theorem sites_close (id start : Nat) (kind : NodeKind) (label : Label) (facets : Facets)
    (children : List Tree) (s : State) :
    (close id start kind label facets children s).value.sites =
      (id, s.spanFrom start) :: sitesAll children :=
  Tree.sites_node ..

/-- What is reported about a node before it is closed fits to the range that it is given then. -/
theorem anchors_close {s' : State} {id : Nat} {children : List Tree}
    (h : Anchors s s' ((id, s'.spanFrom start) :: sitesAll children)) (kind : NodeKind)
    (label : Label) (facets : Facets) :
    Anchors s (close id start kind label facets children s').state
      (close id start kind label facets children s').value.sites := by
  rw [sites_close]
  exact h.before (State.anchors_claim _)

theorem anchors_one {r : Read Tree} (h : Anchors s r.state r.value.sites) :
    Anchors s r.one.state (sitesAll r.one.value.children) := by
  simpa using h

theorem anchors_cons {s' s'' : State} {t : Tree} {ts : List Tree}
    (hfirst : Anchors s s' (sitesAll [t])) (hrest : Anchors s' s'' (sitesAll ts)) :
    Anchors s s'' (sitesAll (t :: ts)) := by
  rw [Tree.sitesAll_cons, Tree.sitesAll_nil, List.append_nil] at hfirst
  rw [Tree.sitesAll_cons]
  exact (hfirst.mono (List.subset_append_left _ _)).trans
    (hrest.mono (List.subset_append_right _ _))

theorem anchors_unexpected (hs : s.cursor.Tiled) (hend : s.cursor.atEnd = false) :
    Anchors s (unexpected s).state (unexpected s).value.sites := by
  have hspan := (State.onward_advance (s := s.alloc.state) hs).liesIn_spanFrom hs
    (State.left_advance_lt hend) (Nat.le_refl _)
  have hadvance : Anchors s s.alloc.state.advance [] :=
    (State.anchors_advance _).after (.of_eq rfl rfl)
  obtain ⟨l, hl⟩ := Cursor.exists_lexeme hend
  have hreport := State.anchors_report_inside s.alloc.state.advance (.unexpected l.text) s.count
    hspan rfl
  simp only [unexpected, hl]
  exact anchors_close (hreport.after hadvance) _ _ _

theorem anchors_untaggable (ts : List Tree) (hs : s.cursor.Tiled) :
    Anchors s (untaggable ts s).state (untaggable ts s).value.sites := by
  have hspan : s.spanFrom s.cursor.pos = ⟨s.cursor.pos, s.cursor.pos⟩ := by
    rw [State.spanFrom, Nat.max_eq_right hs.prevEnd_le_pos]
  have halloc : Anchors s s.alloc.state [] := .of_eq rfl rfl
  have hfits : (⟨.missingTagged, s.cursor.span, s.count⟩ : Report).Fits
    (s.spanFrom s.cursor.pos) := hspan
  unfold untaggable
  dsimp only
  split
  · exact anchors_close ((State.anchors_report hfits).after halloc) _ _ _
  · exact anchors_close (halloc.mono (List.nil_subset _)) _ _ _

theorem anchors_reportCramped {id : Nat} {label : Label} {set : Read SetBody}
    (hset : set.state.cursor.Tiled) (hstart : start ≤ set.state.cursor.prevEnd)
    (h : Anchors s set.state ((id, set.state.spanFrom start) :: sitesAll set.value.children)) :
    let r := reportCramped id (labeledNode id start label set)
    Anchors s r.state r.value.sites := by
  have hclosed := anchors_close h set.value.kind label
    { opened := set.value.opened, closed := set.value.closed, literal := some label.literal }
  change Anchors s (labeledNode id start label set).state
    (labeledNode id start label set).value.sites at hclosed
  unfold reportCramped
  dsimp only
  split
  · rename_i hcramped
    rw [cursor_labeledNode] at hcramped ⊢
    have hfits : (⟨.crampedSet, set.state.cursor.span, id⟩ : Report).Fits
        (set.state.spanFrom start) := by
      rw [State.spanFrom, Nat.max_eq_left hstart]
      exact ⟨hstart, hset.pos_eq_of_adjacent hcramped.1⟩
    refine hclosed.trans ((State.anchors_report hfits).mono ?_)
    rw [labeledNode, sites_close]
    exact List.cons_subset.2 ⟨List.mem_cons_self, List.nil_subset _⟩
  · exact hclosed

theorem anchors_skip (bracketed : Bool) (n depth : Nat) (s : State) :
    Anchors s (skip bracketed n depth s) [] :=
  skip_of_advance (R := fun s s' => Anchors s s' []) .refl .trans State.anchors_advance
    bracketed n depth s

theorem sites_precede (sep : Option Separator) (t : Tree) : (precede sep t).sites = t.sites := by
  cases t
  simp [precede, Tree.sites_node]

theorem sites_follow (sep : Separator) (t : Tree) (s : State) :
    (follow sep t s).value.sites = t.sites := by
  cases t
  unfold follow
  dsimp only
  split <;> simp [Tree.withData, Tree.sites_node, Tree.id, Tree.tags, Tree.children, Tree.data]

theorem anchors_follow (sep : Separator) (t : Tree) (s : State) :
    Anchors s (follow sep t s).state [] := by
  unfold follow
  dsimp only
  split
  · exact (State.anchors_advance s).trans (State.anchors_claim _)
  · exact State.anchors_advance s

theorem sites_dress (pre : String) (ts : List Tree) {t : Tree} (h : t.tags = []) :
    sitesAll ts ++ t.sites ⊆ (dress pre ts t).sites := by
  cases t
  cases h
  simp only [dress, Tree.sites_node, Tree.sitesAll_nil, List.nil_append]
  exact List.perm_middle.subset

/-- Where the node begins at the latest that a part is read for. -/
def Part.lead (s : State) : Part → Nat
  | .line _ label => label.start
  | _ => s.cursor.pos

/-- Whether the label of the node that a part is read for is behind. -/
def Part.LabelBehind (s : State) : Part → Prop
  | .line _ label => label.start ≤ label.stop ∧ label.stop ≤ s.cursor.prevEnd
  | _ => True

/-- The nodes of a part with the ranges where they stand, that for which a set is read included: it
begins at `start`, and if it were finished here, it would end here. -/
def Part.sites (start : Nat) (r : Read SetBody) : Part → List (Nat × Span)
  | .bracketed id _ | .line id _ => (id, r.state.spanFrom start) :: sitesAll r.value.children
  | _ => sitesAll r.value.children

/-- What is reported while a label and a set behind it are read fits to the node that both are read
for. -/
theorem anchors_label {l : Lexeme} {s' : State} {sites : List (Nat × Span)}
    (hl : s.cursor.label? = some l) (hs : s.cursor.Tiled) (hon : Onward s s')
    (hlt : s'.left < s.left) (hstart : start ≤ s.cursor.pos)
    (h : Anchors (s.behindLabel l) s' ((s.count, s'.spanFrom start) :: sites)) :
    Anchors s s' ((s.count, s'.spanFrom start) :: sites) := by
  have hspan := hon.liesIn_spanFrom hs hlt hstart
  rw [Cursor.span_of_label hl] at hspan
  refine Anchors.trans ((State.anchors_behindLabel s hspan).mono ?_) h
  exact List.cons_subset.2 ⟨List.mem_cons_self, List.nil_subset _⟩

/-- What is reported while a part of the grammar is read fits to the nodes that are made, or to the
one that a set is read for. -/
theorem Run.anchors {n : Nat} {part : Part} {r : Read SetBody} (h : Run n part s r)
    (hs : s.cursor.Tiled) (hbegun : part.Begun s) (hpart : part.LabelBehind s) :
    ∀ {start : Nat}, start ≤ part.lead s → Anchors s r.state (part.sites start r) := by
  induction h with
  | @namelessTag _ s hat _ =>
    intro _ _
    have hend := Cursor.atEnd_of_isAt hat
    have hspan := (State.onward_advance hs).liesIn_spanFrom hs (State.left_advance_lt hend)
      (Nat.le_refl _)
    have hadvance : Anchors s s.advance.alloc.state [] :=
      (State.anchors_advance s).before (.of_eq rfl rfl)
    have hreport := State.anchors_report_inside s.advance.alloc.state .missingTagName
      s.advance.count hspan rfl
    exact anchors_one (anchors_close (hreport.after hadvance) _ _ _)
  | @plainTag _ s l hat hl _ =>
    intro _ _
    have hadvance := State.onward_advance hs
    refine anchors_one (anchors_close (Anchors.after ?_ (State.anchors_advance s)) _ _ _)
    exact anchors_label hl hadvance.tiled (State.steps_onward.behindLabel _ l hadvance.tiled)
      (left_behindLabel hl) (hadvance.pos_le hs) (Anchors.mono (.refl _) (List.nil_subset _))
  | @tagWithArguments _ s l r hat hl _ args ih =>
    intro _ _
    have hadvance := State.onward_advance hs
    have hlabel := State.steps_onward.behindLabel _ l hadvance.tiled
    have hargs := ih hlabel.tiled trivial trivial
      ((hadvance.pos_le hs).trans (hlabel.pos_le hadvance.tiled))
    refine anchors_one (anchors_close (Anchors.after ?_ (State.anchors_advance s)) _ _ _)
    exact anchors_label hl hadvance.tiled (hlabel.trans (args.onward hlabel.tiled))
      (args.progress.1.trans_lt (left_behindLabel hl)) (hadvance.pos_le hs) hargs
  | tagsEnd _ => exact fun _ => .refl _
  | tagsCons _ first _ ihFirst ihRest =>
    intro _ _
    exact anchors_cons (ihFirst hs trivial trivial (Nat.le_refl _))
      (ihRest (first.onward hs).tiled trivial trivial (Nat.le_refl _))
  | @bracketedRefused id opened s ho =>
    intro start hstart
    have hend := Cursor.atEnd_of_opens ho
    have hskip : Onward s
        (skip true s.advance.left 1 (s.advance.report .tooDeep s.cursor.span id)) :=
      (Run.bracketedRefused ho).onward hs
    have hspan := hskip.liesIn_spanFrom hs ((Run.bracketedRefused ho).progress.2 trivial) hstart
    have hreport := State.anchors_report_inside s.advance .tooDeep id hspan rfl
    exact (hreport.after (State.anchors_advance s)).before (anchors_skip ..)
  | @bracketedClosed _ _ _ s r _ ho body hc ih =>
    intro start _
    have hbody := ih (State.onward_advance hs).tiled trivial trivial (Nat.le_refl _)
    refine Anchors.mono ?_ (List.subset_cons_self _ _)
    exact (hbody.after (State.anchors_advance s)).before (State.anchors_advance _)
  | @bracketedOpen _ id _ s r ho body hc ih =>
    intro start hstart
    have hrun : Run _ (.bracketed id _) s _ := .bracketedOpen ho body hc
    have hbody := (ih (State.onward_advance hs).tiled trivial trivial (Nat.le_refl _)).after
      (State.anchors_advance s)
    have hspan := (hrun.onward hs).liesIn_spanFrom hs (hrun.progress.2 trivial) hstart
    refine (hbody.mono (List.subset_cons_self _ _)).trans ?_
    exact (State.anchors_report_inside _ .unterminatedSet _ hspan rfl).mono
      (List.cons_subset.2 ⟨List.mem_cons_self, List.nil_subset _⟩)
  | @lineMissing _ id label s _ =>
    intro start hstart
    have hspan : label.LiesIn (s.spanFrom start) :=
      ⟨hstart, hpart.1, hpart.2.trans (Nat.le_max_left _ _)⟩
    exact State.anchors_report_inside s .emptyLabel id hspan rfl
  | @lineRefused id label s hm =>
    intro start hstart
    have hrun : Run 0 (.line id label) s _ := .lineRefused hm
    have hle := (hrun.onward hs).prevEnd_le hs
    have hspan : label.LiesIn ((skip false s.left 0 (s.report .tooDeep label id)).spanFrom start) :=
      ⟨hstart, hpart.1, (hpart.2.trans hle).trans (Nat.le_max_left _ _)⟩
    exact (State.anchors_report_inside s .tooDeep id hspan rfl).before (anchors_skip ..)
  | lineRead _ _ ih =>
    intro _ _
    exact (ih hs trivial trivial (Nat.le_refl _)).mono (List.subset_cons_self _ _)
  | @label _ _ _ s l hl _ =>
    intro _ _
    refine anchors_one (anchors_close ?_ _ _ _)
    exact anchors_label hl hs (State.steps_onward.behindLabel s l hs) (left_behindLabel hl)
      (Cursor.start_of_label hl).le (Anchors.mono (.refl _) (List.nil_subset _))
  | @labeledSet _ _ _ s l opened r hl _ _ _ body ih =>
    intro _ _
    have hstart := Cursor.start_of_label hl
    have hbehind := State.steps_onward.behindLabel s l hs
    have hmark := State.onward_advance hbehind.tiled
    obtain ⟨hon, hlt⟩ := onward_of_label hl hs body
    have hbody := ih hmark.tiled trivial trivial
      (hstart.trans_le ((hbehind.trans hmark).pos_le hs))
    refine anchors_one (anchors_reportCramped hon.tiled ?_ ?_)
    · exact hstart.trans_le (hs.pos_le_stop.trans (hon.stop_le hlt))
    · exact anchors_label hl hs hon hlt hstart.le (hbody.after (State.anchors_advance _))
  | @labeledLine _ _ _ s l r hl _ _ body ih =>
    intro _ _
    have hstart := Cursor.start_of_label hl
    have hbehind := State.steps_onward.behindLabel s l hs
    have hmark := State.onward_advance hbehind.tiled
    obtain ⟨hon, hlt⟩ := onward_of_label hl hs body
    have hlabel : l.start ≤ l.stop ∧ l.stop ≤ (s.behindLabel l).advance.cursor.prevEnd := by
      have hstop := (hbehind.stop_le (left_behindLabel hl)).trans (hmark.prevEnd_le hbehind.tiled)
      rw [Cursor.span_of_label hl] at hstop
      exact ⟨Nat.le_add_right _ _, hstop⟩
    have hbody := ih hmark.tiled trivial hlabel (Nat.le_refl l.start)
    refine anchors_one (anchors_close ?_ _ _ _)
    exact anchors_label hl hs hon hlt hstart.le (hbody.after (State.anchors_advance _))
  | @unlabeled _ ctx ts s _ r _ _ body ih =>
    intro _ _
    generalize hs' : (if ctx = .line then
        s.alloc.state.report (.unlabeledSet (!ts.isEmpty)) s.cursor.span s.count
      else s.alloc.state) = begun at body ih
    have hcursor : begun.cursor = s.cursor := by rw [← hs']; split <;> rfl
    have htiled : begun.cursor.Tiled := hcursor ▸ hs
    have hstart : s.cursor.pos ≤ begun.cursor.pos := hcursor ▸ Nat.le_refl _
    have hspan := (body.onward htiled).liesIn_spanFrom htiled (body.progress.2 trivial) hstart
    rw [hcursor] at hspan
    have hreport : Anchors s begun [(s.count, r.state.spanFrom s.cursor.pos)] := by
      rw [← hs']
      split
      · have hset := State.anchors_report_inside s.alloc.state (.unlabeledSet (!ts.isEmpty)) s.count
          hspan rfl
        exact hset.after (.of_eq rfl rfl)
      · exact Anchors.mono (.of_eq rfl rfl) (List.nil_subset _)
    have hset := ih htiled trivial trivial hstart
    refine anchors_one (anchors_close (Anchors.trans (hreport.mono ?_) hset) _ _ _)
    exact List.cons_subset.2 ⟨List.mem_cons_self, List.nil_subset _⟩
  | untaggable _ _ => exact fun _ => anchors_one (anchors_untaggable _ hs)
  | unexpected _ _ he =>
    exact fun _ => anchors_one (anchors_unexpected hs (Cursor.atEnd_of_atLineEnd he))
  | @node _ _ s ts t tags bare ihTags ihBare =>
    intro _ _
    obtain ⟨htagless, -⟩ := bare.unfollowed t.value List.mem_cons_self
    have htags := ihTags hs trivial trivial (Nat.le_refl _)
    have hbare := ihBare (tags.onward hs).tiled trivial trivial (Nat.le_refl _)
    have hsub := sites_dress s.cursor.trivia.leadingText ts.value htagless
    refine anchors_one (Anchors.trans (htags.mono ?_) (hbare.mono ?_))
    · exact List.Subset.trans (List.subset_append_left _ _) hsub
    · simp only [Part.sites, Read.one_value, Tree.sitesAll_cons, Tree.sitesAll_nil,
        List.append_nil]
      exact List.Subset.trans (List.subset_append_right _ _) hsub
  | entry _ ih => exact fun _ => ih hs trivial trivial (Nat.le_refl _)
  | stray _ _ => exact fun _ => anchors_one (anchors_unexpected hs hbegun)
  | entriesEnd _ => exact fun _ => .refl _
  | @extraSeparator _ _ _ s r he _ _ ih =>
    intro _ _
    exact anchors_cons (anchors_one (anchors_unexpected hs (State.atEnd_of_not_entriesEnd he)))
      (ih (State.steps_onward.unexpected s hs).tiled trivial trivial (Nat.le_refl _))
  | @separated _ _ pending s e sep r he _ first _ _ ihFirst ihRest =>
    intro _ _
    have hfollow := State.steps_onward.follow sep (precede pending e.value) e.state
      (first.onward hs).tiled
    have hfirst := (ihFirst hs (State.atEnd_of_not_entriesEnd he) trivial (Nat.le_refl _)).before
      (anchors_follow sep (precede pending e.value) e.state)
    refine anchors_cons ?_ (ihRest hfollow.tiled trivial trivial (Nat.le_refl _))
    simpa [Part.sites, sites_follow, sites_precede] using hfirst
  | @unseparated _ _ pending s e r he _ first _ _ ihFirst ihRest =>
    intro _ _
    have hentry := ihFirst hs (State.atEnd_of_not_entriesEnd he) trivial (Nat.le_refl _)
    refine anchors_cons ?_ (ihRest (first.onward hs).tiled trivial trivial (Nat.le_refl _))
    simpa [Part.sites, sites_precede] using hentry
  | lineLast _ _ ih => exact fun _ => ih hs trivial trivial (Nat.le_refl _)
  | lineCons first _ _ ihFirst ihRest =>
    intro _ _
    exact anchors_cons (ihFirst hs trivial trivial (Nat.le_refl _))
      (ihRest (first.onward hs).tiled trivial trivial (Nat.le_refl _))

end Grammar

/-! ### Diagnostics -/

namespace Problem

/-- The problems whose wording depends on nothing else. -/
def fixed : List Problem :=
  [.lexical .unterminatedString, .lexical .unterminatedComment, .lexical .invalidByte,
    .lexical .controlCharacter, .unexpectedEnd, .unlabeledSet false, .unlabeledSet true,
    .missingTagName, .missingTagged, .emptyLabel, .crampedSet, .tooDeep, .unterminatedSet]

theorem eq_of_message {p q : Problem} (hq : q ∈ fixed) (h : p.message = q.message) : p = q := by
  have hinj : ∀ p ∈ fixed, ∀ q ∈ fixed, p.message = q.message → p = q := by decide
  -- The other two begin in a way of their own.
  have hbegin : ∀ q ∈ fixed, q.message.toList.take 12 ≠ "unexpected `".toList ∧
      q.message.toList.take 13 ≠ "cannot read `".toList := by decide
  have htake {n : Nat} (word rest : String) (hword : word.toList.length = n) :
      (word ++ rest).toList.take n = word.toList := by
    rw [String.toList_append, List.take_left' hword]
  cases p with
  | unexpected text =>
    have hmessage : (unexpected text).message = "unexpected `" ++ text ++ "`" := rfl
    refine absurd ?_ (hbegin q hq).1
    rw [← h, hmessage, String.append_assoc]
    exact htake _ _ rfl
  | unreadable path reason =>
    have hmessage : (unreadable path reason).message =
        "cannot read `" ++ path ++ "`: " ++ reason.message := rfl
    refine absurd ?_ (hbegin q hq).2
    rw [← h, hmessage, String.append_assoc, String.append_assoc]
    exact htake _ _ rfl
  | lexical e => cases e <;> exact hinj _ (by decide) q hq h
  | unlabeledSet tagged => cases tagged <;> exact hinj _ (by decide) q hq h
  | _ => exact hinj _ (by decide) q hq h

end Problem

namespace Parse

/-- Whether every report of a parse fits to the node that it is about. -/
def ReportsFit (p : Parse) : Prop :=
  ∀ r ∈ p.reports, ∃ data, p.forest.data? r.node = some data ∧ r.Fits data.span

/-- What has been read when a state is reached fits, if each number is that of one node and the
reports fit to the nodes that were made. -/
theorem reportsFit_ofState {source : Source} {root : Option Tree} {s : State} {ts : List Tree}
    (hroot : (root.map Tree.preorder).getD [] = ts)
    (hperm : (ts.map Tree.id ++ s.strays.map Prod.fst).Perm (List.range s.count))
    (hreports : ∀ x ∈ s.reports,
      x.AnchoredIn (ts.map fun t => (t.id, t.data.span)) ∨ x.AnchoredIn s.straySites) :
    (ofState source root s).ReportsFit := by
  have hnodup : (ts.map Tree.id ++ s.strays.map Prod.fst).Nodup :=
    hperm.nodup_iff.2 List.nodup_range
  have hdata : ∀ i ∈ ts.map Tree.id ++ s.strays.map Prod.fst,
      (ofState source root s).forest.data? i = some (Tree.dataAt ts s.strays i) := by
    intro i hi
    have hlt : i < s.count := List.mem_range.1 (hperm.subset hi)
    exact (Forest.data?_ofTree ..).trans ((if_pos hlt).trans (by rw [← hroot]; rfl))
  intro r hr
  rcases hreports r hr with ⟨span, hmem, hfits⟩ | ⟨span, hmem, hfits⟩
  · obtain ⟨t, ht, heq⟩ := List.mem_map.1 hmem
    obtain ⟨hid, rfl⟩ := Prod.mk.inj heq
    have hnode := hdata t.id (List.mem_append_left _ (List.mem_map_of_mem ht))
    rw [Tree.dataAt_of_mem_nodes _ hnodup.of_append_left ht, hid] at hnode
    exact ⟨_, hnode, hfits⟩
  · obtain ⟨x, hx, heq⟩ := List.mem_map.1 hmem
    obtain ⟨hid, rfl⟩ := Prod.mk.inj heq
    have hnode := hdata x.1 (List.mem_append_right _ (List.mem_map_of_mem hx))
    rw [Tree.dataAt_of_mem hnodup hx, hid] at hnode
    exact ⟨_, hnode, hfits⟩

theorem anchors_begin (source : Source) (pos : Nat) :
    State.Anchors { cursor := Cursor.ofLexemes source.length pos (Lexeme.all source pos) }
      (State.begin source pos) [] :=
  State.anchors_reportGap _

theorem reportsFit_document (source : Source) : (document source).ReportsFit := by
  have hrun := Grammar.run_entries Grammar.maxDepth .top (State.begin source 0).alloc.state
  have hanchors := (hrun.anchors (Cursor.tiled_begin source 0) trivial trivial
    (Nat.le_refl _)).after ((anchors_begin source 0).before (.of_eq rfl rfl))
  refine reportsFit_ofState rfl (document_ids_perm source) fun x hx => ?_
  rcases hanchors.reports x hx with hx | hx
  · cases hx
  · exact hx.imp_left fun h => h.mono (List.subset_cons_self _ _)

/-- The numbers of the nodes that are made for a single node, stray ones included, are those below
their count. -/
theorem oneNode_ids_perm (text : Bytes) (pos : Nat) :
    ((oneNode text pos).nodes.map Tree.id ++ (oneNode text pos).strays.map Prod.fst).Perm
      (List.range (oneNode text pos).count) := by
  let source : Source := ⟨anonymous, text⟩
  cases hend : (State.begin source pos).cursor.atEnd with
  | true =>
    rw [oneNode_of_atEnd hend]
    exact (numbers_begin source pos).perm_range rfl rfl
  | false =>
    have hrun := Grammar.run_entry (Grammar.soundBelow Grammar.maxDepth) .top
      (State.begin source pos)
    have hperm := (hrun.numbers.after (numbers_begin source pos)).perm_range rfl rfl
    rw [Read.one_value, Tree.idsAll_cons, Tree.idsAll_nil, List.append_nil] at hperm
    rw [oneNode_of_not_atEnd hend]
    exact hperm

theorem reportsFit_oneNode (text : Bytes) (pos : Nat) : (oneNode text pos).ReportsFit := by
  let source : Source := ⟨anonymous, text⟩
  have hbegin := anchors_begin source pos
  have hperm := oneNode_ids_perm text pos
  cases hend : (State.begin source pos).cursor.atEnd with
  | true =>
    rw [oneNode_of_atEnd hend] at hperm ⊢
    refine reportsFit_ofState rfl hperm fun x hx => ?_
    rcases hbegin.reports x hx with hx | hx
    · cases hx
    · exact hx
  | false =>
    rw [oneNode_of_not_atEnd hend] at hperm ⊢
    have hrun := Grammar.run_entry (Grammar.soundBelow Grammar.maxDepth) .top
      (State.begin source pos)
    have hanchors := (hrun.anchors (Cursor.tiled_begin source pos) hend trivial
      (Nat.le_refl _)).after hbegin
    refine reportsFit_ofState rfl hperm fun x hx => ?_
    rcases hanchors.reports x hx with hx | hx
    · cases hx
    · simpa [Grammar.Part.sites, Tree.sites] using hx

/-- Whether a diagnostic is anchored at the node `i` of a parse, which says `data`. -/
structure AnchoredAt (p : Parse) (d : Diagnostic) (i : Nat) (data : NodeData) : Prop where
  /-- It is an error. -/
  severity : d.severity = .error
  /-- It names the node. -/
  node : d.node = some i
  /-- The node is one of those that were made. -/
  made : p.forest.data? i = some data
  /-- It does not begin before the node. -/
  start : data.span.start ≤ d.span.start
  /-- It does not begin behind the node. -/
  stop : d.span.start ≤ data.span.stop
  /-- What touches a closing bracket begins where the node of the bracket ends. -/
  cramped : d.message = Problem.crampedSet.message → d.span.start = data.span.stop
  /-- The stand-in for a node behind tags is empty and stands where what is reported begins. -/
  untagged : d.message = Problem.missingTagged.message → data.span = ⟨d.span.start, d.span.start⟩
  /-- Anything else lies in the range of the node. -/
  inside : d.message ≠ Problem.crampedSet.message → d.message ≠ Problem.missingTagged.message →
    d.span.LiesIn data.span

theorem anchoredAt_of_fits {p : Parse} {r : Report} {data : NodeData}
    (hdata : p.forest.data? r.node = some data) (hfits : r.Fits data.span) :
    p.AnchoredAt r.diagnostic r.node data := by
  have hcramped : r.diagnostic.message = Problem.crampedSet.message → r.problem = .crampedSet :=
    Problem.eq_of_message (by decide)
  have huntagged : r.diagnostic.message = Problem.missingTagged.message →
      r.problem = .missingTagged := Problem.eq_of_message (by decide)
  have hspan : r.diagnostic.span = r.span := rfl
  unfold Report.Fits at hfits
  split at hfits
  · cases hfits
  · rename_i hp
    refine ⟨rfl, rfl, hdata, ?_, Nat.le_of_eq hfits.2, fun _ => hfits.2, fun h => ?_, fun h => ?_⟩
    · exact hfits.1.trans_eq hfits.2.symm
    · exact absurd (hp.symm.trans (huntagged h)) (by decide)
    · exact absurd (by rw [Report.diagnostic, hp]) h
  · rename_i hp
    refine ⟨rfl, rfl, hdata, ?_, ?_, fun h => ?_, fun _ => hfits, fun _ h => ?_⟩
    · rw [hfits, hspan]
    · rw [hfits, hspan]
    · exact absurd (hp.symm.trans (hcramped h)) (by decide)
    · exact absurd (by rw [Report.diagnostic, hp]) h
  · rename_i hc hm
    exact ⟨rfl, rfl, hdata, hfits.start, hfits.forward.trans hfits.stop,
      fun h => absurd (hcramped h) hc, fun h => absurd (huntagged h) hm, fun _ _ => hfits⟩

/-- Whether every diagnostic of a parse is anchored at a node. -/
def Anchored (p : Parse) : Prop := ∀ d ∈ p.diagnostics, ∃ i data, p.AnchoredAt d i data

theorem ReportsFit.anchored {p : Parse} (h : p.ReportsFit) : p.Anchored := by
  intro d hd
  obtain ⟨r, hr, rfl⟩ := List.mem_map.1 hd
  obtain ⟨data, hdata, hfits⟩ := h r hr
  exact ⟨_, _, anchoredAt_of_fits hdata hfits⟩

/-- Every diagnostic of a document, or of the first node from a position on, is an error that is
anchored at a node that has been made: it stands in the range that this node has in the end, except
that what touches a closing bracket stands directly behind, and that tags without a node are
reported at an empty stand-in. -/
theorem diagnostics_anchored (path : String) (text : Bytes) (pos : Nat) :
    (document ⟨path, text⟩).Anchored ∧ (oneNode text pos).Anchored :=
  ⟨(reportsFit_document _).anchored, (reportsFit_oneNode text pos).anchored⟩

end Parse

end Metadoc
