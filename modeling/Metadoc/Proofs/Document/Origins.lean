import Metadoc.Document.Parse
import Metadoc.Proofs.Document.Ranges
import Metadoc.Proofs.Document.Sides

/-!
# Where nodes come from

The lists of a node are each read in one go, somewhere in the document: its tags as tags, and its
children as the entries of a set or of the whole document.

* `State.Underway` says of a state that it is one of reading a document;
* `NodeData.Entered` says how the children of a node were read, and `Tree.Formed` how both of its
  lists were;
* `Grammar.Run.formed` : whatever is read, the lists of its nodes are read in this way;
* `Parse.document_formed` : so are those of a whole document, and `Tree.Formed.children_induction` :
  what holds wherever entries are read holds of the children of its nodes.
-/

namespace Metadoc

/-! ### States of reading -/

/-- Whether a state is one of reading a document: it lies between two parts, and the lexemes ahead
cover the rest. -/
structure State.Underway (source : Source) (s : State) : Prop where
  /-- It lies between two parts of the document. -/
  between : s.Between source
  /-- The lexemes ahead cover the rest. -/
  tiled : s.cursor.Tiled

namespace State

variable {source : Source} {s s' : State}

theorem Underway.of_eq (h : s.Underway source) (hc : s'.cursor = s.cursor) : s'.Underway source :=
  ⟨h.between.of_eq hc, hc ▸ h.tiled⟩

theorem underway_begin (source : Source) : (begin source 0).Underway source :=
  ⟨between_begin source, Cursor.tiled_begin source 0⟩

theorem steps_underway (source : Source) :
    Steps fun s s' => s.Underway source → s'.Underway source where
  refl _ := id
  trans h h' := h' ∘ h
  advance _ h := ⟨h.between.advance, (onward_advance h.tiled).tiled⟩
  alloc _ h := h.of_eq rfl
  report _ _ _ _ h := h.of_eq rfl
  claim s h := h.of_eq (cursor_claim s)

end State

/-! ### Lists of nodes -/

open Grammar (Run)

/-- How the children of a node were read. -/
inductive NodeData.Entered (source : Source) (d : NodeData) (ts : List Tree) : Prop
  /-- As the entries of a whole document. -/
  | document {n : Nat} {s : State} {r : Read (List Tree)} (kind : d.kind = .file)
      (facet : d.facets.opened = none) (state : s.Underway source)
      (run : Run n (.entries .top none) s (Read.many r)) (all : r.value = ts)
  /-- As the entries of a set in brackets. -/
  | bracketed {n : Nat} {s : State} {opened : Delimiter} {r : Read (List Tree)}
      (kind : d.kind ≠ .file) (state : s.Underway source)
      (start : d.span.start ≤ s.cursor.pos) (bracket : s.cursor.opens? = some opened)
      (facet : d.facets.opened = some opened)
      (run : Run n (.entries .bracketed none) s.advance (Read.many r)) (all : r.value = ts)
  /-- As the entries of a set without brackets. -/
  | line {n : Nat} {s : State} {r : Read (List Tree)} (kind : d.kind ≠ .file)
      (state : s.Underway source) (facet : d.facets.opened = none)
      (run : Run n .lineEntries s (Read.many r)) (all : r.value = ts)

/-- How the lists of a node were read, unless they are empty. -/
structure Tree.Formed (source : Source) (t : Tree) : Prop where
  /-- Its tags were read as tags. -/
  tags : t.tags ≠ [] → ∃ (n : Nat) (s : State) (r : Read (List Tree)),
    s.Underway source ∧ Run n .tags s (Read.many r) ∧ r.value = t.tags
  /-- Its children were read as entries. -/
  children : t.children ≠ [] → t.data.Entered source t.children

section Formed

variable {source : Source} {d d' : NodeData} {t : Tree} {ts us : List Tree} {i : Nat}

theorem NodeData.Entered.congr (h : d.Entered source ts) (hkind : d'.kind = d.kind)
    (hspan : d'.span = d.span) (hopened : d'.facets.opened = d.facets.opened) :
    d'.Entered source ts := by
  cases h with
  | document kind facet state run all =>
    exact .document (hkind ▸ kind) (hopened ▸ facet) state run all
  | bracketed kind state start bracket facet run all =>
    exact .bracketed (hkind ▸ kind) state (hspan ▸ start) bracket (hopened ▸ facet) run all
  | line kind state facet run all => exact .line (hkind ▸ kind) state (hopened ▸ facet) run all

theorem Tree.Formed.congr (h : (Tree.node i d ts us).Formed source) (hkind : d'.kind = d.kind)
    (hspan : d'.span = d.span) (hopened : d'.facets.opened = d.facets.opened) :
    (Tree.node i d' ts us).Formed source :=
  ⟨h.tags, fun hne => (h.children hne).congr hkind hspan hopened⟩

/-- What holds wherever entries are read holds of the children of a node. -/
theorem Tree.Formed.children_induction {P : List Tree → Prop} (h : t.Formed source) (nil : P [])
    (entries : ∀ {n ctx s r}, s.Underway source → Run n (.entries ctx none) s (Read.many r) →
      P r.value)
    (line : ∀ {n s r}, s.Underway source → Run n .lineEntries s (Read.many r) → P r.value) :
    P t.children := by
  by_cases hne : t.children = []
  · rw [hne]
    exact nil
  · cases h.children hne with
    | document _ _ hs hrun hall => exact hall ▸ entries hs hrun
    | bracketed _ hs _ _ _ hrun hall =>
      exact hall ▸ entries ((State.steps_underway source).advance _ hs) hrun
    | line _ hs _ hrun hall => exact hall ▸ line hs hrun

end Formed

/-! ### Parts of the grammar -/

namespace Grammar

open Metadoc.Tree (Every Formed)

variable {source : Source} {n : Nat} {s s' : State}

/-- The children of a node that is closed behind a set in brackets are those of the set. -/
theorem Run.entered_bracketed {id : Nat} {opened : Delimiter} {r : Read SetBody} {d : NodeData}
    (h : Run n (.bracketed id opened) s r) (hs : s.Underway source)
    (hstart : d.span.start ≤ s.cursor.pos) (hkind : d.kind ≠ .file)
    (hopened : d.facets.opened = r.value.opened) (hne : r.value.children ≠ []) :
    d.Entered source r.value.children := by
  cases h with
  | bracketedRefused _ => exact absurd rfl hne
  | bracketedClosed ho body _ | bracketedOpen ho body _ =>
    exact .bracketed hkind hs hstart ho hopened body rfl

theorem Run.entered_line {id : Nat} {label : Span} {r : Read SetBody} {d : NodeData}
    (h : Run n (.line id label) s r) (hs : s.Underway source) (hkind : d.kind ≠ .file)
    (hopened : d.facets.opened = r.value.opened) (hne : r.value.children ≠ []) :
    d.Entered source r.value.children := by
  cases h with
  | lineMissing _ | lineRefused _ => exact absurd rfl hne
  | lineRead _ body => exact .line hkind hs hopened body rfl

theorem SetBody.kind_ne_file (b : SetBody) : b.kind ≠ .file := by
  unfold Metadoc.SetBody.kind
  split <;> nofun

theorem formed_close {children : List Tree} {id start : Nat} {kind : NodeKind} {label : Label}
    {facets : Facets} (hbelow : Every (Formed source) children)
    (h : children ≠ [] →
      (close id start kind label facets children s).value.data.Entered source children) :
    Every (Formed source) [(close id start kind label facets children s).value] :=
  Tree.every_singleton.2 ⟨⟨absurd rfl, h⟩, Tree.every_nil, hbelow⟩

theorem formed_leaf (id start : Nat) (kind : NodeKind) (label : Label) (facets : Facets)
    (s : State) : Every (Formed source) [(close id start kind label facets [] s).value] :=
  formed_close Tree.every_nil (absurd rfl)

theorem formed_unexpected (s : State) : Every (Formed source) [(unexpected s).value] := by
  unfold unexpected
  dsimp only
  split <;> exact formed_leaf _ _ _ _ _ _

theorem formed_untaggable (ts : List Tree) (s : State) :
    Every (Formed source) [(untaggable ts s).value] := formed_leaf _ _ _ _ _ _

theorem formed_dress {ts : Read (List Tree)} {t : Tree} (hs : s.Underway source)
    (tags : Run n .tags s ts.many) (hts : Every (Formed source) ts.value)
    (ht : Every (Formed source) [t]) (pre : String) :
    Every (Formed source) [dress pre ts.value t] := by
  obtain ⟨hroot, -, hbelow⟩ := Tree.every_singleton.1 ht
  cases t
  exact Tree.every_singleton.2
    ⟨⟨fun _ => ⟨n, s, ts, hs, tags, rfl⟩, fun hne => (hroot.children hne).congr rfl rfl rfl⟩,
      hts, hbelow⟩

theorem formed_precede (sep : Option Separator) {t : Tree} (h : Every (Formed source) [t]) :
    Every (Formed source) [precede sep t] := by
  obtain ⟨hroot, hbelow⟩ := Tree.every_singleton.1 h
  cases t
  exact Tree.every_singleton.2 ⟨hroot.congr rfl rfl rfl, hbelow⟩

theorem formed_follow (sep : Separator) {t : Tree} (s : State) (h : Every (Formed source) [t]) :
    Every (Formed source) [(follow sep t s).value] := by
  obtain ⟨hroot, hbelow⟩ := Tree.every_singleton.1 h
  cases t
  unfold follow
  dsimp only
  split <;> exact Tree.every_singleton.2 ⟨hroot.congr rfl rfl rfl, hbelow⟩

/-- Whatever is read, the lists of its nodes are read as tags and as entries. -/
theorem Run.formed {part : Part} {r : Read SetBody} (h : Run n part s r)
    (hs : s.Underway source) : Every (Formed source) r.value.children := by
  have hunderway := State.steps_underway source
  -- Only where a node is closed behind a set, or gets its tags, are there lists to speak of.
  induction h with
  | namelessTag _ _ | plainTag _ _ _ | label _ _ => exact formed_leaf _ _ _ _ _ _
  | @tagWithArguments _ s l r hat hl _ args ih =>
    have hname := hunderway.behindLabel _ l (hunderway.advance s hs)
    have hon := (State.onward_advance hs.tiled).trans
      (State.steps_onward.behindLabel _ l (State.onward_advance hs.tiled).tiled)
    refine formed_close (ih hname) fun hne => ?_
    exact args.entered_bracketed hname (hon.pos_le hs.tiled) nofun rfl hne
  | tagsEnd _ | bracketedRefused _ | lineMissing _ | lineRefused _ | entriesEnd _ =>
    exact Tree.every_nil
  | tagsCons _ first rest ihFirst ihRest =>
    exact Tree.every_cons.2 ⟨ihFirst hs, ihRest (hunderway.run first hs)⟩
  | bracketedClosed _ _ _ ih | bracketedOpen _ _ _ ih => exact ih (hunderway.advance _ hs)
  | lineRead _ _ ih => exact ih hs
  | @labeledSet _ _ _ s l _ r hl _ _ _ body ih =>
    have hset := hunderway.advance _ (hunderway.behindLabel s l hs)
    have hlabel := State.steps_onward.behindLabel s l hs.tiled
    have hmark := hlabel.trans (State.onward_advance hlabel.tiled)
    simp only [Read.one_value, reportCramped_value]
    refine formed_close (ih hset) fun hne => ?_
    refine body.entered_bracketed hset ?_ (SetBody.kind_ne_file _) rfl hne
    exact (Cursor.start_of_label hl).trans_le (hmark.pos_le hs.tiled)
  | @labeledLine _ _ _ s l r hl _ _ body ih =>
    have hset := hunderway.advance _ (hunderway.behindLabel s l hs)
    refine formed_close (ih hset) fun hne => ?_
    refine body.entered_line hset (SetBody.kind_ne_file _) ?_ hne
    rfl
  | @unlabeled _ ctx ts s _ r _ _ body ih =>
    generalize hbegun : (if ctx = .line then
        s.alloc.state.report (.unlabeledSet (!ts.isEmpty)) s.cursor.span s.count
      else s.alloc.state) = begun at body ih
    have hcursor : begun.cursor = s.cursor := by rw [← hbegun]; split <;> rfl
    have hset := hs.of_eq hcursor
    refine formed_close (ih hset) fun hne => ?_
    refine body.entered_bracketed hset ?_ (SetBody.kind_ne_file _) rfl hne
    exact Nat.le_of_eq (congrArg Cursor.pos hcursor.symm)
  | untaggable _ _ => exact formed_untaggable _ _
  | unexpected _ _ _ | stray _ _ => exact formed_unexpected _
  | node tags bare ihTags ihBare =>
    exact formed_dress hs tags (ihTags hs) (ihBare (hunderway.run tags hs)) _
  | entry _ ih => exact ih hs
  | extraSeparator _ _ _ ih =>
    exact Tree.every_cons.2 ⟨formed_unexpected _, ih (hunderway.unexpected _ hs)⟩
  | @separated _ _ pending s e sep r _ _ first _ rest ihFirst ihRest =>
    have hbehind := hunderway.follow sep (precede pending e.value) _ (hunderway.run first hs)
    exact Tree.every_cons.2
      ⟨formed_follow sep _ (formed_precede pending (ihFirst hs)), ihRest hbehind⟩
  | @unseparated _ _ pending s e r _ _ first _ rest ihFirst ihRest =>
    have hbehind := hunderway.run first hs
    exact Tree.every_cons.2 ⟨formed_precede pending (ihFirst hs), ihRest hbehind⟩
  | lineLast _ _ ih => exact ih hs
  | lineCons first _ rest ihFirst ihRest =>
    exact Tree.every_cons.2 ⟨ihFirst hs, ihRest (hunderway.run first hs)⟩

end Grammar

/-! ### Documents -/

namespace Parse

/-- In every document, the lists of the nodes are read as tags and as entries. -/
theorem document_formed (source : Source) :
    ∀ t ∈ (document source).nodes, t.Formed source := by
  have hrun := Grammar.run_entries Grammar.maxDepth .top (State.begin source 0).alloc.state
  have hbegin : (State.begin source 0).alloc.state.Underway source :=
    (State.underway_begin source).of_eq rfl
  rw [document_of_run hrun]
  exact List.forall_mem_cons.2 ⟨⟨absurd rfl, fun _ => .document rfl rfl hbegin hrun rfl⟩,
    hrun.formed hbegin⟩

end Parse

end Metadoc
