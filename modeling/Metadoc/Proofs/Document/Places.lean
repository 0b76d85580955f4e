import Metadoc.Proofs.Document.Numbering
import Metadoc.Proofs.Forest.Linked
import Metadoc.Proofs.Text.Boundaries
import Metadoc.Proofs.Token.Invalid

/-!
# Places in a document

Whatever is read of a document and whatever is reported about it stands somewhere in the document,
and begins where no character goes on.

* `Source.Sits` says what a range of a document has to be, and `Source.Sits.locate` that it then has
  a line and a column;
* `Lexeme.Stands` and `NodeData.Stands` say it of lexemes and nodes, each with a text of its own;
* `State.Placed` says it of everything that a state knows;
* `Grammar.Run.placed` : reading a part of the grammar keeps to this;
* `Parse.InPlace` says it of a parse, and `Parse.inPlace` that it holds of whatever is read.
-/

namespace Metadoc

/-! ### Ranges -/

theorem Bytes.le_of_isBoundary {shown : Bytes} {pos : Nat} (h : shown.isBoundary pos = true) :
    pos ≤ shown.length := by
  unfold Bytes.isBoundary at h
  split at h
  · exact of_decide_eq_true h
  · rename_i b rest hdrop
    have hne : shown.drop pos ≠ [] := hdrop ▸ List.cons_ne_nil b rest
    rw [Ne, List.drop_eq_nil_iff] at hne
    omega

theorem Bytes.isBoundary_length (shown : Bytes) : shown.isBoundary shown.length = true := by
  simp [Bytes.isBoundary]

namespace Source

variable {source : Source} {span : Span}

theorem length_shown (source : Source) : source.shown.length = source.length :=
  Utf8.length_shown source.bytes

/-- Whether a range of a document runs forward, ends inside, and begins where no character goes
on. -/
structure Sits (source : Source) (span : Span) : Prop where
  /-- It does not end before it begins. -/
  forward : span.start ≤ span.stop
  /-- It does not end behind the document. -/
  inside : span.stop ≤ source.length
  /-- No character goes on where it begins. -/
  boundary : source.shown.isBoundary span.start = true

/-- What begins where no character goes on has a line and a column. -/
theorem Sits.locate (h : source.Sits span) : (source.locate? span.start).isSome = true := by
  have hmin : min span.start source.length = span.start :=
    Nat.min_eq_left (h.forward.trans h.inside)
  rw [locate?, hmin, if_pos h.boundary]
  rfl

theorem sits_zero (source : Source) : source.Sits ⟨0, 0⟩ := by
  refine ⟨Nat.le_refl 0, Nat.zero_le _, ?_⟩
  have haligned := Token.alignedAt_zero source.bytes
  exact haligned.isBoundary (Nat.zero_le _)

theorem sits_whole (source : Source) : source.Sits ⟨0, source.length⟩ :=
  ⟨Nat.zero_le _, Nat.le_refl _, source.sits_zero.boundary⟩

/-- The empty range at the end. -/
theorem sits_end (source : Source) : source.Sits ⟨source.length, source.length⟩ := by
  refine ⟨Nat.le_refl _, Nat.le_refl _, ?_⟩
  rw [← length_shown]
  exact Bytes.isBoundary_length _

end Source

/-! ### Lexemes -/

namespace Utf8

/-- Where the first invalid sequence is found, there is one. -/
theorem invalidAt_of_firstInvalidFrom {ps : List Piece} {p n : Nat} :
    ∀ {pos : Nat}, firstInvalidFrom pos ps = some (p, n) →
      ∃ before m cut after, ps = before ++ .invalid m cut :: after ∧
        pos + (before.map Piece.length).sum = p := by
  induction ps with
  | nil => intro pos h; cases h
  | cons q ps ih =>
    intro pos h
    cases q with
    | char c =>
      obtain ⟨before, m, cut, after, rfl, hp⟩ := ih h
      refine ⟨.char c :: before, m, cut, after, rfl, ?_⟩
      rw [List.map_cons, List.sum_cons, ← hp]
      exact (Nat.add_assoc ..).symm
    | invalid m cut =>
      cases h
      exact ⟨[], m, cut, ps, rfl, rfl⟩

theorem length_pos_of_mem_piecesFrom {bytes : Bytes} {p : Piece} :
    ∀ {k : Nat}, p ∈ piecesFrom k bytes → 0 < p.length := by
  induction bytes with
  | nil => intro k h; cases k <;> cases h
  | cons b rest ih =>
    intro k h
    cases k with
    | succ k => exact ih h
    | zero =>
      rcases List.mem_cons.1 h with rfl | h
      · exact piece_length_pos b rest
      · exact ih h

/-- An invalid sequence is shown as question marks. -/
theorem InvalidAt.exists_drop_shown {bytes : Bytes} {pos n : Nat} (h : InvalidAt bytes pos n) :
    ∃ rest, (shown bytes).drop pos = 0x3F :: rest := by
  obtain ⟨before, cut, after, hpieces, rfl⟩ := h
  have hpos : 0 < n := by
    refine @length_pos_of_mem_piecesFrom bytes (.invalid n cut) 0 ?_
    rw [← pieces, hpieces]
    exact List.mem_append_right _ List.mem_cons_self
  obtain ⟨m, rfl⟩ := Nat.exists_eq_add_of_le' hpos
  have hlength : (before.flatMap Piece.shown).length = (before.map Piece.length).sum := by
    rw [List.length_flatMap]
    simp only [length_shown_piece]
  rw [shown, hpieces, List.flatMap_append, ← hlength, List.drop_left, List.flatMap_cons]
  exact ⟨_, rfl⟩

end Utf8

/-- Whether a lexeme stands in its place in a document, with the text shown for its bytes. -/
structure Lexeme.Stands (source : Source) (l : Lexeme) : Prop where
  /-- What is shown in its place is what is shown for its bytes. -/
  token : l.toToken.Stands source.bytes
  /-- Its text is what is shown for its bytes. -/
  text : l.text = Utf8.lossy (Utf8.shown l.bytes)

namespace Lexeme.Stands

variable {source : Source} {l : Lexeme} (h : l.Stands source)
include h

theorem sits : source.Sits l.span := by
  refine ⟨Nat.le_add_right _ _, ?_, h.token.start⟩
  rw [← Source.length_shown]
  exact Bytes.le_of_isBoundary h.token.stop

theorem sits_faultSpan (e : LexError) : source.Sits (l.faultSpan e) := by
  have hinside : l.start + l.length ≤ source.length := h.sits.inside
  refine ⟨Nat.le_add_right _ _, ?_, h.token.start⟩
  simp only [faultSpan]
  omega

theorem sits_invalidSpan {span : Span} (hspan : l.invalidSpan? = some span) :
    source.Sits span := by
  obtain ⟨⟨p, n⟩, hfirst, rfl⟩ := Option.map_eq_some_iff.1 hspan
  have hle : p + n ≤ l.length := Utf8.firstInvalid?_le hfirst
  have hinside : l.start + l.length ≤ source.length := h.sits.inside
  refine ⟨Nat.le_add_right _ _, by dsimp only; omega, ?_⟩
  obtain ⟨before, m, cut, after, hpieces, hp⟩ := Utf8.invalidAt_of_firstInvalidFrom hfirst
  rw [Nat.zero_add] at hp
  have hat : Utf8.InvalidAt l.bytes p m := ⟨before, cut, after, hpieces, hp⟩
  obtain ⟨rest, hrest⟩ := hat.exists_drop_shown
  obtain ⟨more, hmore⟩ := h.token.shown
  have hshort : p ≤ (Utf8.shown l.bytes).length := by
    rw [Utf8.length_shown]
    exact Nat.le_trans (Nat.le_add_right p n) hle
  have hdrop : source.shown.drop (l.start + p) = 0x3F :: (rest ++ more) := by
    rw [Source.shown, ← List.drop_drop, ← hmore, List.drop_append_of_le_length hshort, hrest]
    rfl
  dsimp only
  rw [Bytes.isBoundary, hdrop]
  rfl

end Lexeme.Stands

/-- Lexemes that are read from where no character goes on stand in their places. -/
theorem Lexeme.stands_of_mem_all {source : Source} {pos : Nat}
    (hpos : source.shown.isBoundary pos = true ∨ source.length ≤ pos) {l : Lexeme}
    (h : l ∈ all source pos) : l.Stands source := by
  have haligned : Token.AlignedAt source.bytes (min pos source.length) := by
    refine Utf8.drop_shown_of_isBoundary ?_
    rcases hpos with hb | hle
    · have hle := Bytes.le_of_isBoundary hb
      rw [source.length_shown] at hle
      rwa [Nat.min_eq_left hle]
    · rw [Nat.min_eq_right hle]
      exact source.sits_end.boundary
  rw [all_eq_map_alone_of_alignedAt haligned] at h
  obtain ⟨t, ht, rfl⟩ := List.mem_map.1 h
  exact ⟨Token.stands_of_mem_all haligned ht, rfl⟩

/-! ### Nodes -/

/-- Whether a node stands in a document, with the text shown for its bytes. -/
structure NodeData.Stands (source : Source) (d : NodeData) : Prop where
  /-- Its range is one of the document. -/
  span : source.Sits d.span
  /-- Its label as shown is what is shown for the bytes of its label. -/
  raw : d.raw = Utf8.lossy (Utf8.shown d.bytes)

/-- Whether the text of a label is what is shown for its bytes. -/
def Label.Stands (label : Label) : Prop := label.raw = Utf8.lossy (Utf8.shown label.bytes)

theorem Lexeme.Stands.label {source : Source} {l : Lexeme} (h : l.Stands source) :
    l.label.Stands := by
  unfold Lexeme.label
  split <;> exact h.text

namespace Tree

variable {source : Source} {t : Tree} {ts : List Tree}

/-- Whether every node of a tree stands in a document. -/
def Stands (source : Source) (t : Tree) : Prop := ∀ x ∈ t.preorder, x.data.Stands source

/-- Whether every node of several trees stands in a document. -/
def AllStand (source : Source) (ts : List Tree) : Prop :=
  ∀ x ∈ preorderAll ts, x.data.Stands source

theorem allStand_nil : AllStand source [] := nofun

@[simp] theorem allStand_cons :
    AllStand source (t :: ts) ↔ t.Stands source ∧ AllStand source ts := by
  simp [AllStand, Stands, preorderAll, or_imp, forall_and]

theorem allStand_singleton : AllStand source [t] ↔ t.Stands source := by
  rw [allStand_cons]
  exact and_iff_left allStand_nil

theorem stands_iff :
    t.Stands source ↔
      t.data.Stands source ∧ AllStand source t.tags ∧ AllStand source t.children := by
  cases t
  simp [AllStand, Stands, preorder, or_imp, forall_and, tags, children, data]

end Tree

/-! ### States -/

/-- Whether all that a cursor knows of a document stands there. -/
structure Cursor.Placed (source : Source) (c : Cursor) : Prop where
  /-- The words ahead stand in the document. -/
  ahead : ∀ w ∈ c.ahead, ∀ l ∈ w.lexemes, l.Stands source
  /-- So does the trivia behind the last of them. -/
  tail : ∀ l ∈ c.tail, l.Stands source
  /-- The end is that of the document. -/
  length : c.length = source.length
  /-- The last word behind ends inside. -/
  prevEnd : c.prevEnd ≤ source.length

namespace Cursor.Placed

variable {source : Source} {c : Cursor} (h : c.Placed source)
include h

theorem gap : ∀ l ∈ c.gap, l.Stands source := by
  intro l hl
  unfold Cursor.gap at hl
  split at hl
  · exact h.tail l hl
  · rename_i w ws hw
    exact h.ahead w (hw ▸ List.mem_cons_self) l (List.mem_append_left _ hl)

theorem lexeme {l : Lexeme} (hl : c.lexeme? = some l) : l.Stands source := by
  obtain ⟨w, rest, hw, rfl⟩ := Cursor.exists_ahead_of_lexeme hl
  exact h.ahead w (hw ▸ List.mem_cons_self) _ (List.mem_append_right _ List.mem_cons_self)

theorem label {l : Lexeme} (hl : c.label? = some l) : l.Stands source :=
  h.lexeme (Option.filter_eq_some_iff.1 hl).1

theorem span : source.Sits c.span := by
  unfold Cursor.span
  split
  · rw [h.length]
    exact source.sits_end
  · rename_i w ws hw
    exact (h.ahead w (hw ▸ List.mem_cons_self) _
      (List.mem_append_right _ List.mem_cons_self)).sits

theorem advance : c.advance.Placed source := by
  unfold Cursor.advance
  split
  · exact h
  · rename_i w ws hw
    have hword := h.ahead w (hw ▸ List.mem_cons_self) _
      (List.mem_append_right _ List.mem_cons_self)
    exact ⟨fun v hv => h.ahead v (hw ▸ List.mem_cons_of_mem w hv), h.tail, h.length,
      hword.sits.inside⟩

end Cursor.Placed

/-- Whether all that a state knows of a document stands there. -/
structure State.Placed (source : Source) (s : State) : Prop where
  /-- The cursor stands in the document. -/
  cursor : s.cursor.Placed source
  /-- So do the nodes for faults in trivia. -/
  strays : ∀ x ∈ s.strays, x.2.Stands source
  /-- So does what is reported. -/
  reports : ∀ r ∈ s.reports, source.Sits r.span

namespace State

variable {source : Source} {s : State}

theorem Placed.alloc (h : s.Placed source) : s.alloc.state.Placed source :=
  ⟨h.cursor, h.strays, h.reports⟩

theorem Placed.report (h : s.Placed source) {span : Span} (hspan : source.Sits span)
    (problem : Problem) (node : Nat) : (s.report problem span node).Placed source := by
  refine ⟨h.cursor, h.strays, fun r hr => ?_⟩
  rcases List.mem_append.1 hr with hr | hr
  · exact h.reports r hr
  · obtain rfl := List.mem_singleton.1 hr
    exact hspan

theorem Placed.reportFault (h : s.Placed source) {l : Lexeme} (hl : l.Stands source) (node : Nat) :
    (s.reportFault l node).Placed source := by
  unfold State.reportFault
  split
  · exact h
  · exact h.report (hl.sits_faultSpan _) _ _

/-- The node for a faulty piece of trivia stands where that piece does. -/
theorem stands_strayData {l : Lexeme} (h : l.Stands source) : (strayData l).Stands source :=
  ⟨h.sits, h.text⟩

theorem Placed.reportTrivium (h : s.Placed source) {l : Lexeme} (hl : l.Stands source) :
    (s.reportTrivium l).Placed source := by
  unfold State.reportTrivium
  split
  · exact h
  · have hput : Placed source
        { s.alloc.state with strays := s.strays ++ [(s.count, strayData l)] } := by
      refine ⟨h.cursor, fun x hx => ?_, h.reports⟩
      rcases List.mem_append.1 hx with hx | hx
      · exact h.strays x hx
      · obtain rfl := List.mem_singleton.1 hx
        exact stands_strayData hl
    exact hput.reportFault hl _

theorem Placed.foldl_reportTrivium {ls : List Lexeme} (hls : ∀ l ∈ ls, l.Stands source) :
    ∀ {s : State}, s.Placed source → (ls.foldl State.reportTrivium s).Placed source := by
  induction ls with
  | nil => exact id
  | cons l ls ih =>
    intro s h
    exact ih (fun m hm => hls m (List.mem_cons_of_mem l hm))
      (h.reportTrivium (hls l List.mem_cons_self))

theorem Placed.reportGap (h : s.Placed source) : s.reportGap.Placed source :=
  Placed.foldl_reportTrivium h.cursor.gap h

theorem Placed.advance (h : s.Placed source) : s.advance.Placed source := by
  unfold State.advance
  split
  · exact h
  · exact Placed.reportGap ⟨h.cursor.advance, h.strays, h.reports⟩

theorem Placed.claim (h : s.Placed source) : s.claim.state.Placed source := by
  unfold State.claim
  split
  · split
    · exact h
    · exact ⟨h.cursor, h.strays, h.reports⟩
  · exact h

theorem Placed.behindLabel (h : s.Placed source) {l : Lexeme} (hl : l.Stands source) :
    (s.behindLabel l).Placed source := by
  have hfault := h.alloc.advance.reportFault hl s.count
  unfold State.behindLabel State.takeLabel State.reportLabel
  dsimp only
  split
  · exact hfault
  · rename_i span hspan
    exact hfault.report (hl.sits_invalidSpan hspan) _ _

/-- The range of a node that ends with the last word. -/
theorem Placed.sits_spanFrom (h : s.Placed source) {start : Nat}
    (hstart : source.shown.isBoundary start = true) : source.Sits (s.spanFrom start) := by
  have hle := Bytes.le_of_isBoundary hstart
  rw [source.length_shown] at hle
  exact ⟨Nat.le_max_right _ _, Nat.max_le.2 ⟨h.cursor.prevEnd, hle⟩, hstart⟩

end State

/-! ### Reading -/

namespace Grammar

variable {source : Source} {s : State}

/-- Whether what is read, and the state behind it, stand in a document. -/
structure Placed (source : Source) (r : Read SetBody) : Prop where
  /-- All that the state knows stands there. -/
  state : r.state.Placed source
  /-- So do the nodes. -/
  children : Tree.AllStand source r.value.children

/-- The same for a single node. -/
structure PlacedNode (source : Source) (r : Read Tree) : Prop where
  /-- All that the state knows stands there. -/
  state : r.state.Placed source
  /-- So does the node with all below it. -/
  node : r.value.Stands source

theorem PlacedNode.one {r : Read Tree} (h : PlacedNode source r) : Placed source r.one :=
  ⟨h.state, Tree.allStand_singleton.2 h.node⟩

theorem Placed.node {r : Read Tree} (h : Placed source r.one) : PlacedNode source r :=
  ⟨h.state, Tree.allStand_singleton.1 h.children⟩

theorem stands_noLabel : noLabel.Stands := by rfl

theorem stands_tagMark : (plainLabel "@" [tagMark]).Stands := by rfl

theorem placed_close (h : s.Placed source) {start : Nat}
    (hstart : source.shown.isBoundary start = true) {label : Label} (hlabel : label.Stands)
    {children : List Tree} (hchildren : Tree.AllStand source children) (id : Nat) (kind : NodeKind)
    (facets : Facets) : PlacedNode source (close id start kind label facets children s) :=
  ⟨h.claim, Tree.stands_iff.2 ⟨⟨h.sits_spanFrom hstart, hlabel⟩, Tree.allStand_nil, hchildren⟩⟩

theorem placed_unexpected (h : s.Placed source) : PlacedNode source (unexpected s) := by
  have hspan := h.cursor.span
  unfold unexpected
  dsimp only
  split
  · rename_i l hl
    have hlabel : (plainLabel l.text l.bytes).Stands := (h.cursor.lexeme hl).text
    exact placed_close (h.alloc.advance.report hspan _ _) hspan.boundary hlabel Tree.allStand_nil
      _ _ _
  · exact placed_close (h.alloc.advance.report hspan _ _) hspan.boundary stands_noLabel
      Tree.allStand_nil _ _ _

theorem placed_untaggable (ts : List Tree) (h : s.Placed source) :
    PlacedNode source (untaggable ts s) := by
  have hspan := h.cursor.span
  unfold untaggable
  dsimp only
  split
  · exact placed_close (h.alloc.report hspan _ _) hspan.boundary stands_noLabel Tree.allStand_nil
      _ _ _
  · exact placed_close h.alloc hspan.boundary stands_noLabel Tree.allStand_nil _ _ _

theorem placed_reportCramped (id : Nat) {r : Read Tree} (h : PlacedNode source r) :
    PlacedNode source (reportCramped id r) := by
  unfold reportCramped
  split
  · exact ⟨h.state.report h.state.cursor.span _ _, h.node⟩
  · exact h

theorem placed_skip (bracketed : Bool) (n depth : Nat) (h : s.Placed source) :
    (skip bracketed n depth s).Placed source :=
  skip_of_advance (R := fun s s' => s.Placed source → s'.Placed source) (fun _ => id)
    (fun h h' => h' ∘ h) (fun _ => State.Placed.advance) bracketed n depth s h

theorem stands_precede {t : Tree} (sep : Option Separator) (h : t.Stands source) :
    (precede sep t).Stands source := by
  cases t
  obtain ⟨hdata, htags, hchildren⟩ := Tree.stands_iff.1 h
  exact Tree.stands_iff.2 ⟨⟨hdata.span, hdata.raw⟩, htags, hchildren⟩

theorem placed_follow (sep : Separator) {t : Tree} (ht : t.Stands source) (h : s.Placed source) :
    PlacedNode source (follow sep t s) := by
  obtain ⟨hdata, htags, hchildren⟩ := Tree.stands_iff.1 ht
  unfold follow
  dsimp only
  split
  · exact ⟨h.advance.claim, Tree.stands_iff.2 ⟨⟨hdata.span, hdata.raw⟩, htags, hchildren⟩⟩
  · exact ⟨h.advance, Tree.stands_iff.2 ⟨⟨hdata.span, hdata.raw⟩, htags, hchildren⟩⟩

theorem stands_dress {t : Tree} {ts : List Tree} (pre : String) (ht : t.Stands source)
    (hts : Tree.AllStand source ts) : (dress pre ts t).Stands source := by
  cases t
  obtain ⟨hdata, -, hchildren⟩ := Tree.stands_iff.1 ht
  exact Tree.stands_iff.2 ⟨⟨hdata.span, hdata.raw⟩, hts, hchildren⟩

/-- Whether the places that a part of the grammar is given are those of a document. -/
def Part.Placed (source : Source) : Part → Prop
  | .line _ label => source.Sits label
  | _ => True

/-- Reading keeps to the document. -/
theorem Run.placed {n : Nat} {part : Part} {s : State} {r : Read SetBody} (h : Run n part s r)
    (hs : s.Placed source) (hpart : part.Placed source) : Placed source r := by
  induction h with
  | @namelessTag _ s _ _ =>
    have hspan := hs.cursor.span
    exact (placed_close (hs.advance.alloc.report hspan _ _) hspan.boundary stands_tagMark
      Tree.allStand_nil _ _ _).one
  | @plainTag _ s l _ hl _ =>
    have hlabel := hs.advance.cursor.label hl
    exact (placed_close (hs.advance.behindLabel hlabel) hs.cursor.span.boundary hlabel.label
      Tree.allStand_nil _ _ _).one
  | @tagWithArguments _ s l _ _ hl _ _ ih =>
    have hlabel := hs.advance.cursor.label hl
    have hargs := ih (hs.advance.behindLabel hlabel) trivial
    exact (placed_close hargs.state hs.cursor.span.boundary hlabel.label hargs.children _ _ _).one
  | tagsEnd _ => exact ⟨hs, Tree.allStand_nil⟩
  | tagsCons _ _ _ ihFirst ihRest =>
    have hfirst := (ihFirst hs trivial).node
    have hrest := ihRest hfirst.state trivial
    exact ⟨hrest.state, Tree.allStand_cons.2 ⟨hfirst.node, hrest.children⟩⟩
  | bracketedRefused _ =>
    exact ⟨placed_skip _ _ _ (hs.advance.report hs.cursor.span _ _), Tree.allStand_nil⟩
  | bracketedClosed _ _ _ ih =>
    have hbody := ih hs.advance trivial
    exact ⟨hbody.state.advance, hbody.children⟩
  | bracketedOpen _ _ _ ih =>
    have hbody := ih hs.advance trivial
    exact ⟨hbody.state.report hs.cursor.span _ _, hbody.children⟩
  | lineMissing _ => exact ⟨hs.report hpart _ _, Tree.allStand_nil⟩
  | lineRefused _ => exact ⟨placed_skip _ _ _ (hs.report hpart _ _), Tree.allStand_nil⟩
  | lineRead _ _ ih => exact ih hs trivial
  | label hl _ =>
    have hlabel := hs.cursor.label hl
    exact (placed_close (hs.behindLabel hlabel) hlabel.token.start hlabel.label
      Tree.allStand_nil _ _ _).one
  | labeledSet hl _ _ _ _ ih =>
    have hlabel := hs.cursor.label hl
    have hbody := ih (hs.behindLabel hlabel).advance trivial
    exact (placed_reportCramped _ (placed_close hbody.state hlabel.token.start hlabel.label
      hbody.children _ _ _)).one
  | labeledLine hl _ _ _ ih =>
    have hlabel := hs.cursor.label hl
    have hbody := ih (hs.behindLabel hlabel).advance hlabel.sits
    exact (placed_close hbody.state hlabel.token.start hlabel.label hbody.children _ _ _).one
  | @unlabeled _ ctx ts s _ _ _ _ _ ih =>
    have hspan := hs.cursor.span
    have hbegun : (if ctx = .line then
        s.alloc.state.report (.unlabeledSet (!ts.isEmpty)) s.cursor.span s.count
      else s.alloc.state).Placed source := by
      split
      · exact hs.alloc.report hspan _ _
      · exact hs.alloc
    have hbody := ih hbegun trivial
    exact (placed_close hbody.state hspan.boundary stands_noLabel hbody.children _ _ _).one
  | untaggable _ _ => exact (placed_untaggable _ hs).one
  | unexpected _ _ _ => exact (placed_unexpected hs).one
  | node _ _ ihTags ihBare =>
    have htags := ihTags hs trivial
    have hbare := (ihBare htags.state trivial).node
    exact PlacedNode.one ⟨hbare.state, stands_dress _ hbare.node htags.children⟩
  | entry _ ih => exact ih hs trivial
  | stray _ _ => exact (placed_unexpected hs).one
  | entriesEnd _ => exact ⟨hs, Tree.allStand_nil⟩
  | extraSeparator _ _ _ ih =>
    have hfirst := placed_unexpected hs
    have hrest := ih hfirst.state trivial
    exact ⟨hrest.state, Tree.allStand_cons.2 ⟨hfirst.node, hrest.children⟩⟩
  | @separated _ _ pending _ _ sep _ _ _ _ _ _ ihFirst ihRest =>
    have hentry := (ihFirst hs trivial).node
    have hfirst := placed_follow sep (stands_precede pending hentry.node) hentry.state
    have hrest := ihRest hfirst.state trivial
    exact ⟨hrest.state, Tree.allStand_cons.2 ⟨hfirst.node, hrest.children⟩⟩
  | unseparated _ _ _ _ _ ihFirst ihRest =>
    have hfirst := (ihFirst hs trivial).node
    have hrest := ihRest hfirst.state trivial
    exact ⟨hrest.state, Tree.allStand_cons.2 ⟨stands_precede _ hfirst.node, hrest.children⟩⟩
  | lineLast _ _ ih => exact ih hs trivial
  | lineCons _ _ _ ihFirst ihRest =>
    have hfirst := (ihFirst hs trivial).node
    have hrest := ihRest hfirst.state trivial
    exact ⟨hrest.state, Tree.allStand_cons.2 ⟨hfirst.node, hrest.children⟩⟩

end Grammar

/-! ### Documents -/

/-- A cursor before the first word of lexemes of a document stands in the document. -/
theorem Cursor.placed_ofLexemes {source : Source} {pos : Nat} {ls : List Lexeme}
    (hls : ∀ l ∈ ls, l.Stands source) : (Cursor.ofLexemes source.length pos ls).Placed source where
  ahead w hw l hl := hls l (Word.mem_lexemes_of_mem_split hw hl)
  tail l hl := by
    refine hls l ?_
    rw [Word.split_eq ls]
    exact List.mem_append_right _ hl
  length := rfl
  prevEnd := Nat.min_le_right _ _

/-- Where reading begins at a place where no character goes on, all that is known stands in the
document. -/
theorem State.placed_begin {source : Source} {pos : Nat}
    (hpos : source.shown.isBoundary pos = true ∨ source.length ≤ pos) :
    (State.begin source pos).Placed source := by
  have hstands : ∀ l ∈ Lexeme.all source pos, l.Stands source :=
    fun l hl => Lexeme.stands_of_mem_all hpos hl
  have hcursor : (Cursor.ofLexemes source.length pos (Lexeme.all source pos)).Placed source :=
    Cursor.placed_ofLexemes hstands
  have hstart : State.Placed source
      { cursor := Cursor.ofLexemes source.length pos (Lexeme.all source pos) } :=
    ⟨hcursor, by simp, by simp⟩
  exact hstart.reportGap

namespace Parse

/-- Whether all that was read of a document from a position on, and all that is reported about it,
stands in the document and can be located there. -/
structure InPlace (p : Parse) (pos : Nat) : Prop where
  /-- Tokens lie in the document, between places where no character goes on, and their text is what
  is shown for their bytes. -/
  lexemes : ∀ l ∈ Lexeme.all p.source pos, p.source.Sits l.span ∧ l.Stands p.source
  /-- Nodes, stray ones included, lie in the document and can be located, and their labels are shown
  as their bytes. -/
  nodes : ∀ i d, p.forest.data? i = some d →
    d.Stands p.source ∧ (p.source.locate? d.span.start).isSome = true
  /-- Diagnostics lie in the document and can be located. -/
  diagnostics : ∀ d ∈ p.diagnostics,
    p.source.Sits d.span ∧ (d.locate? p.source).isSome = true

theorem stands_nothing (source : Source) : (NodeData.plain .error "").Stands source :=
  ⟨source.sits_zero, by rfl⟩

theorem inPlace_ofState {source : Source} {pos : Nat}
    (hpos : source.shown.isBoundary pos = true ∨ source.length ≤ pos) {s : State}
    (hs : s.Placed source) {root : Option Tree} (hroot : ∀ t ∈ root, t.Stands source) :
    (ofState source root s).InPlace pos := by
  refine ⟨fun l hl => ?_, fun i d hd => ?_, fun d hd => ?_⟩
  · have hstands := Lexeme.stands_of_mem_all hpos hl
    exact ⟨hstands.sits, hstands⟩
  · rw [forest, Forest.data?_ofTree] at hd
    split at hd
    · cases hd
      have hstands : (Tree.dataAt ((root.map Tree.preorder).getD []) s.strays i).Stands source := by
        refine Tree.dataAt_induction (fun t ht => ?_) hs.strays (stands_nothing source) i
        cases root with
        | none => cases ht
        | some root => exact hroot root rfl t ht
      exact ⟨hstands, hstands.span.locate⟩
    · cases hd
  · obtain ⟨r, hr, rfl⟩ := List.mem_map.1 hd
    exact ⟨hs.reports r hr, (hs.reports r hr).locate⟩

/-- The root of a document stands in it. -/
theorem stands_rootData (source : Source) : (rootData source).Stands source := by
  refine ⟨source.sits_whole, ?_⟩
  have hpath : Utf8.lossy (Utf8.shown (Utf8.ofString source.path)) = source.path := by
    rw [Utf8.shown_of_isValid (Utf8.isValid_ofString _), Utf8.lossy_ofString]
  exact hpath.symm

theorem inPlace_document (source : Source) : (document source).InPlace 0 := by
  have hbegin : (State.begin source 0).Placed source :=
    State.placed_begin (.inl source.sits_zero.boundary)
  have hrun := Grammar.run_entries Grammar.maxDepth .top (State.begin source 0).alloc.state
  have hread := hrun.placed hbegin.alloc trivial
  refine inPlace_ofState (.inl source.sits_zero.boundary) hread.state fun t ht => ?_
  obtain rfl := Option.some.inj ht
  exact Tree.stands_iff.2 ⟨stands_rootData source, Tree.allStand_nil, hread.children⟩

theorem inPlace_oneNode {text : Bytes} {pos : Nat}
    (hpos : (Utf8.shown text).isBoundary pos = true ∨ text.length ≤ pos) :
    (oneNode text pos).InPlace pos := by
  let source : Source := ⟨anonymous, text⟩
  have hplace : source.shown.isBoundary pos = true ∨ source.length ≤ pos := hpos
  have hbegin : (State.begin source pos).Placed source := State.placed_begin hplace
  unfold oneNode oneNodeTo firstNode
  dsimp only
  split
  · exact inPlace_ofState hplace hbegin nofun
  · have hrun := Grammar.run_entry (Grammar.soundBelow Grammar.maxDepth) .top
      (State.begin source pos)
    have hread := (hrun.placed hbegin trivial).node
    refine inPlace_ofState hplace hread.state fun t ht => ?_
    obtain rfl := Option.some.inj ht
    exact hread.node

/-- Whatever bytes are read, from the start or from any place where no character goes on, all
tokens, nodes and diagnostics lie in the text and can be located there; and no token ends inside an
invalid sequence of the text. -/
theorem inPlace {text : Bytes} {pos : Nat}
    (hpos : (Utf8.shown text).isBoundary pos = true ∨ text.length ≤ pos) :
    (∀ path, (document ⟨path, text⟩).InPlace 0) ∧ (oneNode text pos).InPlace pos ∧
      ∀ start n, Utf8.InvalidAt text start n → ∃ t ∈ Token.all text 0, t.Holds start n :=
  ⟨fun _ => inPlace_document _, inPlace_oneNode hpos, fun _ _ => Token.holds_invalid⟩

/-- In `"?"?`, where each question mark stands for invalid bytes, the first of them lie in the
literal and the last is a bad character.  Reading may begin in the middle of the first. -/
theorem inPlace_broken :
    let text : Bytes := [0x22, 0xE2, 0x82, 0x22, 0xFF]
    (Utf8.shown text).isBoundary 2 = true ∧ (document ⟨"broken", text⟩).InPlace 0 ∧
      (oneNode text 2).InPlace 2 ∧ Utf8.InvalidAt text 1 2 ∧
        ∃ t ∈ Token.all text 0, t.Holds 1 2 := by
  intro text
  have hinvalid : Utf8.InvalidAt text 1 2 :=
    ⟨[.char '"'], false, [.char '"', .invalid 1 false], by decide, by decide⟩
  have hpos : (Utf8.shown text).isBoundary 2 = true := by decide
  obtain ⟨hdocument, hnode, htokens⟩ := @inPlace text 2 (.inl hpos)
  exact ⟨hpos, hdocument _, hnode, hinvalid, htokens 1 2 hinvalid⟩

end Parse

end Metadoc
