import Metadoc.Proofs.Document.Shows

/-!
# Documents in brackets are read as they are meant

* `Piece.Loose` is what may come after an entry or a tag: nothing, a separator, a closing bracket,
  or a piece with a space before it;
* `Grammar.exists_run_bracketed`, `Grammar.exists_run_tag` and the like read one part, given how the
  entries inside are read;
* `Grammar.readsMembers` : entries that are written down are read without a report, as the nodes
  that they stand for;
* `Parse.document_render` says that of a whole document.
-/

namespace Metadoc

open Grammar (Run)
open Outline (Entry Tag followerPieces entriesPieces tagsPieces trees tagTrees nodeData)

namespace Piece

/-- What may come after an entry or a tag. -/
inductive Loose : List Piece → Prop
  /-- Nothing. -/
  | nil : Loose []
  /-- A piece with a space before it. -/
  | spaced {sign ps} (h : sign ≠ .colon) : Loose (⟨true, sign⟩ :: ps)
  /-- A separator. -/
  | separator (spaced sep ps) : Loose (⟨spaced, .separator sep⟩ :: ps)
  /-- A closing bracket. -/
  | closing (spaced closed ps) : Loose (⟨spaced, .closing closed⟩ :: ps)

theorem Loose.follower {ps : List Piece} (h : Loose ps) (follower : Option Separator) :
    Loose (followerPieces follower ++ ps) := by
  cases follower with
  | none => exact h
  | some sep => exact .separator false sep ps

/-- Where the entries of a set, or those of a whole document, end. -/
inductive Ends : Context → List Piece → Prop
  /-- A document ends where there is nothing. -/
  | document (ctx) : Ends ctx []
  /-- A set ends at its closing bracket. -/
  | set (spaced closed ps) : Ends .bracketed (⟨spaced, .closing closed⟩ :: ps)

theorem Ends.loose {ctx : Context} {ps : List Piece} (h : Ends ctx ps) : Loose ps := by
  cases h with
  | document => exact .nil
  | set spaced closed ps => exact .closing spaced closed ps

end Piece

open Piece (Loose Ends)

theorem Sign.eq_colon_of_mark {s : Sign} (h : s.mark? = some labelMark) : s = .colon := by
  cases s with
  | label t => cases h
  | opening d => cases d <;> cases h
  | closing d => cases d <;> cases h
  | separator sep => cases sep <;> cases h
  | colon => rfl
  | «at» => cases h

theorem Piece.Loose.mark_ne {ps : List Piece} (h : Loose ps) : mark? ps ≠ some labelMark := by
  intro hmark
  cases h with
  | nil => cases hmark
  | spaced hsign => exact hsign (Sign.eq_colon_of_mark hmark)
  | separator spaced sep ps => cases sep <;> cases hmark
  | closing spaced closed ps => cases closed <;> cases hmark

namespace State.Shows

variable {s : State} {ps : List Piece}

theorem not_promisesSet (h : s.Shows ps) (hps : Piece.mark? ps ≠ some labelMark) :
    ¬s.promisesSet := by
  rintro ⟨hat, -⟩
  rw [h.isAt (by decide)] at hat
  exact hps (of_decide_eq_true hat)

theorem promisesSet {gap : Bool} (h : s.Shows (⟨gap, .colon⟩ :: ps)) : s.promisesSet := by
  refine ⟨?_, h.newlines_eq⟩
  rw [h.isAt (by decide)]
  rfl

theorem not_cramped (h : s.Shows ps) (hps : Loose ps) :
    ¬(s.cursor.adjacent = true ∧ s.cursor.atNodeStart = true) := by
  rintro ⟨hadjacent, hstart⟩
  cases hps with
  | nil =>
    have hl : s.cursor.label? = none := by rw [Cursor.label?, h.lexeme?_nil]; rfl
    rw [Cursor.atNodeStart, hl, h.opens?, h.isAt (by decide)] at hstart
    cases hstart
  | spaced hsign =>
    rw [h.adjacent_eq, Bool.not_true, Bool.and_false] at hadjacent
    cases hadjacent
  | separator spaced sep ps =>
    rw [Cursor.atNodeStart, h.label?_of_mark rfl, h.opens?, h.isAt (by decide)] at hstart
    cases sep <;> cases hstart
  | closing spaced closed ps =>
    rw [Cursor.atNodeStart, h.label?_of_mark rfl, h.opens?, h.isAt (by decide)] at hstart
    cases closed <;> cases hstart

theorem not_takesArguments (h : s.Shows ps) (hps : Loose ps) : ¬s.takesArguments := by
  rintro ⟨hat, hadjacent⟩
  have hsymbol : s.cursor.symbol? = some Delimiter.paren.openByte := of_decide_eq_true hat
  refine h.not_cramped hps ⟨hadjacent, ?_⟩
  rw [Cursor.atNodeStart, Cursor.opens?, hsymbol, Option.bind_some, Delimiter.ofOpen?_openByte]
  simp

theorem not_entriesEnd {ctx : Context} {p : Piece} (h : s.Shows (p :: ps))
    (hp : p.sign.begins = true) : ¬s.entriesEnd ctx := by
  rintro (hend | ⟨-, hc⟩)
  · rw [h.atEnd_eq] at hend
    cases hend
  · rw [h.closes?, Piece.mark?_cons] at hc
    obtain ⟨spaced, sign⟩ := p
    cases sign with
    | opening d => cases d <;> cases hc
    | closing d | separator sep | colon => cases hp
    | «at» | label t => cases hc

theorem separator?_of_begins {p : Piece} (h : s.Shows (p :: ps)) (hp : p.sign.begins = true) :
    s.cursor.separator? = none := by
  rw [h.separator?, Piece.mark?_cons]
  obtain ⟨spaced, sign⟩ := p
  cases sign with
  | opening d => cases d <;> rfl
  | closing d | separator sep | colon => cases hp
  | «at» | label t => rfl

theorem atLineEnd_of_begins {p : Piece} (h : s.Shows (p :: ps)) (hp : p.sign.begins = true) :
    s.cursor.atLineEnd = false := by
  have hends : ¬s.entriesEnd .bracketed := h.not_entriesEnd hp
  have hclose : s.cursor.closes?.isSome = false :=
    Bool.eq_false_iff.2 fun hc => hends (.inr ⟨rfl, hc⟩)
  rw [Cursor.atLineEnd, h.atEnd_eq, hclose, h.separator?_of_begins hp]
  rfl

theorem entriesEnd {ctx : Context} (h : s.Shows ps) (hps : Ends ctx ps) : s.entriesEnd ctx := by
  cases hps with
  | document => exact .inl h.atEnd_eq
  | set spaced closed ps =>
    refine .inr ⟨rfl, ?_⟩
    rw [h.closes?]
    cases closed <;> rfl

theorem separator?_of_ends {ctx : Context} (h : s.Shows ps) (hps : Ends ctx ps) :
    s.cursor.separator? = none := by
  rw [h.separator?]
  cases hps with
  | document => rfl
  | set spaced closed ps => cases closed <;> rfl

end State.Shows

namespace Grammar

variable {n : Nat} {ctx : Context} {s : State} {spaced : Bool} {more : List Piece}

/-! ### Sets -/

/-- A set in brackets with given nodes in it, without numbers and places. -/
structure Holds (b : SetBody) (opened closed : Delimiter) (nodes : List Tree) : Prop where
  /-- The opening bracket. -/
  opened : b.opened = some opened
  /-- The closing bracket. -/
  closed : b.closed = some closed
  /-- The set has been read. -/
  refused : b.refused = false
  /-- The nodes. -/
  children : Tree.unplacedAll b.children = nodes

/-- How entries are read with `n` levels of sets left: without a report, as the nodes that they
stand for. -/
def ReadsMembers (n : Nat) (members : List Entry) : Prop :=
  ∀ (ctx : Context) (pending : Option Separator) (s : State) (spaced : Bool) (more : List Piece),
    ctx ≠ .line → s.Shows (entriesPieces spaced members ++ more) → Ends ctx more →
      ∃ r : Read (List Tree), Run n (.entries ctx pending) s (Read.many r) ∧ r.state.Shows more ∧
        Tree.unplacedAll r.value = trees pending members

/-- How pieces before a closing bracket, with or without a space before it, are read with `n` levels
of sets left: without a report, as given nodes. -/
def ReadsInside (n : Nat) (ps : List Piece) (spaced : Bool) (nodes : List Tree) : Prop :=
  ∀ (s : State) (closed : Delimiter) (more : List Piece),
    s.Shows (ps ++ ⟨spaced, .closing closed⟩ :: more) →
      ∃ r : Read (List Tree), Run n (.entries .bracketed none) s (Read.many r) ∧
        r.state.Shows (⟨spaced, .closing closed⟩ :: more) ∧ Tree.unplacedAll r.value = nodes

theorem ReadsMembers.inside {members : List Entry} (h : ReadsMembers n members) :
    ReadsInside n (entriesPieces true members) true (trees none members) :=
  fun s closed more hs => h .bracketed none s true _ nofun hs (.set true closed more)

/-- A set in brackets is read as what is in it. -/
theorem exists_run_bracketed {ps : List Piece} {before : Bool} {nodes : List Tree}
    (hbody : ReadsInside n ps before nodes) {opened closed : Delimiter}
    (hs : s.Shows (⟨spaced, .opening opened⟩ :: (ps ++ ⟨before, .closing closed⟩ :: more)))
    (id : Nat) :
    s.cursor.opens? = some opened ∧
      ∃ r, Run (n + 1) (.bracketed id opened) s r ∧ r.state.Shows more ∧
        Holds r.value opened closed nodes := by
  have ho : s.cursor.opens? = some opened := by
    rw [hs.opens?]
    exact Delimiter.ofOpen?_openByte opened
  obtain ⟨r, hrun, hshows, hchildren⟩ := hbody s.advance closed more hs.advance
  have hc : r.state.cursor.closes? = some closed := by
    rw [hshows.closes?]
    exact Delimiter.ofClose?_closeByte closed
  exact ⟨ho, _, .bracketedClosed ho hrun hc, hshows.advance, rfl, rfl, rfl, hchildren⟩

/-! ### Entries without tags -/

theorem unplaced_labeledNode {t : LabelText} {body : Read SetBody} (h : body.state.Shows more)
    (hb : body.value.refused = false) (id start : Nat) :
    (labeledNode id start t.label body).state = body.state ∧
      (labeledNode id start t.label body).value.unplaced =
        .node 0 (nodeData .main (some t.label)
          { opened := body.value.opened, closed := body.value.closed }) []
          (Tree.unplacedAll body.value.children) := by
  rw [labeledNode, h.close, SetBody.kind, hb]
  exact ⟨rfl, rfl⟩

theorem exists_run_label {t : LabelText} (hs : s.Shows (⟨spaced, .label t⟩ :: more))
    (hmore : Piece.mark? more ≠ some labelMark) (ts : List Tree) :
    ∃ r : Read Tree, Run n (.bare ctx ts) s r.one ∧ r.state.Shows more ∧
      r.value.unplaced = .node 0 (nodeData .main (some t.label) {}) [] [] := by
  obtain ⟨l, hl, hlabel, hbehind, -⟩ := hs.exists_label
  refine ⟨_, .label hl (hbehind.not_promisesSet hmore), ?_⟩
  have hbody : (⟨{}, s.behindLabel l⟩ : Read SetBody).state.Shows more := hbehind
  obtain ⟨hstate, hvalue⟩ := unplaced_labeledNode (t := t) hbody rfl s.count l.start
  rw [hlabel, hstate, hvalue]
  exact ⟨hbehind, rfl⟩

theorem exists_run_labeledSet {t : LabelText} {ps : List Piece} {gap before : Bool}
    {nodes : List Tree} (hbody : ReadsInside n ps before nodes) {opened closed : Delimiter}
    (hs : s.Shows (⟨spaced, .label t⟩ :: ⟨false, .colon⟩ :: ⟨gap, .opening opened⟩ ::
      (ps ++ ⟨before, .closing closed⟩ :: more)))
    (hmore : Loose more) (ts : List Tree) :
    ∃ r : Read Tree, Run (n + 1) (.bare ctx ts) s r.one ∧ r.state.Shows more ∧
      r.value.unplaced = .node 0 (nodeData .main (some t.label)
        { opened := some opened, closed := some closed }) [] nodes := by
  obtain ⟨l, hl, hlabel, hbehind, -⟩ := hs.exists_label
  have hpromise := hbehind.promisesSet
  have hset := hbehind.advance
  obtain ⟨ho, r, hrun, hshows, hr⟩ := exists_run_bracketed hbody hset s.count
  have hnewlines : (s.behindLabel l).advance.cursor.newlines < 2 := by
    rw [hset.newlines_eq]
    decide
  refine ⟨_, .labeledSet hl hpromise ho hnewlines hrun, ?_⟩
  obtain ⟨hstate, hvalue⟩ := unplaced_labeledNode (t := t) hshows hr.refused s.count l.start
  rw [hlabel, reportCramped, hstate, if_neg (hshows.not_cramped hmore), hstate, hvalue,
    hr.opened, hr.closed, hr.children]
  exact ⟨hshows, rfl⟩

theorem exists_run_unlabeled (hctx : ctx ≠ .line) {ps : List Piece} {before : Bool}
    {nodes : List Tree} (hbody : ReadsInside n ps before nodes) {opened closed : Delimiter}
    (hs : s.Shows (⟨spaced, .opening opened⟩ :: (ps ++ ⟨before, .closing closed⟩ :: more)))
    (ts : List Tree) :
    ∃ r : Read Tree, Run (n + 1) (.bare ctx ts) s r.one ∧ r.state.Shows more ∧
      r.value.unplaced = .node 0 (nodeData .main none
        { opened := some opened, closed := some closed }) [] nodes := by
  obtain ⟨ho, r, hrun, hshows, hr⟩ := exists_run_bracketed hbody hs.alloc s.count
  have hrun' : Run (n + 1) (.bracketed s.count opened)
      (if ctx = .line then
        s.alloc.state.report (.unlabeledSet (!ts.isEmpty)) s.cursor.span s.count
      else s.alloc.state) r := by
    rwa [if_neg hctx]
  refine ⟨_, .unlabeled (hs.label?_of_mark rfl) ho hrun', ?_⟩
  rw [hshows.close, SetBody.kind, hr.refused, hr.opened, hr.closed]
  exact ⟨hshows, by rw [Tree.unplaced, hr.children]; rfl⟩

/-! ### Tags -/

theorem exists_run_plainTag {name : LabelText}
    (hs : s.Shows (⟨spaced, .at⟩ :: ⟨false, .label name⟩ :: more)) (hmore : Loose more) :
    ∃ r : Read Tree, Run n .tag s r.one ∧ r.state.Shows more ∧
      r.value.unplaced = (Tag.plain name).tree := by
  have hat : s.cursor.isAt tagMark = true := by
    rw [hs.isAt (by decide)]
    rfl
  obtain ⟨l, hl, hlabel, hbehind, -⟩ := hs.advance.exists_label
  refine ⟨_, .plainTag hat hl (hbehind.not_takesArguments hmore), ?_⟩
  rw [hbehind.close, hlabel]
  exact ⟨hbehind, rfl⟩

theorem exists_run_appliedTag {name : LabelText} {arguments : List Entry}
    (hbody : ReadsMembers n arguments)
    (hs : s.Shows (⟨spaced, .at⟩ :: ⟨false, .label name⟩ :: ⟨false, .opening .paren⟩ ::
      (entriesPieces true arguments ++ ⟨true, .closing .paren⟩ :: more))) :
    ∃ r : Read Tree, Run (n + 1) .tag s r.one ∧ r.state.Shows more ∧
      r.value.unplaced = (Tag.applied name arguments).tree := by
  have hat : s.cursor.isAt tagMark = true := by
    rw [hs.isAt (by decide)]
    rfl
  obtain ⟨l, hl, hlabel, hbehind, hstarted⟩ := hs.advance.exists_label
  have hargs : (s.advance.behindLabel l).takesArguments := by
    constructor
    · rw [hbehind.isAt (by decide)]
      rfl
    · rw [hbehind.adjacent_eq, hstarted]
      rfl
  obtain ⟨-, r, hrun, hshows, hr⟩ := exists_run_bracketed hbody.inside hbehind s.advance.count
  refine ⟨_, .tagWithArguments hat hl hargs hrun, ?_⟩
  rw [hshows.close, hlabel, hr.opened, hr.closed]
  exact ⟨hshows, by rw [Tree.unplaced, hr.children]; rfl⟩

/-! ### Entries with tags -/

/-- An entry is read as what comes without its tags, under the tags. -/
theorem exists_run_node_of_bare {ps : List Piece} (hs : s.Shows ps) {ts : Read (List Tree)}
    {t : Read Tree} (htags : Run n .tags s (Read.many ts))
    (hbare : Run n (.bare ctx ts.value) ts.state t.one) {d : NodeData} {cs : List Tree}
    (hpre : d.pre = "") (ht : t.value.unplaced = .node 0 d [] cs) :
    ∃ r : Read Tree, Run n (.node ctx) s r.one ∧ r.state = t.state ∧
      r.value.unplaced = .node 0 d (Tree.unplacedAll ts.value) cs := by
  refine ⟨_, .node htags hbare, rfl, ?_⟩
  have hleading : s.cursor.trivia.leadingText = "" := by
    rw [hs.trivia_eq]
    rfl
  obtain ⟨⟨id, d', ts', cs'⟩, s'⟩ := t
  simp only [Tree.unplaced, Tree.node.injEq, true_and] at ht
  obtain ⟨rfl, -, rfl⟩ := ht
  have hd : d'.pre = "" := hpre
  simp only [dress, hleading, Tree.unplaced, ← hd]

theorem exists_run_unseparated {p : Piece} {ps : List Piece} (hs : s.Shows (p :: ps))
    (hp : p.sign.begins = true) {t : Read Tree} (hnode : Run n (.node ctx) s t.one)
    (hsep : t.state.cursor.separator? = none) {u : Tree} (ht : t.value.unplaced = u)
    (hu : u.data.facets.precededBy = none) {rs : Read (List Tree)}
    (hrest : Run n (.entries ctx none) t.state (Read.many rs)) :
    ∃ r : Read (List Tree), Run n (.entries ctx none) s (Read.many r) ∧ r.state = rs.state ∧
      Tree.unplacedAll r.value = u :: Tree.unplacedAll rs.value := by
  refine ⟨_, .unseparated (hs.not_entriesEnd hp) (hs.separator?_of_begins hp) (.entry hnode)
    hsep hrest, rfl, ?_⟩
  -- No separator came before, and the node says so already.
  obtain ⟨⟨id, d, tags, children⟩, s'⟩ := t
  subst ht
  have hnone : d.facets.precededBy = none := hu
  simp only [precede, Tree.unplacedAll, Tree.unplaced, ← hnone]

theorem entriesPieces_append_cases (es : List Entry) (spaced : Bool) (more : List Piece) :
    entriesPieces spaced es ++ more = more ∨ ∃ first ps,
      entriesPieces spaced es ++ more = ⟨spaced, first⟩ :: ps ∧ first.begins = true := by
  cases es with
  | nil => exact .inl rfl
  | cons e es =>
    obtain ⟨first, ps, hps, hfirst⟩ := e.pieces_eq_cons spaced
    refine .inr ⟨first, ps ++ (entriesPieces true es ++ more), ?_, hfirst⟩
    rw [entriesPieces, hps, List.append_assoc, List.cons_append]

theorem follow_of_shows {sep : Separator} (hs : s.Shows (⟨spaced, .separator sep⟩ :: more))
    (before : Option Separator) (t : Tree) :
    (follow sep (precede before t) s).state.Shows more ∧
      (follow sep (precede before t) s).value.unplaced =
        t.unplaced.beside before (some sep) := by
  obtain ⟨id, d, ts, cs⟩ := t
  unfold follow
  dsimp only
  split
  · rename_i hpost
    rw [hs.advance.claim_eq]
    refine ⟨hs.advance, ?_⟩
    simp [← hpost, precede, Tree.unplaced, Tree.beside, Tree.withData, Tree.id, Tree.data,
      Tree.tags, Tree.children]
  · exact ⟨hs.advance, rfl⟩

theorem unplaced_precede (before : Option Separator) {t : Tree} {e : Entry}
    (h : t.unplaced = e.tree) : (precede before t).unplaced = e.tree.beside before none := by
  obtain ⟨id, d, ts, cs⟩ := t
  rw [← h]
  have hfollowed : d.facets.followedBy = none := by
    have hfacets := congrArg (·.data.facets.followedBy) h
    cases e with
    | leaf => exact hfacets
    | set tags label => cases label <;> exact hfacets
  simp only [precede, Tree.unplaced, Tree.beside, ← hfollowed]

mutual

/-- An entry is read, up to the separator after it, as the node that it stands for.  In a set
without brackets it needs a label. -/
theorem exists_run_node (e : Entry) {n : Nat} {ctx : Context} {s : State} {spaced : Bool}
    {more : List Piece} (hctx : e.label? = none → ctx ≠ .line) (hn : e.depth ≤ n)
    (hs : s.Shows (e.pieces spaced ++ more)) (hmore : Loose more) :
    ∃ r : Read Tree, Run n (.node ctx) s r.one ∧
      r.state.Shows (followerPieces e.follower ++ more) ∧ r.value.unplaced = e.tree := by
  cases e with
  | leaf tags label follower =>
    rw [Entry.pieces, List.append_assoc, List.cons_append] at hs
    obtain ⟨ts, htags, hlabel, hts⟩ := exists_run_tags tags hn hs nofun nofun
    obtain ⟨t, hbare, hshows, ht⟩ :=
      exists_run_label hlabel (hmore.follower follower).mark_ne ts.value
    obtain ⟨r, hrun, hstate, hr⟩ := exists_run_node_of_bare hs htags hbare rfl ht
    exact ⟨r, hrun, hstate ▸ hshows, by rw [hr, hts, Entry.tree]⟩
  | set tags label opened closed members follower =>
    have hdepth : Outline.tagsDepth tags ≤ n ∧ Outline.membersDepth members + 1 ≤ n :=
      Nat.max_le.1 hn
    obtain ⟨m, rfl⟩ : ∃ m, n = m + 1 := ⟨n - 1, by omega⟩
    have hmembers := readsMembers members (Nat.le_of_succ_le_succ hdepth.2)
    cases label with
    | none =>
      rw [Entry.pieces, List.append_assoc, List.cons_append, List.append_assoc,
        List.cons_append] at hs
      obtain ⟨ts, htags, hset, hts⟩ :=
        exists_run_tags tags hdepth.1 hs (by cases opened <;> nofun) nofun
      obtain ⟨t, hbare, hshows, ht⟩ := exists_run_unlabeled (hctx rfl) hmembers.inside hset ts.value
      obtain ⟨r, hrun, hstate, hr⟩ := exists_run_node_of_bare hs htags hbare rfl ht
      exact ⟨r, hrun, hstate ▸ hshows, by rw [hr, hts, Entry.tree, Option.map_none]⟩
    | some label =>
      rw [Entry.pieces, List.append_assoc, List.cons_append, List.cons_append, List.cons_append,
        List.append_assoc, List.cons_append] at hs
      obtain ⟨ts, htags, hset, hts⟩ := exists_run_tags tags hdepth.1 hs nofun nofun
      obtain ⟨t, hbare, hshows, ht⟩ :=
        exists_run_labeledSet hmembers.inside hset (hmore.follower follower) ts.value
      obtain ⟨r, hrun, hstate, hr⟩ := exists_run_node_of_bare hs htags hbare rfl ht
      exact ⟨r, hrun, hstate ▸ hshows, by rw [hr, hts, Entry.tree, Option.map_some]⟩

/-- A tag is read as the node that it stands for. -/
theorem exists_run_tag (t : Tag) {n : Nat} {s : State} {spaced : Bool} {more : List Piece}
    (hn : t.depth ≤ n) (hs : s.Shows (t.pieces spaced ++ more)) (hmore : Loose more) :
    ∃ r : Read Tree, Run n .tag s r.one ∧ r.state.Shows more ∧ r.value.unplaced = t.tree := by
  cases t with
  | plain name => exact exists_run_plainTag hs hmore
  | applied name arguments =>
    have hdepth : Outline.membersDepth arguments + 1 ≤ n := hn
    obtain ⟨m, rfl⟩ : ∃ m, n = m + 1 := ⟨n - 1, by omega⟩
    have hmembers := readsMembers arguments (Nat.le_of_succ_le_succ hdepth)
    simp only [Tag.pieces, List.cons_append, List.append_assoc, List.nil_append] at hs
    exact exists_run_appliedTag hmembers hs

/-- Tags are read, up to what they stand on, as the nodes that they stand for. -/
theorem exists_run_tags (ts : List Tag) {n : Nat} {s : State} {spaced : Bool} {sign : Sign}
    {more : List Piece} (hn : Outline.tagsDepth ts ≤ n)
    (hs : s.Shows (tagsPieces spaced ts ++ ⟨spaced || !ts.isEmpty, sign⟩ :: more))
    (hsign : sign.mark? ≠ some tagMark) (hcolon : sign ≠ .colon) :
    ∃ r : Read (List Tree), Run n .tags s (Read.many r) ∧
      r.state.Shows (⟨spaced || !ts.isEmpty, sign⟩ :: more) ∧
        Tree.unplacedAll r.value = tagTrees ts := by
  cases ts with
  | nil =>
    have hat : s.cursor.isAt tagMark = false := by
      rw [hs.isAt (by decide)]
      exact decide_eq_false hsign
    exact ⟨⟨[], s⟩, .tagsEnd hat, hs, rfl⟩
  | cons t ts =>
    have hdepth : t.depth ≤ n ∧ Outline.tagsDepth ts ≤ n := Nat.max_le.1 hn
    rw [List.isEmpty_cons, Bool.not_false, Bool.or_true, tagsPieces, List.append_assoc] at hs
    rw [List.isEmpty_cons, Bool.not_false, Bool.or_true]
    -- Behind the first tag comes a piece with a space: the next tag, or what is tagged.
    obtain ⟨first, qs, hqs, hfirst⟩ := Outline.tagsPieces_append_eq_cons ts true sign more
    rw [Bool.true_or] at hqs
    have hloose : Loose (tagsPieces true ts ++ ⟨true, sign⟩ :: more) := by
      rw [hqs]
      rcases hfirst with rfl | rfl
      · exact .spaced hcolon
      · exact .spaced nofun
    have hat : s.cursor.isAt tagMark = true := by
      rw [hs.isAt (by decide)]
      cases t <;> rfl
    obtain ⟨r, hrun, hshows, hr⟩ := exists_run_tag t hdepth.1 hs hloose
    obtain ⟨rs, hruns, hrest, hrs⟩ := exists_run_tags ts hdepth.2 hshows hsign hcolon
    refine ⟨_, .tagsCons hat hrun hruns, hrest, ?_⟩
    rw [Tree.unplacedAll, hr, hrs, tagTrees]

/-- Entries are read as the nodes that they stand for. -/
theorem readsMembers (es : List Entry) {n : Nat} (hn : Outline.membersDepth es ≤ n) :
    ReadsMembers n es := by
  intro ctx pending s spaced more hctx hs hmore
  cases es with
  | nil => exact ⟨⟨[], s⟩, .entriesEnd (hs.entriesEnd hmore), hs, rfl⟩
  | cons e es =>
    have hdepth : e.depth ≤ n ∧ Outline.membersDepth es ≤ n := Nat.max_le.1 hn
    have hfirst := hs
    obtain ⟨first, ps, hps, hbegins⟩ := e.pieces_eq_cons spaced
    rw [entriesPieces, List.append_assoc, hps] at hfirst
    have hend : ¬s.entriesEnd ctx := hfirst.not_entriesEnd hbegins
    have hsep := hfirst.separator?_of_begins hbegins
    -- Behind the entry comes the next one, with a space, or the end of the entries.
    have hloose : Loose (entriesPieces true es ++ more) := by
      rcases entriesPieces_append_cases es true more with h | ⟨next, qs, h, hnext⟩
      · rw [h]
        exact hmore.loose
      · rw [h]
        exact .spaced (by rintro rfl; cases hnext)
    rw [entriesPieces, List.append_assoc] at hs
    obtain ⟨t, hrun, hshows, ht⟩ := exists_run_node e (fun _ => hctx) hdepth.1 hs hloose
    cases hf : e.follower with
    | none =>
      rw [hf] at hshows
      have hnone : t.state.cursor.separator? = none := by
        rcases entriesPieces_append_cases es true more with h | ⟨next, qs, h, hnext⟩
        · exact State.Shows.separator?_of_ends (h ▸ hshows) hmore
        · exact State.Shows.separator?_of_begins (h ▸ hshows) hnext
      obtain ⟨rs, hruns, hrest, hrs⟩ :=
        readsMembers es hdepth.2 ctx none t.state true more hctx hshows hmore
      refine ⟨_, .unseparated hend hsep (.entry hrun) hnone hruns, hrest, ?_⟩
      rw [Tree.unplacedAll, hrs, unplaced_precede pending ht, trees, hf]
    | some sep =>
      rw [hf] at hshows
      have hsome : t.state.cursor.separator? = some sep := by
        rw [hshows.separator?]
        exact Separator.ofByte?_byte sep
      obtain ⟨hstate, hvalue⟩ := follow_of_shows hshows pending t.value
      obtain ⟨rs, hruns, hrest, hrs⟩ :=
        readsMembers es hdepth.2 ctx (some sep) _ true more hctx hstate hmore
      refine ⟨_, .separated hend hsep (.entry hrun) hsome hruns, hrest, ?_⟩
      rw [Tree.unplacedAll, hrs, hvalue, ht, trees, hf]

end

end Grammar

/-! ### Whole documents -/

namespace Parse

open Outline (render pieces membersDepth)

/-- What is seen of a text of separate pieces is the pieces. -/
theorem shows_flatMap (path : String) {ps : List Piece} (h : Piece.Separate ps) :
    (State.begin ⟨path, ps.flatMap Piece.bytes⟩ 0).Shows ps := by
  have hsplit := Piece.split_all h path
  have hstart : State.Shows
      { cursor := Cursor.ofLexemes (ps.flatMap Piece.bytes).length 0
          (Lexeme.all ⟨path, ps.flatMap Piece.bytes⟩ 0) } ps :=
    ⟨⟨0, congrArg Prod.fst hsplit⟩, congrArg Prod.snd hsplit, rfl⟩
  obtain ⟨_, hgap⟩ := hstart.exists_gap
  exact hstart.of_cursor_eq (State.cursor_reportGap _) (State.Shows.reports_reportGap hgap)

theorem document_flatMap (path : String) {ps : List Piece} (h : Piece.Separate ps)
    {nodes : List Tree}
    (hread : ∀ s : State, s.Shows ps →
      ∃ r : Read (List Tree), Run Grammar.maxDepth (.entries .top none) s (Read.many r) ∧
        r.state.Shows [] ∧ Tree.unplacedAll r.value = nodes) :
    (document ⟨path, ps.flatMap Piece.bytes⟩).diagnostics = [] ∧
      (document ⟨path, ps.flatMap Piece.bytes⟩).root.map Tree.unplaced =
        some (.node 0 (.plain .file path) [] nodes) := by
  obtain ⟨r, hrun, hshows, hr⟩ := hread _ (shows_flatMap path h).alloc
  rw [document_of_run hrun]
  constructor
  · rw [diagnostics, ofState, hshows.reports, List.map_nil]
  · simp only [ofState, Option.map_some, Tree.unplaced, hr]
    rfl

/-- A document in brackets whose sets do not lie too deep is read without a diagnostic, as exactly
the nodes that its entries stand for. -/
theorem document_render (path : String) (es : List Entry)
    (h : membersDepth es ≤ Grammar.maxDepth) :
    (document ⟨path, render es⟩).diagnostics = [] ∧
      (document ⟨path, render es⟩).root.map Tree.unplaced =
        some (.node 0 (.plain .file path) [] (trees none es)) := by
  rw [← Outline.flatMap_pieces]
  refine document_flatMap path (Outline.apart_pieces es).separate fun s hs => ?_
  rw [← List.append_nil (pieces es)] at hs
  exact Grammar.readsMembers es h .top none s false [] nofun hs (.document .top)

/-- The label `1`. -/
def one : LabelText :=
  ⟨[0x31], ⟨.numeric, 0, [0x31], none, none⟩, by decide, by decide, rfl, by decide⟩

/-- The document `@1( 1 ) 1:{ 1, ( ) ];`, whose outer brackets do not match. -/
def nested : List Entry :=
  [.set [.applied one [.leaf [] one none]] (some one) .brace .bracket
    [.leaf [] one (some .comma), .set [] none .paren .paren [] none] (some .semicolon)]

theorem document_render_nested :
    membersDepth nested ≤ Grammar.maxDepth ∧
      (document ⟨"d", render nested⟩).diagnostics = [] ∧
      (document ⟨"d", render nested⟩).root.map Tree.unplaced =
        some (.node 0 (.plain .file "d") [] (trees none nested)) :=
  ⟨by decide, document_render "d" nested (by decide)⟩

end Parse

end Metadoc
