import Metadoc.Proofs.Document.Completeness
import Metadoc.Proofs.Document.Line

/-!
# Lists with and without brackets

A list of entries behind a label is read as the same nodes with and without brackets around it.

* `Grammar.ReadsLine` says how pieces up to the end of the document are read as a list without
  brackets, as `Grammar.ReadsInside` does for pieces before a closing bracket;
* `Grammar.exists_run_list` reads a label with a list, given how the list is read;
* `Grammar.readsLine` and `Grammar.exists_run_entries_line` : a list is read as the nodes that it
  stands for, by the loop for sets without brackets and by that for sets in brackets;
* `Parse.document_list` says that of a whole document, and `Parse.document_unbracketed` compares
  the two ways to write it.
-/

namespace Metadoc

open Grammar (Run)
open Outline (Item Line Tag enclosePieces tagsPieces tagTrees nodeData)
open Piece (Loose Ends)

namespace State.Shows

variable {s : State} {p : Piece} {ps : List Piece}

theorem opens?_of_leads (h : s.Shows (p :: ps)) (hp : p.sign.leads = true) :
    s.cursor.opens? = none := by
  rw [h.opens?, Piece.mark?_cons]
  obtain ⟨spaced, sign⟩ := p
  cases sign with
  | opening d | closing d | separator sep | colon => cases hp
  | «at» | label t => rfl

theorem not_lineEnds (h : s.Shows (p :: ps)) (hp : p.sign.begins = true) : ¬s.lineEnds := by
  rintro (hnewlines | hend)
  · rw [h.newlines_eq] at hnewlines
    cases hnewlines
  · rw [h.atLineEnd_of_begins hp] at hend
    cases hend

theorem not_contentMissing (h : s.Shows (p :: ps)) (hp : p.sign.begins = true) :
    ¬s.contentMissing := by
  rintro (hnewlines | hend)
  · rw [h.newlines_eq] at hnewlines
    omega
  · exact h.not_lineEnds hp (.inr hend)

theorem lineEnds_nil (h : s.Shows []) : s.lineEnds := by
  refine .inr ?_
  rw [Cursor.atLineEnd, h.atEnd_eq]
  rfl

end State.Shows

namespace Grammar

variable {n : Nat} {ctx : Context} {s : State} {spaced : Bool} {more : List Piece}

/-- How pieces up to the end of a document are read with `n` levels of sets left, as the entries of
a list without brackets: without a report, as given nodes. -/
def ReadsLine (n : Nat) (ps : List Piece) (nodes : List Tree) : Prop :=
  ∀ s : State, s.Shows ps →
    ∃ r : Read (List Tree), Run n .lineEntries s (Read.many r) ∧ r.state.Shows [] ∧
      Tree.unplacedAll r.value = nodes

/-- How pieces are read as the entries of a list that has the given brackets, if any. -/
def ReadsList (n : Nat) : Option Delimiter → List Piece → List Tree → Prop
  | none => ReadsLine n
  | some _ => fun ps => ReadsInside n ps true

/-! ### Labels with lists -/

theorem exists_run_labeledLine {t : LabelText} {p : Piece} {ps : List Piece} {nodes : List Tree}
    (hbody : ReadsLine n (p :: ps) nodes) (hp : p.sign.leads = true)
    (hs : s.Shows (⟨spaced, .label t⟩ :: ⟨false, .colon⟩ :: p :: ps)) (ts : List Tree) :
    ∃ r : Read Tree, Run (n + 1) (.bare ctx ts) s r.one ∧ r.state.Shows [] ∧
      r.value.unplaced = .node 0 (nodeData .main (some t.label) {}) [] nodes := by
  obtain ⟨l, hl, hlabel, hbehind, -⟩ := hs.exists_label
  have hlist := hbehind.advance
  obtain ⟨r, hrun, hshows, hr⟩ := hbody _ hlist
  have hmissing := hlist.not_contentMissing (Sign.begins_of_leads hp)
  refine ⟨_, .labeledLine hl hbehind.promisesSet (.inl (hlist.opens?_of_leads hp))
    (.lineRead hmissing hrun), ?_⟩
  have hbody : (Read.many r).state.Shows [] := hshows
  obtain ⟨hstate, hvalue⟩ := unplaced_labeledNode (t := t) hbody rfl s.count l.start
  rw [hlabel, hstate, hvalue]
  exact ⟨hshows, by rw [Read.many_value, hr]⟩

/-- A label with a list is read as such.  Without brackets the list ends with the document. -/
theorem exists_run_list {brackets : Option Delimiter} {tags : List Tag} {label : LabelText}
    {inner : Line} (hn : Outline.tagsDepth tags ≤ n + 1)
    (hbody : ReadsList n brackets (inner.pieces brackets true) (inner.trees brackets))
    (hs : s.Shows ((Line.labeled tags label inner).pieces brackets spaced ++ more))
    (hmore : Loose more) (hend : brackets = none → more = []) :
    ∃ r : Read Tree, Run (n + 1) (.node ctx) s r.one ∧ r.state.Shows more ∧
      [r.value.unplaced] = (Line.labeled tags label inner).trees brackets := by
  rw [Line.pieces, List.append_assoc, List.cons_append, List.cons_append] at hs
  obtain ⟨ts, htags, hlist, hts⟩ := exists_run_tags tags hn hs (by simp [Sign.mark?]) (by simp)
  have hbare : ∃ t : Read Tree, Run (n + 1) (.bare ctx ts.value) ts.state t.one ∧
      t.state.Shows more ∧ t.value.unplaced =
        .node 0 (nodeData .main (some label.label) { opened := brackets, closed := brackets }) []
          (inner.trees brackets) := by
    cases brackets with
    | none =>
      obtain rfl := hend rfl
      obtain ⟨first, ps, hps, hfirst⟩ := inner.pieces_eq_cons none true
      rw [enclosePieces, List.append_nil, hps] at hlist
      rw [hps] at hbody
      exact exists_run_labeledLine hbody hfirst hlist ts.value
    | some d =>
      rw [enclosePieces, List.cons_append, List.append_assoc, List.singleton_append] at hlist
      exact exists_run_labeledSet hbody hlist hmore ts.value
  obtain ⟨t, hrun, hshows, ht⟩ := hbare
  obtain ⟨r, hnode, hstate, hr⟩ := exists_run_node_of_bare hs htags hrun rfl ht
  exact ⟨r, hnode, hstate ▸ hshows, by rw [hr, hts, Line.trees]⟩

/-! ### The two loops -/

/-- An item is read as the node that it stands for. -/
theorem exists_run_item (item : Item) (hn : item.entry.depth ≤ n)
    (hs : s.Shows (item.entry.pieces spaced ++ more)) (hmore : Loose more) :
    ∃ r : Read Tree, Run n (.node ctx) s r.one ∧ r.state.Shows more ∧
      r.value.unplaced = item.entry.tree := by
  obtain ⟨r, hrun, hshows, hr⟩ :=
    exists_run_node item.entry (fun hlabel => absurd hlabel item.label?_entry) hn hs hmore
  rw [item.follower_entry] at hshows
  exact ⟨r, hrun, hshows, hr⟩

theorem exists_shows_cons {brackets : Option Delimiter} (line : Line)
    (hs : s.Shows (line.pieces brackets spaced ++ more)) :
    ∃ p ps, s.Shows (p :: ps) ∧ p.sign.begins = true := by
  obtain ⟨first, ps, hps, hfirst⟩ := line.pieces_eq_cons brackets spaced
  rw [hps] at hs
  exact ⟨_, _, hs, Sign.begins_of_leads hfirst⟩

theorem loose_pieces (brackets : Option Delimiter) (rest : Line) (more : List Piece) :
    Loose (rest.pieces brackets true ++ more) := by
  obtain ⟨first, ps, hps, hfirst⟩ := rest.pieces_eq_cons brackets true
  rw [hps]
  exact .spaced (by rintro rfl; cases hfirst)

/-- The last entry of a list without brackets. -/
theorem exists_run_lineEntries_last {r : Read Tree} (hnode : Run n (.node .line) s r.one)
    (hshows : r.state.Shows []) :
    ∃ rs : Read (List Tree), Run n .lineEntries s (Read.many rs) ∧ rs.state.Shows [] ∧
      Tree.unplacedAll rs.value = [r.value.unplaced] :=
  ⟨⟨[r.value], r.state⟩, .lineLast hnode hshows.lineEnds_nil, hshows, rfl⟩

/-- A list without brackets is read as the nodes that it stands for. -/
theorem readsLine (line : Line) {n : Nat} {spaced : Bool} (hn : line.depth ≤ n) :
    ReadsLine n (line.pieces none spaced) (line.trees none) := by
  induction line generalizing n spaced with
  | last item =>
    intro s hs
    rw [Line.pieces, ← List.append_nil (item.entry.pieces spaced)] at hs
    obtain ⟨r, hnode, hshows, hr⟩ := exists_run_item item hn hs .nil
    rw [Line.trees, ← hr]
    exact exists_run_lineEntries_last hnode hshows
  | cons item rest ih =>
    intro s hs
    have hdepth : item.entry.depth ≤ n ∧ rest.depth ≤ n := Nat.max_le.1 hn
    rw [Line.pieces, ← List.append_nil (rest.pieces none true)] at hs
    obtain ⟨r, hnode, hshows, hr⟩ := exists_run_item item hdepth.1 hs (loose_pieces none rest [])
    obtain ⟨p, ps, hnext, hp⟩ := exists_shows_cons rest hshows
    rw [List.append_nil] at hshows
    obtain ⟨rs, hruns, hend, hrs⟩ := ih hdepth.2 r.state hshows
    exact ⟨_, .lineCons hnode (hnext.not_lineEnds hp) hruns, hend,
      by rw [Tree.unplacedAll, hr, hrs, Line.trees]⟩
  | labeled tags label inner ih =>
    intro s hs
    have hdepth : Outline.tagsDepth tags ≤ n ∧ inner.depth + 1 ≤ n := Nat.max_le.1 hn
    obtain ⟨m, rfl⟩ : ∃ m, n = m + 1 := ⟨n - 1, by omega⟩
    have hinner : ReadsList m none (inner.pieces none true) (inner.trees none) :=
      ih (Nat.le_of_succ_le_succ hdepth.2)
    rw [← List.append_nil (Line.pieces none spaced _)] at hs
    -- The lists inside end here as well: what is ahead of all of them is the end of the document.
    obtain ⟨r, hnode, hshows, hr⟩ :=
      exists_run_list hdepth.1 hinner hs .nil fun _ => rfl
    rw [← hr]
    exact exists_run_lineEntries_last hnode hshows

theorem exists_run_entries_last {p : Piece} {ps : List Piece} (hs : s.Shows (p :: ps))
    (hp : p.sign.begins = true) {r : Read Tree} (hnode : Run n (.node ctx) s r.one)
    (hshows : r.state.Shows more) (hmore : Ends ctx more)
    (hr : r.value.unplaced.data.facets.precededBy = none) :
    ∃ rs : Read (List Tree), Run n (.entries ctx none) s (Read.many rs) ∧
      rs.state.Shows more ∧ Tree.unplacedAll rs.value = [r.value.unplaced] := by
  have hend : Run n (.entries ctx none) r.state (Read.many ⟨[], r.state⟩) :=
    .entriesEnd (hshows.entriesEnd hmore)
  obtain ⟨rs, hrun, hstate, hrs⟩ :=
    exists_run_unseparated hs hp hnode (hshows.separator?_of_ends hmore) rfl hr hend
  exact ⟨rs, hrun, hstate ▸ hshows, hrs⟩

theorem precededBy_tree (item : Item) : item.entry.tree.data.facets.precededBy = none := by
  cases item <;> rfl

/-- A list is read as the nodes that it stands for, up to a closing bracket or the end of the
document.  If its lists have no brackets, it ends with the document. -/
theorem exists_run_entries_line (brackets : Option Delimiter) (line : Line) {n : Nat}
    {ctx : Context} {s : State} {spaced : Bool} {more : List Piece} (hn : line.depth ≤ n)
    (hs : s.Shows (line.pieces brackets spaced ++ more)) (hmore : Ends ctx more)
    (hend : brackets = none → more = []) :
    ∃ rs : Read (List Tree), Run n (.entries ctx none) s (Read.many rs) ∧
      rs.state.Shows more ∧ Tree.unplacedAll rs.value = line.trees brackets := by
  obtain ⟨p, ps, hahead, hbegins⟩ := exists_shows_cons line hs
  induction line generalizing n ctx s spaced more p ps with
  | last item =>
    obtain ⟨r, hnode, hshows, hr⟩ := exists_run_item item hn hs hmore.loose
    rw [Line.trees, ← hr]
    exact exists_run_entries_last hahead hbegins hnode hshows hmore (hr ▸ precededBy_tree item)
  | cons item rest ih =>
    have hdepth : item.entry.depth ≤ n ∧ rest.depth ≤ n := Nat.max_le.1 hn
    rw [Line.pieces, List.append_assoc] at hs
    obtain ⟨r, hnode, hshows, hr⟩ := exists_run_item item hdepth.1 hs (loose_pieces _ rest _)
    obtain ⟨q, qs, hnext, hq⟩ := exists_shows_cons rest hshows
    obtain ⟨rs, hruns, hrest, hrs⟩ := ih hdepth.2 hshows hmore hend q qs hnext hq
    obtain ⟨ts, hrun, hstate, hts⟩ := exists_run_unseparated hahead hbegins hnode
      (hnext.separator?_of_begins hq) hr (precededBy_tree item) hruns
    exact ⟨ts, hrun, hstate ▸ hrest, by rw [hts, hrs, Line.trees]⟩
  | labeled tags label inner ih =>
    have hdepth : Outline.tagsDepth tags ≤ n ∧ inner.depth + 1 ≤ n := Nat.max_le.1 hn
    obtain ⟨m, rfl⟩ : ∃ m, n = m + 1 := ⟨n - 1, by omega⟩
    have hm := Nat.le_of_succ_le_succ hdepth.2
    have hinner : ReadsList m brackets (inner.pieces brackets true) (inner.trees brackets) := by
      cases brackets with
      | none => exact readsLine inner hm
      | some d =>
        intro s closed more hs
        obtain ⟨q, qs, hq, hqs⟩ := exists_shows_cons inner hs
        exact ih hm hs (.set true closed more) (absurd · (Option.some_ne_none d)) q qs hq hqs
    obtain ⟨r, hnode, hshows, hr⟩ := exists_run_list hdepth.1 hinner hs hmore.loose hend
    rw [← hr]
    refine exists_run_entries_last hahead hbegins hnode hshows hmore ?_
    rw [(List.cons.inj hr).1]
    rfl

end Grammar

namespace Parse

/-- A document that is a list whose sets do not lie too deep is read without a diagnostic, as
exactly the nodes that the list stands for, whichever brackets its lists have. -/
theorem document_list (path : String) (brackets : Option Delimiter) {line : Line}
    (h : line.depth ≤ Grammar.maxDepth) :
    (document ⟨path, line.render brackets⟩).diagnostics = [] ∧
      (document ⟨path, line.render brackets⟩).root.map Tree.unplaced =
        some (.node 0 (.plain .file path) [] (line.trees brackets)) := by
  have hbytes : line.render brackets = (line.pieces brackets false).flatMap Piece.bytes :=
    (line.flatMap_pieces brackets false).symm
  rw [hbytes]
  refine document_flatMap path (line.apart_pieces brackets false).separate fun s hs => ?_
  rw [← List.append_nil (line.pieces brackets false)] at hs
  exact Grammar.exists_run_entries_line brackets line h hs (.document .top) fun _ => rfl

/-- A document that is a label with a list, written without brackets and with every list in curly
ones, is read without a diagnostic as trees that match, tags and their arguments included.  The
second is the first with curly brackets at the labels of the lists, and says the same otherwise. -/
theorem document_unbracketed (path : String) (tags : List Tag) (label : LabelText) (list : Line)
    (h : (Line.labeled tags label list).depth ≤ Grammar.maxDepth) :
    let bare := document ⟨path, (Line.labeled tags label list).render none⟩
    let braced := document ⟨path, (Line.labeled tags label list).render (some .brace)⟩
    bare.diagnostics = [] ∧ braced.diagnostics = [] ∧
      ∃ u s, bare.root = some u ∧ braced.root = some s ∧
        u.deepMatch { tags := true, arguments := true } s = true ∧
        s.unplaced = u.unplaced.braced ∧
        u.unplaced =
          .node 0 (.plain .file path) [] ((Line.labeled tags label list).trees none) ∧
        s.unplaced =
          .node 0 (.plain .file path) [] ((Line.labeled tags label list).trees (some .brace)) := by
  obtain ⟨hquiet, hroot⟩ := document_list path none h
  obtain ⟨hquiet', hroot'⟩ := document_list path (some .brace) h
  obtain ⟨u, hu, hunplaced⟩ := Option.map_eq_some_iff.1 hroot
  obtain ⟨s, hs, hunplaced'⟩ := Option.map_eq_some_iff.1 hroot'
  have hbraced : s.unplaced = u.unplaced.braced := by
    rw [hunplaced, hunplaced', Tree.braced, Line.bracedAll_trees]
    rfl
  refine ⟨hquiet, hquiet', u, s, hu, hs, ?_, hbraced, hunplaced, hunplaced'⟩
  rw [← Tree.deepMatch_unplaced, hbraced, Tree.deepMatch_braced]

/-- A list that holds a tagged set in brackets, and a tagged label with a list of its own. -/
def tagged : Line :=
  .cons (.set [.applied one [.leaf [] one none]] one .brace .bracket
      [.leaf [] one (some .comma), .set [] none .paren .paren [] none])
    (.labeled [.plain one] one (.cons (.leaf [] one) (.last (.leaf [] one))))

theorem document_unbracketed_tagged :
    (Line.labeled [] one tagged).render none =
        Utf8.ofString "1: @1( 1 ) 1:\x7b 1, ( ) ] @1 1: 1 1" ∧
      (Line.labeled [] one tagged).render (some .brace) =
        Utf8.ofString "1: \x7b @1( 1 ) 1:\x7b 1, ( ) ] @1 1: \x7b 1 1 \x7d \x7d" ∧
      (Line.labeled [] one tagged).depth ≤ Grammar.maxDepth ∧
      let bare := document ⟨"d", (Line.labeled [] one tagged).render none⟩
      let braced := document ⟨"d", (Line.labeled [] one tagged).render (some .brace)⟩
      bare.diagnostics = [] ∧ braced.diagnostics = [] ∧
        ∃ u s, bare.root = some u ∧ braced.root = some s ∧
          u.deepMatch { tags := true, arguments := true } s = true ∧
          s.unplaced = u.unplaced.braced ∧
          u.unplaced =
            .node 0 (.plain .file "d") [] ((Line.labeled [] one tagged).trees none) ∧
          s.unplaced =
            .node 0 (.plain .file "d") [] ((Line.labeled [] one tagged).trees (some .brace)) :=
  ⟨by decide, by decide, by decide, document_unbracketed "d" [] one tagged (by decide)⟩

end Parse

end Metadoc
