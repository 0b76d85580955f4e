import Metadoc.Proofs.Document.Pieces
import Metadoc.Proofs.Tree.Match

/-!
# Labels with a list behind them

A label with a colon has a list of entries behind it: without brackets, up to the end of the line,
or in brackets.

* `Outline.Item` is an entry that may stand in a list without brackets: a label or a labeled set
  in brackets, with its tags;
* `Outline.Line` is such a list; its last entry may be a label with a list of its own;
* `Line.render`, `Line.trees` and `Line.depth` say how a list is written, which nodes it stands for
  and how deep its sets lie, where every list has the same brackets or none;
* `Line.bracedAll_trees` : in curly brackets a list stands for the same nodes, with these brackets;
* `Line.flatMap_pieces` and `Line.apart_pieces` : a list falls into pieces, whose labels are ended
  by what is behind them.
-/

namespace Metadoc

/-- Whether an entry that has a label begins with a sign. -/
def Sign.leads : Sign → Bool
  | «at» | label _ => true
  | _ => false

theorem Sign.begins_of_leads {s : Sign} (h : s.leads = true) : s.begins = true := by
  cases s with
  | «at» | label t => rfl
  | opening d | closing d | separator sep | colon => cases h

namespace Outline

/-- An entry that may stand in a list without brackets. -/
inductive Item where
  /-- A label alone. -/
  | leaf (tags : List Tag) (label : LabelText)
  /-- A set in brackets, with its label. -/
  | set (tags : List Tag) (label : LabelText) (opened closed : Delimiter) (members : List Entry)

/-- What an item is as an entry: no separator comes after it. -/
def Item.entry : Item → Entry
  | .leaf tags label => .leaf tags label none
  | .set tags label opened closed members => .set tags (some label) opened closed members none

theorem Item.label?_entry (item : Item) : item.entry.label? ≠ none := by
  cases item <;> nofun

theorem Item.follower_entry (item : Item) : item.entry.follower = none := by
  cases item <;> rfl

/-- The entries of a list that may go without brackets. -/
inductive Line where
  /-- The last entry. -/
  | last (item : Item)
  /-- An entry with others behind it. -/
  | cons (item : Item) (rest : Line)
  /-- The last entry, a label with a list of its own. -/
  | labeled (tags : List Tag) (label : LabelText) (inner : Line)

/-! ### Writing -/

/-- A list, written down behind its colon and a space, in brackets if there are any. -/
def encloseBytes : Option Delimiter → Bytes → Bytes
  | none, bytes => bytes
  | some d, bytes => d.openByte :: space :: (bytes ++ [space, d.closeByte])

/-- A list, written down with a space between neighbours. -/
def Line.render (brackets : Option Delimiter) : Line → Bytes
  | .last item => item.entry.render
  | .cons item rest => item.entry.render ++ space :: rest.render brackets
  | .labeled tags label inner =>
    renderTags tags ++
      (label.bytes ++ labelMark :: space :: encloseBytes brackets (inner.render brackets))

/-- How many sets lie around the innermost entry of a list. -/
def Line.depth : Line → Nat
  | .last item => item.entry.depth
  | .cons item rest => max item.entry.depth rest.depth
  | .labeled tags _ inner => max (tagsDepth tags) (inner.depth + 1)

/-- The nodes that a list stands for. -/
def Line.trees (brackets : Option Delimiter) : Line → List Tree
  | .last item => [item.entry.tree]
  | .cons item rest => item.entry.tree :: rest.trees brackets
  | .labeled tags label inner =>
    [.node 0 (nodeData .main (some label.label) { opened := brackets, closed := brackets })
      (tagTrees tags) (inner.trees brackets)]

theorem Line.trees_ne_nil (brackets : Option Delimiter) (line : Line) :
    line.trees brackets ≠ [] := by
  cases line <;> exact List.cons_ne_nil _ _

/-! ### Brackets -/

mutual

theorem Entry.braced_tree (e : Entry) : e.tree.braced = e.tree := by
  cases e with
  | leaf tags label follower =>
    rw [Entry.tree, Tree.braced, NodeData.braced_nil, bracedAll_tagTrees tags, Tree.bracedAll]
  | set tags label opened closed members follower =>
    rw [Entry.tree, Tree.braced, bracedAll_tagTrees tags, bracedAll_trees members]
    cases label <;> rfl

theorem Tag.braced_tree (t : Tag) : t.tree.braced = t.tree := by
  cases t with
  | plain name => rfl
  | applied name arguments =>
    rw [Tag.tree, Tree.braced, bracedAll_trees arguments]
    rfl

theorem bracedAll_tagTrees (ts : List Tag) : Tree.bracedAll (tagTrees ts) = tagTrees ts := by
  cases ts with
  | nil => rfl
  | cons t ts => rw [tagTrees, Tree.bracedAll, t.braced_tree, bracedAll_tagTrees ts]

theorem bracedAll_trees (es : List Entry) (before : Option Separator) :
    Tree.bracedAll (trees before es) = trees before es := by
  cases es with
  | nil => rfl
  | cons e es =>
    rw [trees, Tree.bracedAll, Tree.braced_beside, e.braced_tree, bracedAll_trees es]

end

/-- In curly brackets a list stands for the same nodes, with these brackets. -/
theorem Line.bracedAll_trees (line : Line) :
    Tree.bracedAll (line.trees none) = line.trees (some .brace) := by
  induction line with
  | last item => rw [trees, trees, Tree.bracedAll, Entry.braced_tree, Tree.bracedAll]
  | cons item rest ih => rw [trees, trees, Tree.bracedAll, Entry.braced_tree, ih]
  | labeled tags label inner ih =>
    rw [trees, trees, Tree.bracedAll, Tree.braced, bracedAll_tagTrees, ih,
      NodeData.braced_of_ne_nil rfl rfl (inner.trees_ne_nil none)]
    rfl

/-! ### Pieces -/

/-- The pieces of a list behind its colon, in brackets if there are any. -/
def enclosePieces : Option Delimiter → List Piece → List Piece
  | none, ps => ps
  | some d, ps => ⟨true, .opening d⟩ :: (ps ++ [⟨true, .closing d⟩])

/-- The pieces of a list. -/
def Line.pieces (brackets : Option Delimiter) (spaced : Bool) : Line → List Piece
  | .last item => item.entry.pieces spaced
  | .cons item rest => item.entry.pieces spaced ++ rest.pieces brackets true
  | .labeled tags label inner =>
    tagsPieces spaced tags ++ (⟨spaced || !tags.isEmpty, .label label⟩ :: ⟨false, .colon⟩ ::
      enclosePieces brackets (inner.pieces brackets true))

theorem flatMap_enclosePieces (brackets : Option Delimiter) {ps : List Piece} {bytes : Bytes}
    (h : ps.flatMap Piece.bytes = space :: bytes) :
    (enclosePieces brackets ps).flatMap Piece.bytes = space :: encloseBytes brackets bytes := by
  cases brackets with
  | none => exact h
  | some d =>
    rw [enclosePieces, List.flatMap_cons, List.flatMap_append, h]
    rfl

/-- The pieces of a list, put together, are what it is written as. -/
theorem Line.flatMap_pieces (brackets : Option Delimiter) (line : Line) (spaced : Bool) :
    (line.pieces brackets spaced).flatMap Piece.bytes =
      Piece.gap spaced ++ line.render brackets := by
  induction line generalizing spaced with
  | last item => exact flatMap_entry_pieces item.entry spaced
  | cons item rest ih =>
    rw [pieces, render, List.flatMap_append, flatMap_entry_pieces, ih, List.append_assoc]
    rfl
  | labeled tags label inner ih =>
    have htags := flatMap_tagsPieces tags spaced
    rw [pieces, render, List.flatMap_append, List.flatMap_cons, List.flatMap_cons,
      flatMap_enclosePieces brackets (ih true)]
    simp only [Piece.bytes, Sign.bytes]
    rw [List.append_assoc, ← List.append_assoc, htags, List.append_assoc]
    rfl

/-! ### Neighbours -/

open Piece

theorem Item.pieces_eq_cons (item : Item) (spaced : Bool) :
    ∃ first ps, item.entry.pieces spaced = ⟨spaced, first⟩ :: ps ∧ first.leads = true := by
  have hcons (tags : List Tag) (label : LabelText) (ps : List Piece) : ∃ first qs,
      tagsPieces spaced tags ++ ⟨spaced || !tags.isEmpty, .label label⟩ :: ps =
        ⟨spaced, first⟩ :: qs ∧ first.leads = true := by
    obtain ⟨first, qs, hqs, rfl | rfl⟩ := tagsPieces_append_eq_cons tags spaced (.label label) ps
    · exact ⟨_, qs, hqs, rfl⟩
    · exact ⟨_, qs, hqs, rfl⟩
  cases item with
  | leaf tags label => exact hcons tags label _
  | set tags label opened closed members => exact hcons tags label _

theorem Line.pieces_eq_cons (brackets : Option Delimiter) (line : Line) (spaced : Bool) :
    ∃ first ps, line.pieces brackets spaced = ⟨spaced, first⟩ :: ps ∧ first.leads = true := by
  cases line with
  | last item => exact item.pieces_eq_cons spaced
  | cons item rest =>
    obtain ⟨first, ps, hps, hfirst⟩ := item.pieces_eq_cons spaced
    exact ⟨first, ps ++ rest.pieces brackets true, by rw [pieces, hps]; rfl, hfirst⟩
  | labeled tags label inner =>
    obtain ⟨first, ps, hps, rfl | rfl⟩ :=
      tagsPieces_append_eq_cons tags spaced (.label label) _
    · exact ⟨_, ps, hps, rfl⟩
    · exact ⟨_, ps, hps, rfl⟩

theorem Line.led_pieces (brackets : Option Delimiter) (line : Line) :
    Led (line.pieces brackets true) := by
  obtain ⟨first, ps, hps, -⟩ := line.pieces_eq_cons brackets true
  rw [hps]
  exact led_cons.2 rfl

theorem apart_enclosePieces (brackets : Option Delimiter) {ps : List Piece} (h : Apart ps) :
    Apart (enclosePieces brackets ps) := by
  cases brackets with
  | none => exact h
  | some d => exact apart_mark (.append h (List.isChain_singleton _) (led_cons.2 rfl)) rfl

/-- The labels of a list are ended by what is behind them. -/
theorem Line.apart_pieces (brackets : Option Delimiter) (line : Line) (spaced : Bool) :
    Apart (line.pieces brackets spaced) := by
  induction line generalizing spaced with
  | last item => exact apart_entry_pieces item.entry spaced
  | cons item rest ih =>
    exact .append (apart_entry_pieces item.entry spaced) (ih true) (rest.led_pieces brackets)
  | labeled tags label inner ih =>
    have hinner := apart_enclosePieces brackets (ih true)
    exact apart_tags_append tags spaced
      (apart_cons (apart_mark hinner rfl) (led_cons.2 rfl))

end Outline

end Metadoc
