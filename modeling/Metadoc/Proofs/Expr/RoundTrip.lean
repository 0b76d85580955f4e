import Metadoc.Proofs.Expr.Display
import Metadoc.Proofs.Expr.Types

/-!
# Terms are read back from their display

* `Tree.IsLabel` and `Tree.of_unplaced_ofSet` say how expressions see the nodes of a displayed term;
* `Term.exists_means` : whatever its numbers and places are, the nodes mean the term again;
* `ExprParse.read_display` : the display of a term in round brackets is read as one set, and its
  members are read as the term, both without a diagnostic.
-/

namespace Metadoc

open ExprGrammar (Means MeansType MeansBy)

/-! ### Nodes as expressions see them -/

namespace Tree

variable {t : Tree} {ts us vs : List Tree} {l : LabelText} {d : Delimiter}

theorem unplacedAll_eq_map (ts : List Tree) : unplacedAll ts = ts.map unplaced := by
  induction ts with
  | nil => rfl
  | cons t ts ih => rw [unplacedAll, ih, List.map_cons]

theorem exists_of_unplacedAll_cons {u : Tree} (h : unplacedAll ts = u :: us) :
    ∃ t rest, ts = t :: rest ∧ t.unplaced = u ∧ unplacedAll rest = us := by
  rw [unplacedAll_eq_map] at h
  obtain ⟨t, rest, rfl, ht, hrest⟩ := List.map_eq_cons_iff.1 h
  exact ⟨t, rest, rfl, ht, by rw [unplacedAll_eq_map, hrest]⟩

theorem exists_of_unplacedAll_singleton {u : Tree} (h : unplacedAll ts = [u]) :
    ∃ t, ts = [t] ∧ t.unplaced = u := by
  obtain ⟨t, rest, rfl, ht, hrest⟩ := exists_of_unplacedAll_cons h
  rw [unplacedAll_eq_map, List.map_eq_nil_iff] at hrest
  exact ⟨t, by rw [hrest], ht⟩

theorem exists_of_unplacedAll_append (h : unplacedAll ts = us ++ vs) :
    ∃ before behind, ts = before ++ behind ∧ unplacedAll before = us ∧
      unplacedAll behind = vs := by
  rw [unplacedAll_eq_map] at h
  obtain ⟨before, behind, rfl, hbefore, hbehind⟩ := List.map_eq_append_iff.1 h
  exact ⟨before, behind, rfl, by rw [unplacedAll_eq_map, hbefore],
    by rw [unplacedAll_eq_map, hbehind]⟩

theorem isLeaf_of_unplacedAll (h : unplacedAll t.children = us) : t.isLeaf = us.isEmpty := by
  rw [isLeaf, ← h, unplacedAll_eq_map, List.isEmpty_map]

/-- What the node of a label alone is. -/
structure IsLabel (t : Tree) (l : LabelText) : Prop where
  /-- It is no error. -/
  kind : t.data.kind ≠ .error
  /-- Nothing is in it. -/
  leaf : t.isLeaf = true
  /-- It has the kind of the label. -/
  literal : t.data.facets.literal = some l.label.literal
  /-- It has the text of the label. -/
  string : t.data.string = l.label.string

theorem isLabel_of_unplaced (h : t.unplaced = .ofLabel l) : t.IsLabel l := by
  obtain ⟨id, d, tags, children⟩ := t
  simp only [unplaced, ofLabel, node.injEq, true_and] at h
  obtain ⟨hd, -, hchildren⟩ := h
  rw [unplacedAll_eq_map, List.map_eq_nil_iff] at hchildren
  have hkind : d.kind = .main := congrArg NodeData.kind hd
  exact ⟨by simp [data, hkind], by simp [isLeaf, Tree.children, hchildren],
    congrArg (·.facets.literal) hd, congrArg NodeData.string hd⟩

theorem IsLabel.unlabeledSet? (h : t.IsLabel l) : t.unlabeledSet? = none := by
  simp [Tree.unlabeledSet?, h.literal]

theorem IsLabel.ofNode?_atom {a : AtomText} (h : t.IsLabel a.label) :
    Operator.ofNode? t = none := by
  simp [Operator.ofNode?, h.literal, a.literal_label]

theorem IsLabel.ofNode?_operator {op : Operator} (h : t.IsLabel op.label) :
    Operator.ofNode? t = some op := by
  have hliteral : op.label.label.literal = .symbol := rfl
  rw [Operator.ofNode?, h.literal, hliteral, if_pos ⟨rfl, h.leaf⟩, h.string, op.string_label]
  cases op <;> decide

/-- What the node of a set without a label is. -/
theorem of_unplaced_ofSet (h : t.unplaced = .ofSet d us) :
    t.unlabeledSet? = some d ∧ unplacedAll t.children = us := by
  obtain ⟨id, data, tags, children⟩ := t
  simp only [unplaced, ofSet, node.injEq, true_and] at h
  obtain ⟨hd, -, hchildren⟩ := h
  have hkind : data.kind = .main := congrArg NodeData.kind hd
  have hliteral : data.facets.literal = none := congrArg (·.facets.literal) hd
  have hopened : data.facets.opened = some d := congrArg (·.facets.opened) hd
  exact ⟨by simp [unlabeledSet?, Tree.data, hkind, hliteral, hopened], hchildren⟩

end Tree

/-! ### What the nodes of a term mean -/

namespace ExprGrammar

theorem Means.binary {n : Nat} {ts us : List Tree} {o : Tree} {op : Operator} {e e' : Expr}
    (h : Means .unary n ts e) (ho : Operator.ofNode? o = some op) (h' : Means .unary n us e') :
    Means .sum n (ts ++ o :: us) (.binary op.kind e e') := by
  by_cases htight : op.isTight = true
  · exact .term (.times (.factor h) ho htight h')
  · exact .plus (.term (.factor h)) ho (Bool.eq_false_iff.2 htight) (.factor h')

theorem MeansBy.atom {n : Nat} {t : Tree} {mode : ExprMode} (hkind : t.data.kind ≠ .error)
    (hleaf : t.isLeaf = true) (ht : Operator.ofNode? t = none) (hset : t.unlabeledSet? = none) :
    MeansBy n [t] (.atomOf t.data.string ⟨t.id, t.data.facets.literal⟩) mode := by
  cases mode with
  | expression => exact Means.atom hkind hleaf ht hset
  | type => exact MeansType.atom hkind hleaf ht hset

end ExprGrammar

namespace Term

variable {mode : ExprMode}

theorem trees_ne_nil (t : Term mode) : t.trees ≠ [] := by
  cases t <;> exact List.cons_ne_nil _ _

/-- Nodes like those that a term is displayed as mean the term again, up to where its atoms come
from. -/
theorem exists_means (t : Term mode) {n : Nat} (h : t.height ≤ n) {ts : List Tree}
    (hts : Tree.unplacedAll ts = t.trees) :
    ∃ e, MeansBy n ts e mode ∧ e.sameShape t.expr = true := by
  -- The atoms of `e` come from the nodes `ts`, those of the term from anywhere or from nowhere.
  induction t generalizing n ts with
  | atom a origin =>
    obtain ⟨t, rfl, ht⟩ := Tree.exists_of_unplacedAll_singleton hts
    have hlabel := Tree.isLabel_of_unplaced ht
    refine ⟨_, .atom hlabel.kind hlabel.leaf hlabel.ofNode?_atom hlabel.unlabeledSet?, ?_⟩
    simp [Expr.atomOf, expr, Expr.sameShape, hlabel.string, a.string_label]
  | negate t ih =>
    obtain ⟨n, rfl⟩ := Nat.exists_eq_add_one_of_ne_zero (Nat.ne_zero_of_lt h)
    obtain ⟨o, rest, rfl, ho, hrest⟩ := Tree.exists_of_unplacedAll_cons hts
    obtain ⟨e, hmeans, hshape⟩ := ih (Nat.le_of_succ_le_succ h) hrest
    exact ⟨.unary .negate e, Means.minus (Tree.isLabel_of_unplaced ho).ofNode?_operator hmeans,
      by simp [Expr.unary, expr, Expr.sameShape, hshape]⟩
  | binary op l r ihl ihr =>
    obtain ⟨n, rfl⟩ := Nat.exists_eq_add_one_of_ne_zero (Nat.ne_zero_of_lt h)
    obtain ⟨hl, hr⟩ := Nat.max_le.1 (Nat.le_of_succ_le_succ h)
    obtain ⟨set, rfl, hset⟩ := Tree.exists_of_unplacedAll_singleton hts
    obtain ⟨hparen, hinside⟩ := Tree.of_unplaced_ofSet hset
    have hleaf := Tree.isLeaf_of_unplacedAll hinside
    obtain ⟨before, behind, hchildren, hbefore, hbehind⟩ :=
      Tree.exists_of_unplacedAll_append hinside
    obtain ⟨o, rest, rfl, ho, hrest⟩ := Tree.exists_of_unplacedAll_cons hbehind
    obtain ⟨e, hmeans, hshape⟩ := ihl hl hbefore
    obtain ⟨e', hmeans', hshape'⟩ := ihr hr hrest
    have hboth := Means.binary hmeans (Tree.isLabel_of_unplaced ho).ofNode?_operator hmeans'
    rw [← hchildren] at hboth
    exact ⟨.binary op.kind e e', Means.parens hparen (by simp [hleaf]) hboth,
      by simp [Expr.binary, expr, Expr.sameShape, hshape, hshape']⟩
  | pointer t ih =>
    obtain ⟨n, rfl⟩ := Nat.exists_eq_add_one_of_ne_zero (Nat.ne_zero_of_lt h)
    obtain ⟨o, rest, rfl, ho, hrest⟩ := Tree.exists_of_unplacedAll_cons hts
    obtain ⟨e, hmeans, hshape⟩ := ih (Nat.le_of_succ_le_succ h) hrest
    exact ⟨.unary .pointer e,
      MeansType.pointer (Tree.isLabel_of_unplaced ho).ofNode?_operator hmeans,
      by simp [Expr.unary, expr, Expr.sameShape, hshape]⟩
  | slice t ih =>
    obtain ⟨n, rfl⟩ := Nat.exists_eq_add_one_of_ne_zero (Nat.ne_zero_of_lt h)
    obtain ⟨set, rest, rfl, hset, hrest⟩ := Tree.exists_of_unplacedAll_cons hts
    obtain ⟨hbracket, hinside⟩ := Tree.of_unplaced_ofSet hset
    obtain ⟨e, hmeans, hshape⟩ := ih (Nat.le_of_succ_le_succ h) hrest
    exact ⟨.array e none, MeansType.slice hbracket (Tree.isLeaf_of_unplacedAll hinside) hmeans,
      by simp [Expr.array, expr, Expr.sameShape, hshape]⟩
  | array t size ih ihs =>
    obtain ⟨n, rfl⟩ := Nat.exists_eq_add_one_of_ne_zero (Nat.ne_zero_of_lt h)
    obtain ⟨ht, hsize⟩ := Nat.max_le.1 (Nat.le_of_succ_le_succ h)
    obtain ⟨set, rest, rfl, hset, hrest⟩ := Tree.exists_of_unplacedAll_cons hts
    obtain ⟨hbracket, hinside⟩ := Tree.of_unplaced_ofSet hset
    have hleaf := Tree.isLeaf_of_unplacedAll hinside
    rw [List.isEmpty_eq_false_iff.2 size.trees_ne_nil] at hleaf
    obtain ⟨e, hmeans, hshape⟩ := ih ht hrest
    obtain ⟨e', hmeans', hshape'⟩ := ihs hsize hinside
    exact ⟨.array e (some e'),
      MeansType.array hbracket hleaf (.term (.factor hmeans')) hmeans,
      by simp [Expr.array, expr, Expr.sameShape, hshape, hshape']⟩

theorem ofString_enclosed (t : Term mode) :
    Utf8.ofString ("(" ++ t.expr.display ++ ")") =
      (⟨false, .opening .paren⟩ :: (t.pieces false ++ [⟨false, .closing .paren⟩])).flatMap
        Piece.bytes := by
  have hopen : Utf8.ofString "(" = [Delimiter.paren.openByte] := rfl
  have hclose : Utf8.ofString ")" = [Delimiter.paren.closeByte] := rfl
  simp [Utf8.ofString_append, hopen, hclose, t.flatMap_pieces, Piece.bytes, Sign.bytes,
    Sign.mark?, Piece.gap]

theorem separate_enclosed (t : Term mode) :
    Piece.Separate
      (⟨false, .opening .paren⟩ :: (t.pieces false ++ [⟨false, .closing .paren⟩])) := by
  have hclose : Piece.Separate [⟨false, .closing .paren⟩] :=
    .cons (Sign.standsBefore _ nofun) .nil
  have hinside := t.separate_append false hclose (Piece.bounded_flatMap rfl [])
  exact .cons (Sign.standsBefore _ nofun) hinside

end Term

namespace ExprParse

/-- A term with at most 127 operations on the way to any atom is read back from its display: in
round brackets it is one set without faults, whose members are read as the same expression. -/
theorem read_display {mode : ExprMode} (t : Term mode) (h : t.height ≤ 127) :
    ∃ root first rest e,
      (Parse.oneNode (Utf8.ofString ("(" ++ t.expr.display ++ ")")) 0).diagnostics = [] ∧
      (Parse.oneNode (Utf8.ofString ("(" ++ t.expr.display ++ ")")) 0).root = some root ∧
      root.children = first :: rest ∧
      (read mode first rest).diagnostics = [] ∧
      (read mode first rest).root = some e ∧
      e.sameShape t.expr = true := by
  obtain ⟨root, hquiet, hroot, hset⟩ :=
    Parse.oneNode_set (t.standFor false h) rfl false .paren t.separate_enclosed
  obtain ⟨-, hchildren⟩ := Tree.of_unplaced_ofSet hset
  obtain ⟨e, hmeans, hshape⟩ := t.exists_means (n := ExprGrammar.maxDepth)
    (Nat.le_succ_of_le h) hchildren
  have hne : root.children ≠ [] := by
    intro hnil
    rw [hnil] at hchildren
    exact t.trees_ne_nil hchildren.symm
  obtain ⟨first, rest, hcons⟩ := List.exists_cons_of_ne_nil hne
  rw [hcons] at hmeans
  obtain ⟨hreports, hvalue⟩ := read_of_means hmeans
  rw [← t.ofString_enclosed] at hquiet hroot
  exact ⟨root, first, rest, e, hquiet, hroot, hcons, hreports, hvalue, hshape⟩

/-- The name `T`. -/
def elementText : AtomText := ⟨"T", ⟨.identifier, 0, [0x54], none, none⟩, rfl, .inl rfl⟩

/-- The name `n`. -/
def countText : AtomText := ⟨"n", ⟨.identifier, 0, [0x6E], none, none⟩, rfl, .inl rfl⟩

/-- The number `1e`, which would take a sign and a digit behind it along. -/
def exponentText : AtomText := ⟨"1e", ⟨.numeric, 0, [0x31, 0x65], none, none⟩, rfl, .inr rfl⟩

/-- A type whose size has signs next to each other and next to a number that ends in `e`. -/
def sized : Term .type :=
  .pointer (.array (.atom elementText none)
    (.binary .minus (.atom exponentText none) (.negate (.negate (.atom countText none)))))

example : sized.expr.display = "*[(1e - --n)]T" := by decide

theorem read_display_sized :
    sized.height ≤ 127 ∧
      ∃ root first rest e,
        (Parse.oneNode (Utf8.ofString ("(" ++ sized.expr.display ++ ")")) 0).diagnostics = [] ∧
        (Parse.oneNode (Utf8.ofString ("(" ++ sized.expr.display ++ ")")) 0).root = some root ∧
        root.children = first :: rest ∧
        (read .type first rest).diagnostics = [] ∧
        (read .type first rest).root = some e ∧
        e.sameShape sized.expr = true :=
  ⟨by decide, read_display sized (by decide)⟩

end ExprParse

end Metadoc
