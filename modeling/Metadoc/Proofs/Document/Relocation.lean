import Metadoc.Document.Parse
import Metadoc.Proofs.Document.Run
import Metadoc.Proofs.Text.Utf8
import Mathlib.Order.MinMax

/-!
# The same reading in another place

A text may be read again as a part of another text, or with other blanks between its tokens.  Then
everything that is read is the same, except that positions have moved and nodes have other numbers.

* `Relocation` is where positions and numbers are found again;
* `Relocation.tree`, `Relocation.report`, … put what has been read in the other place;
* the productions that build nodes do so in both places alike: `Relocation.tree_dress`,
  `Relocation.tree_precede`, `Relocation.body_kind`.
-/

namespace Metadoc

/-- Where the positions and the node numbers of one reading are found in another. -/
structure Relocation where
  /-- Where a position is found. -/
  place : Nat → Nat
  /-- Under which number a node is found. -/
  number : Nat → Nat
  /-- Positions keep their order. -/
  mono : Monotone place

namespace Relocation

/-- Every position is found `n` bytes further on, and the nodes under other numbers. -/
def shift (n : Nat) (number : Nat → Nat) : Relocation :=
  ⟨(· + n), number, fun _ _ h => Nat.add_le_add_right h n⟩

variable (ρ : Relocation)

/-- A range in the other place. -/
def span (s : Span) : Span := ⟨ρ.place s.start, ρ.place s.stop⟩

/-- A lexeme in the other place. -/
def lexeme (l : Lexeme) : Lexeme := { l with start := ρ.place l.start }

/-- What a node says, in the other place. -/
def data (d : NodeData) : NodeData := { d with span := ρ.span d.span }

mutual

/-- A tree in the other place. -/
def tree : Tree → Tree
  | .node id d ts cs => .node (ρ.number id) (ρ.data d) (trees ts) (trees cs)

/-- Trees in the other place. -/
def trees : List Tree → List Tree
  | [] => []
  | t :: ts => tree t :: trees ts

end

/-- A node that stands for a fault in trivia, in the other place. -/
def stray (x : Nat × NodeData) : Nat × NodeData := (ρ.number x.1, ρ.data x.2)

/-- A report in the other place. -/
def report (r : Report) : Report := ⟨r.problem, ρ.span r.span, ρ.number r.node⟩

/-- A diagnostic in the other place. -/
def diagnostic (d : Diagnostic) : Diagnostic :=
  { d with span := ρ.span d.span, node := d.node.map ρ.number }

/-- The contents of a set in the other place. -/
def body (b : SetBody) : SetBody := { b with children := ρ.trees b.children }

/-- A part of the grammar in the other place. -/
def part : Grammar.Part → Grammar.Part
  | .bracketed id opened => .bracketed (ρ.number id) opened
  | .line id label => .line (ρ.number id) (ρ.span label)
  | .bare ctx tags => .bare ctx (ρ.trees tags)
  | p => p

@[simp] theorem trees_nil : ρ.trees [] = [] := rfl

@[simp] theorem trees_cons (t : Tree) (ts : List Tree) :
    ρ.trees (t :: ts) = ρ.tree t :: ρ.trees ts := rfl

theorem trees_eq_map (ts : List Tree) : ρ.trees ts = ts.map ρ.tree := by
  induction ts with
  | nil => rfl
  | cons t ts ih => rw [trees_cons, ih, List.map_cons]

@[simp] theorem trees_eq_nil {ts : List Tree} : ρ.trees ts = [] ↔ ts = [] := by
  cases ts <;> simp

theorem isEmpty_trees (ts : List Tree) : (ρ.trees ts).isEmpty = ts.isEmpty := by
  cases ts <;> rfl

theorem data_tree (t : Tree) : (ρ.tree t).data = ρ.data t.data := by
  cases t
  rfl

/-- What is asked of the roots of trees, positions apart, is the same in both places. -/
theorem any_trees {p : Tree → Bool} (h : ∀ t, p (ρ.tree t) = p t) (ts : List Tree) :
    (ρ.trees ts).any p = ts.any p := by
  rw [trees_eq_map, List.any_map]
  exact congrArg ts.any (funext h)

@[simp] theorem body_children (b : SetBody) : (ρ.body b).children = ρ.trees b.children := rfl

@[simp] theorem body_kind (b : SetBody) : (ρ.body b).kind = b.kind := rfl

@[simp] theorem symbol?_lexeme (l : Lexeme) : (ρ.lexeme l).symbol? = l.symbol? := rfl

@[simp] theorem isLabel_lexeme (l : Lexeme) : (ρ.lexeme l).isLabel = l.isLabel := rfl

@[simp] theorem label_lexeme (l : Lexeme) : (ρ.lexeme l).label = l.label := rfl

theorem tree_dress (pre : String) (ts : List Tree) (t : Tree) :
    ρ.tree (Grammar.dress pre ts t) = Grammar.dress pre (ρ.trees ts) (ρ.tree t) := by
  cases t
  rfl

theorem tree_precede (sep : Option Separator) (t : Tree) :
    ρ.tree (Grammar.precede sep t) = Grammar.precede sep (ρ.tree t) := by
  cases t
  rfl

theorem tree_withData (t : Tree) (d : NodeData) :
    ρ.tree (t.withData d) = (ρ.tree t).withData (ρ.data d) := by
  cases t
  rfl

/-- A lexeme is found in one piece. -/
def Rigid (l : Lexeme) : Prop := ∀ k ≤ l.length, ρ.place (l.start + k) = ρ.place l.start + k

variable {ρ} {l : Lexeme}

theorem Rigid.stop (h : ρ.Rigid l) : ρ.place l.stop = (ρ.lexeme l).stop := h l.length le_rfl

theorem Rigid.span (h : ρ.Rigid l) : (ρ.lexeme l).span = ρ.span l.span := by
  simp only [Token.span, Relocation.span, h.stop]
  rfl

/-- A fault of a lexeme is found in the same part of it. -/
theorem Rigid.faultSpan (h : ρ.Rigid l) (e : LexError) :
    (ρ.lexeme l).faultSpan e = ρ.span (l.faultSpan e) := by
  simp only [Lexeme.faultSpan, Relocation.span, h _ (Nat.min_le_right _ _)]
  rfl

/-- Bytes of a lexeme that are not UTF-8 are found in the same part of it. -/
theorem Rigid.invalidSpan? (h : ρ.Rigid l) :
    (ρ.lexeme l).invalidSpan? = l.invalidSpan?.map ρ.span := by
  have hbytes : (ρ.lexeme l).bytes = l.bytes := rfl
  unfold Lexeme.invalidSpan?
  rw [hbytes]
  cases hf : Utf8.firstInvalid? l.bytes with
  | none => rfl
  | some r =>
    obtain ⟨p, n⟩ := r
    have hle : p + n ≤ l.length := Utf8.firstInvalid?_le hf
    have hstart := h p (by omega)
    have hstop := h (p + n) hle
    simp only [Option.map_some, Relocation.span, hstart, Nat.add_assoc, hstop]
    rfl

end Relocation

end Metadoc
