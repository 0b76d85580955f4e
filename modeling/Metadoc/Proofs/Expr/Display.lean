import Metadoc.Proofs.Document.Compact
import Metadoc.Proofs.Text.Encoding
import Metadoc.Proofs.Token.Faults
import Metadoc.Expr.Parse

/-!
# What terms are displayed as

Terms are the expressions that are read from documents: arithmetic over names and numbers, and
types over names, numbers and sizes.

* `AtomText` is a text that is one name or one number by itself;
* `Term` is arithmetic, or a type, over such atoms, and `Term.expr` is the term as an expression;
* `Term.pieces` are the labels and brackets of a term, which make up its display
  (`Term.flatMap_pieces`) and stay apart in it (`Term.separate_append`);
* `Term.trees` are the nodes that they stand for (`Term.standFor`).
-/

namespace Metadoc

/-- A text that is one name or one number by itself. -/
structure AtomText where
  /-- The text. -/
  text : String
  /-- The token that it is. -/
  token : Token
  /-- The text is one token. -/
  alone : Token.all (Utf8.ofString text) 0 = [token]
  /-- The token is a name or a number. -/
  kind : token.kind = .identifier ∨ token.kind = .numeric

namespace AtomText

variable (a : AtomText)

theorem plain : a.token.style = none ∧ a.token.error = none :=
  Token.plain_of_kind (a.alone ▸ List.mem_singleton_self a.token) a.kind

/-- The text as a label. -/
def label : LabelText where
  bytes := Utf8.ofString a.text
  token := a.token
  alone := a.alone
  isLabel := by rcases a.kind with h | h <;> simp [Token.isLabel, Lexeme.isLabel, h]
  error := a.plain.2
  valid := Utf8.isValid_ofString a.text

theorem string_label : a.label.label.string = a.text := by
  simp only [LabelText.label, Lexeme.label, label, a.plain.1]
  exact Utf8.lossy_ofString a.text

theorem literal_label : a.label.label.literal ≠ .symbol := by
  rcases a.kind with h | h <;> simp [LabelText.label, Lexeme.label, label, a.plain.1, h]

end AtomText

namespace Operator

/-- The byte of an operator. -/
def byte : Operator → UInt8
  | plus => 0x2B
  | minus => 0x2D
  | star => 0x2A
  | slash => 0x2F
  | percent => 0x25

/-- An operator as a label. -/
def label (op : Operator) : LabelText where
  bytes := [op.byte]
  token := ⟨.symbol, 0, [op.byte], none, none⟩
  alone := by cases op <;> decide
  isLabel := by cases op <;> decide
  error := rfl
  valid := by cases op <;> decide

theorem string_label (op : Operator) : op.label.label.string = op.text := by
  cases op <;> decide

theorem ofString_sign (op : Operator) :
    Utf8.ofString (Expr.sign op.kind) = [Outline.space, op.byte, Outline.space] := by
  cases op <;> rfl

/-- A minus sign and a star are tokens of their own before anything; a slash may begin a comment. -/
theorem standsBefore_label {op : Operator} (h : op = .minus ∨ op = .star) (rest : Bytes) :
    (Sign.label op.label).StandsBefore rest := by
  rcases h with rfl | rfl <;> rfl

end Operator

/-- Arithmetic, or a type, over names and numbers. -/
inductive Term : ExprMode → Type where
  /-- An atom, which may have been read from a document. -/
  | atom {mode} (text : AtomText) (origin : Option AtomOrigin) : Term mode
  /-- A change of sign. -/
  | negate (operand : Term .expression) : Term .expression
  /-- An operation on two operands. -/
  | binary (op : Operator) (left right : Term .expression) : Term .expression
  /-- A pointer type. -/
  | pointer (pointee : Term .type) : Term .type
  /-- An array type without a size. -/
  | slice (element : Term .type) : Term .type
  /-- An array type with a size. -/
  | array (element : Term .type) (size : Term .expression) : Term .type

namespace Term

/-- The expression that a term is. -/
def expr {mode : ExprMode} : Term mode → Expr
  | atom a origin => .node .atom a.text origin .missing .missing
  | negate t => .unary .negate t.expr
  | binary op l r => .binary op.kind l.expr r.expr
  | pointer t => .unary .pointer t.expr
  | slice t => .array t.expr none
  | array t size => .array t.expr (some size.expr)

/-- The greatest number of operations on the way from the whole term to an atom. -/
def height {mode : ExprMode} : Term mode → Nat
  | atom _ _ => 0
  | negate t | pointer t | slice t => t.height + 1
  | binary _ l r => max l.height r.height + 1
  | array t size => max t.height size.height + 1

/-- The pieces of a term. -/
def pieces {mode : ExprMode} (spaced : Bool) : Term mode → List Piece
  | atom a _ => [⟨spaced, .label a.label⟩]
  | negate t => ⟨spaced, .label Operator.minus.label⟩ :: t.pieces false
  | binary op l r =>
    ⟨spaced, .opening .paren⟩ :: ((l.pieces false ++ ⟨true, .label op.label⟩ :: r.pieces true) ++
      [⟨false, .closing .paren⟩])
  | pointer t => ⟨spaced, .label Operator.star.label⟩ :: t.pieces false
  | slice t => ⟨spaced, .opening .bracket⟩ :: ⟨false, .closing .bracket⟩ :: t.pieces false
  | array t size =>
    ⟨spaced, .opening .bracket⟩ ::
      (size.pieces false ++ ⟨false, .closing .bracket⟩ :: t.pieces false)

/-- The nodes that the pieces of a term stand for, without numbers and places. -/
def trees {mode : ExprMode} : Term mode → List Tree
  | atom a _ => [.ofLabel a.label]
  | negate t => .ofLabel Operator.minus.label :: t.trees
  | binary op l r => [.ofSet .paren (l.trees ++ .ofLabel op.label :: r.trees)]
  | pointer t => .ofLabel Operator.star.label :: t.trees
  | slice t => .ofSet .bracket [] :: t.trees
  | array t size => .ofSet .bracket size.trees :: t.trees

variable {mode : ExprMode}

/-! ### The display -/

theorem ofString_negate (e : Expr) :
    Utf8.ofString (Expr.unary .negate e).display =
      Operator.minus.byte :: Utf8.ofString e.display :=
  Utf8.ofString_append "-" e.display

theorem ofString_pointer (e : Expr) :
    Utf8.ofString (Expr.unary .pointer e).display =
      Operator.star.byte :: Utf8.ofString e.display :=
  Utf8.ofString_append "*" e.display

theorem ofString_binary (op : Operator) (l r : Expr) :
    Utf8.ofString (Expr.binary op.kind l r).display =
      Delimiter.paren.openByte :: (Utf8.ofString l.display ++
        Outline.space :: op.byte :: Outline.space ::
          (Utf8.ofString r.display ++ [Delimiter.paren.closeByte])) := by
  have hdisplay : (Expr.binary op.kind l r).display =
      "(" ++ l.display ++ Expr.sign op.kind ++ r.display ++ ")" := by
    cases op <;> rfl
  have hopen : Utf8.ofString "(" = [Delimiter.paren.openByte] := rfl
  have hclose : Utf8.ofString ")" = [Delimiter.paren.closeByte] := rfl
  simp [hdisplay, Utf8.ofString_append, hopen, hclose, Operator.ofString_sign]

theorem ofString_slice (e : Expr) :
    Utf8.ofString (Expr.array e none).display =
      Delimiter.bracket.openByte :: Delimiter.bracket.closeByte :: Utf8.ofString e.display :=
  Utf8.ofString_append "[]" e.display

theorem ofString_array (e : Expr) (size : Term mode) :
    Utf8.ofString (Expr.array e (some size.expr)).display =
      Delimiter.bracket.openByte :: (Utf8.ofString size.expr.display ++
        Delimiter.bracket.closeByte :: Utf8.ofString e.display) := by
  have hdisplay : (Expr.array e (some size.expr)).display =
      "[" ++ size.expr.display ++ "]" ++ e.display := by
    cases size <;> rfl
  have hopen : Utf8.ofString "[" = [Delimiter.bracket.openByte] := rfl
  have hclose : Utf8.ofString "]" = [Delimiter.bracket.closeByte] := rfl
  simp [hdisplay, Utf8.ofString_append, hopen, hclose]

/-- The pieces of a term, put together, are its display. -/
theorem flatMap_pieces (t : Term mode) (spaced : Bool) :
    (t.pieces spaced).flatMap Piece.bytes =
      Piece.gap spaced ++ Utf8.ofString t.expr.display := by
  induction t generalizing spaced with
  | atom a origin => simp [pieces, expr, Expr.display, Piece.bytes, Sign.bytes, AtomText.label]
  | negate t ih =>
    simp [pieces, expr, ofString_negate, ih, Piece.bytes, Sign.bytes, Operator.label, Piece.gap]
  | binary op l r ihl ihr =>
    simp [pieces, expr, ofString_binary, ihl, ihr, Piece.bytes, Sign.bytes, Sign.mark?,
      Operator.label, Piece.gap]
  | pointer t ih =>
    simp [pieces, expr, ofString_pointer, ih, Piece.bytes, Sign.bytes, Operator.label, Piece.gap]
  | slice t ih =>
    simp [pieces, expr, ofString_slice, ih, Piece.bytes, Sign.bytes, Sign.mark?, Piece.gap]
  | array t size ih ihs =>
    simp [pieces, expr, ofString_array, ih, ihs, Piece.bytes, Sign.bytes, Sign.mark?, Piece.gap]

/-! ### The tokens of the display -/

theorem bounded_pieces (t : Term mode) (more : List Piece) :
    Scan.Bounded ((t.pieces true ++ more).flatMap Piece.bytes) := by
  have hcons : ∃ sign ps, t.pieces true = ⟨true, sign⟩ :: ps := by
    cases t <;> exact ⟨_, _, rfl⟩
  obtain ⟨sign, ps, hps⟩ := hcons
  rw [hps, List.cons_append]
  exact Piece.bounded_flatMap rfl _

/-- The pieces of a term stay apart, and so do those behind it that end names. -/
theorem separate_append (t : Term mode) (spaced : Bool) {more : List Piece}
    (hmore : Piece.Separate more) (hbounded : Scan.Bounded (more.flatMap Piece.bytes)) :
    Piece.Separate (t.pieces spaced ++ more) := by
  -- What comes behind a part of a term is the rest of the term, which ends names as well.
  induction t generalizing spaced more with
  | atom a origin => exact .cons (Sign.standsBefore _ fun _ => hbounded) hmore
  | negate t ih =>
    exact .cons (Operator.standsBefore_label (.inl rfl) _) (ih false hmore hbounded)
  | binary op l r ihl ihr =>
    rw [pieces, List.cons_append, List.append_assoc, List.append_assoc, List.cons_append]
    -- The operator has a space on both sides, so a slash cannot begin a comment.
    have hclose : Piece.Separate ([⟨false, .closing .paren⟩] ++ more) :=
      .cons (Sign.standsBefore _ nofun) hmore
    have hright := ihr true hclose (Piece.bounded_flatMap rfl more)
    have hop := Piece.Separate.cons (p := ⟨true, .label op.label⟩)
      (Sign.standsBefore _ fun _ => r.bounded_pieces _) hright
    exact .cons (Sign.standsBefore _ nofun) (ihl false hop (Piece.bounded_flatMap rfl _))
  | pointer t ih =>
    exact .cons (Operator.standsBefore_label (.inr rfl) _) (ih false hmore hbounded)
  | slice t ih =>
    exact .cons (Sign.standsBefore _ nofun)
      (.cons (Sign.standsBefore _ nofun) (ih false hmore hbounded))
  | array t size ih ihs =>
    rw [pieces, List.cons_append, List.append_assoc, List.cons_append]
    have hclose : Piece.Separate (⟨false, .closing .bracket⟩ :: (t.pieces false ++ more)) :=
      .cons (Sign.standsBefore _ nofun) (ih false hmore hbounded)
    exact .cons (Sign.standsBefore _ nofun) (ihs false hclose (Piece.bounded_flatMap rfl _))

/-! ### The nodes of the display -/

/-- The pieces of a term stand for its nodes. -/
theorem standFor (t : Term mode) (spaced : Bool) {n : Nat} (h : t.height ≤ n) :
    Piece.StandFor n (t.pieces spaced) t.trees := by
  induction t generalizing spaced n with
  | atom a origin => exact .one spaced a.label
  | negate t ih | pointer t ih => exact .label spaced _ (ih false (Nat.le_of_succ_le h))
  | binary op l r ihl ihr =>
    obtain ⟨n, rfl⟩ := Nat.exists_eq_add_one_of_ne_zero (Nat.ne_zero_of_lt h)
    obtain ⟨hl, hr⟩ := Nat.max_le.1 (Nat.le_of_succ_le_succ h)
    exact .set spaced false .paren ((ihl false hl).append (.label true _ (ihr true hr))) .nil
  | slice t ih =>
    obtain ⟨n, rfl⟩ := Nat.exists_eq_add_one_of_ne_zero (Nat.ne_zero_of_lt h)
    exact .set spaced false .bracket .nil (ih false (Nat.le_of_succ_le h))
  | array t size ih ihs =>
    obtain ⟨n, rfl⟩ := Nat.exists_eq_add_one_of_ne_zero (Nat.ne_zero_of_lt h)
    obtain ⟨ht, hsize⟩ := Nat.max_le.1 (Nat.le_of_succ_le_succ h)
    exact .set spaced false .bracket (ihs false hsize) (ih false (Nat.le_succ_of_le ht))

end Term

end Metadoc
