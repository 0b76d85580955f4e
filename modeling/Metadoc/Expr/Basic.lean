import Metadoc.Node.Facets

/-!
# Expressions

Arithmetic and types as trees of operations over atoms.

* `Expr.atom`, `Expr.binary`, `Expr.unary` and `Expr.array` build expressions;
* `Expr.display` writes one with every operation in brackets;
* `Expr.preorder` lists its parts.
-/

namespace Metadoc

/-- What an expression does. -/
inductive ExprKind where
  /-- Stands for itself. -/
  | atom
  /-- Addition. -/
  | add
  /-- Subtraction. -/
  | subtract
  /-- Multiplication. -/
  | multiply
  /-- Division. -/
  | divide
  /-- The remainder of division. -/
  | modulo
  /-- Change of sign.  The operand is on the left. -/
  | negate
  /-- The type of pointers to the type on the left. -/
  | pointer
  /-- The type of arrays of the type on the left, with the size on the right. -/
  | array
deriving DecidableEq, Repr

namespace ExprKind

/-- The name of a kind. -/
def name : ExprKind → String
  | atom => "Atom"
  | add => "Add"
  | subtract => "Subtract"
  | multiply => "Multiply"
  | divide => "Divide"
  | modulo => "Modulo"
  | negate => "Negate"
  | pointer => "Pointer"
  | array => "Array"

/-- Whether expressions of a kind are types. -/
def isType (kind : ExprKind) : Bool := kind = pointer || kind = array

end ExprKind

/-- The node that an atom was read from. -/
structure AtomOrigin where
  /-- The number of the node. -/
  node : Nat
  /-- The kind of its label. -/
  literal : Option LiteralKind
deriving DecidableEq, Repr

/-- An expression.  An operand that is not there is `missing`. -/
inductive Expr where
  | missing
  | node (kind : ExprKind) (text : String) (origin : Option AtomOrigin) (left right : Expr)
deriving DecidableEq, Repr

namespace Expr

/-- An atom that was not read from a document. -/
def atom (text : String) : Expr := node .atom text none missing missing

/-- An atom read from a node. -/
def atomOf (text : String) (origin : AtomOrigin) : Expr :=
  node .atom text (some origin) missing missing

/-- An operation on two operands. -/
def binary (kind : ExprKind) (left right : Expr) : Expr := node kind "" none left right

/-- An operation on one operand. -/
def unary (kind : ExprKind) (operand : Expr) : Expr := node kind "" none operand missing

/-- An array type, with a size or without. -/
def array (element : Expr) (size : Option Expr) : Expr :=
  node .array "" none element (size.getD missing)

/-- Whether an expression is there. -/
def isPresent : Expr → Bool
  | missing => false
  | node .. => true

/-- Number of parts of an expression. -/
def size : Expr → Nat
  | missing => 0
  | node _ _ _ l r => l.size + r.size + 1

/-- An expression and its parts, each before those on its left and those before the ones on its
right. -/
def preorder : Expr → List Expr
  | missing => []
  | node k t o l r => node k t o l r :: (l.preorder ++ r.preorder)

/-- The sign of a binary operation, with blanks around it. -/
def sign : ExprKind → String
  | .add => " + "
  | .subtract => " - "
  | .multiply => " * "
  | .divide => " / "
  | _ => " % "

/-- The text of an expression, with every operation on two operands in brackets. -/
def display : Expr → String
  | missing => "_"
  | node .atom text _ _ _ => text
  | node .negate _ _ l _ => "-" ++ l.display
  | node .pointer _ _ l _ => "*" ++ l.display
  | node .array _ _ l r =>
    "[" ++ (match r with | missing => "" | node .. => r.display) ++ "]" ++ l.display
  | node kind _ _ l r => "(" ++ l.display ++ sign kind ++ r.display ++ ")"

/-- Whether two expressions have the same kinds and texts throughout, wherever they were read. -/
def sameShape : Expr → Expr → Bool
  | missing, missing => true
  | node k t _ l r, node k' t' _ l' r' => k = k' && t = t' && sameShape l l' && sameShape r r'
  | _, _ => false

end Expr

end Metadoc
