import Metadoc.Expr.Basic

/-!
# Pools of expressions

A pool holds expressions under numbers, each built over earlier ones.  An expression may be an
operand of several others.

* `ExprPool.alloc` adds an expression;
* `ExprPool.expr` is the expression of a number as a tree.
-/

namespace Metadoc

/-- An expression of a pool, with its operands by number. -/
structure ExprRecord where
  /-- What it does. -/
  kind : ExprKind
  /-- The text of an atom. -/
  text : String := ""
  /-- The left operand. -/
  left : Option Nat := none
  /-- The right operand. -/
  right : Option Nat := none
deriving DecidableEq, Repr

/-- Expressions under their numbers. -/
structure ExprPool where
  /-- The expressions, in the order in which they were added. -/
  records : Array ExprRecord := #[]
deriving DecidableEq, Repr

namespace ExprPool

variable (pool : ExprPool)

/-- Number of expressions. -/
def size : Nat := pool.records.size

/-- Adds an expression.  Its number is the size before. -/
def alloc (record : ExprRecord) : ExprPool := ⟨pool.records.push record⟩

/-- An expression with its operands by number. -/
def record? (i : Nat) : Option ExprRecord := pool.records[i]?

/-- An operand among the expressions built before. -/
def operand (earlier : Array Expr) (i : Option Nat) : Expr := (i.bind (earlier[·]?)).getD .missing

/-- The expression of a record over those built before. -/
def build (earlier : Array Expr) (record : ExprRecord) : Expr :=
  .node record.kind record.text none (operand earlier record.left) (operand earlier record.right)

/-- The expressions of a pool as trees, by number. -/
def exprs : Array Expr :=
  pool.records.foldl (fun earlier record => earlier.push (build earlier record)) #[]

/-- The expression of a number as a tree; no number stands for a missing expression. -/
def expr (i : Option Nat) : Expr := operand pool.exprs i

end ExprPool

end Metadoc
