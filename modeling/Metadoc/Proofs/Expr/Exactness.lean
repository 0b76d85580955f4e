import Metadoc.Expr.Evaluate
import Metadoc.Proofs.Number.Integer

/-!
# Evaluation over integers of 64 bits is exact

* `Expr.value?` is the value of an expression over all integers;
* `Expr.visited` lists the parts of an expression that evaluation comes to, each behind its
  operands, and `Expr.fault?` says what is wrong with one of them by itself;
* `Expr.evaluateInt_exact` : an expression of which no part has a fault has its exact value, and any
  other one has the first of the faults.
-/

namespace Metadoc

/-- The value of an atom over integers of 64 bits. -/
def Atom.evaluateInt (constants : OrderedMap Key.hash Int64) : Atom → Except EvalError Int64
  | number text => readInt text
  | name text => constant constants text
  | other text => .error (.notNumeric text)

namespace ExprKind

/-- Whether a kind joins two operands. -/
def joins : ExprKind → Bool
  | add | subtract | multiply | divide | modulo => true
  | atom | negate | pointer | array => false

/-- The result of joining two integers, without bounds.  Division goes toward zero, and a remainder
has the sign of what is divided. -/
def value? : ExprKind → Int → Int → Option Int
  | add, a, b => some (a + b)
  | subtract, a, b => some (a - b)
  | multiply, a, b => some (a * b)
  | divide, a, b => if b = 0 then none else some (a.tdiv b)
  | modulo, a, b => if b = 0 then none else some (a.tmod b)
  | _, _, _ => none

/-- What is wrong with an operation by itself, given its exact value and those of its operands.  The
remainder of the least integer by minus one is zero, but counts as too large. -/
def fault? (kind : ExprKind) (exact left right : Option Int) : Option EvalError :=
  if (kind = divide ∨ kind = modulo) ∧ right = some 0 then some .divisionByZero
  else if kind = modulo ∧ left = some (-2 ^ 63) ∧ right = some (-1) then some .overflow
  else if ∀ n ∈ exact, Integer.Fits n then none
  else some .overflow

end ExprKind

namespace Expr

variable (constants : OrderedMap Key.hash Int64)

/-- The value of an expression over the integers, without bounds.  Only atoms have to fit. -/
def value? : Expr → Option Int
  | missing => none
  | node kind text origin l r =>
    match kind with
    | .atom => ((Atom.classify text origin).evaluateInt constants).toOption.map Int64.toInt
    | .negate => (value? l).map (-·)
    | _ => (value? l).bind fun a => (value? r).bind fun b => kind.value? a b

/-- The parts of an expression that evaluation comes to, operands from left to right before the
operation.  It does not look into types. -/
def visited : Expr → List Expr
  | missing => [missing]
  | node kind text origin l r =>
    match kind with
    | .atom | .pointer | .array => [node kind text origin l r]
    | .negate => l.visited ++ [node kind text origin l r]
    | _ => l.visited ++ (r.visited ++ [node kind text origin l r])

/-- What is wrong with a part of an expression by itself: that it is missing, an atom without a
value, a type, or an operation with a fault. -/
def fault? : Expr → Option EvalError
  | missing => some .missingOperand
  | node kind text origin l r =>
    match kind with
    | .atom =>
      match (Atom.classify text origin).evaluateInt constants with
      | .ok _ => none
      | .error err => some err
    | .pointer | .array => some (.typeExpression kind)
    | _ =>
      kind.fault? ((node kind text origin l r).value? constants) (l.value? constants)
        (r.value? constants)

/-- Whether a result is the fault if there is one, and else the exact value. -/
def Settles (fault : Option EvalError) (exact : Option Int) : Except EvalError Int64 → Prop
  | .ok v => fault = none ∧ exact = some v.toInt
  | .error err => fault = some err

variable {constants} {kind : ExprKind} {text : String} {origin : Option AtomOrigin} {e l r : Expr}

/-! ### One operation -/

theorem settles_fitting (n : Int) :
    Settles (if Integer.Fits n then none else some .overflow) (some n) (fitting n) := by
  rw [fitting, Integer.checked?_eq]
  by_cases hfits : Integer.Fits n
  · rw [if_pos hfits, if_pos hfits]
    exact ⟨rfl, congrArg some (Integer.toInt_ofInt hfits).symm⟩
  · rw [if_neg hfits, if_neg hfits]
    rfl

theorem settles_negate (a : Int64) (right : Option Int) :
    Settles (ExprKind.negate.fault? (some (-a.toInt)) (some a.toInt) right) (some (-a.toInt))
      (fitting (-a.toInt)) := by
  simpa [ExprKind.fault?] using settles_fitting (-a.toInt)

theorem settles_applyInt (hkind : kind.joins = true) (a b : Int64) :
    Settles (kind.fault? (kind.value? a.toInt b.toInt) (some a.toInt) (some b.toInt))
      (kind.value? a.toInt b.toInt) (applyInt kind a b) := by
  have hzero : b = 0 ↔ b.toInt = 0 := by rw [← Int64.toInt_inj]; rfl
  have hone : b = -1 ↔ b.toInt = -1 := by rw [← Int64.toInt_inj]; rfl
  have hmin : a = Int64.minValue ↔ a.toInt = -2 ^ 63 := by
    rw [← Int64.toInt_inj, Int64.toInt_minValue]
  cases kind with
  | add | subtract | multiply =>
    simpa [ExprKind.fault?, ExprKind.value?, applyInt] using settles_fitting _
  | divide =>
    by_cases hb : b.toInt = 0
    · simp [ExprKind.fault?, applyInt, hzero, hb, Settles]
    · simpa [ExprKind.fault?, ExprKind.value?, applyInt, hzero, hb] using settles_fitting _
  | modulo =>
    by_cases hb : b.toInt = 0
    · simp [ExprKind.fault?, applyInt, hzero, hb, Settles]
    by_cases hleast : a.toInt = -2 ^ 63 ∧ b.toInt = -1
    · simp [ExprKind.fault?, applyInt, hzero, hone, hmin, hleast, Settles]
    · simpa [ExprKind.fault?, ExprKind.value?, applyInt, hzero, hone, hmin, hb, hleast,
        -Int.reducePow, -Int.reduceNeg] using settles_fitting _
  | atom | negate | pointer | array => cases hkind

/-! ### The parts of an operation -/

theorem evaluateInt_joins (h : kind.joins = true) :
    (node kind text origin l r).evaluateInt constants =
      match l.evaluateInt constants with
      | .error err => .error err
      | .ok a =>
        match r.evaluateInt constants with
        | .error err => .error err
        | .ok b => applyInt kind a b := by
  cases kind <;> first | rfl | cases h

theorem value?_joins (h : kind.joins = true) :
    (node kind text origin l r).value? constants =
      (l.value? constants).bind fun a => (r.value? constants).bind fun b => kind.value? a b := by
  cases kind <;> first | rfl | cases h

theorem visited_joins (h : kind.joins = true) :
    (node kind text origin l r).visited =
      l.visited ++ (r.visited ++ [node kind text origin l r]) := by
  cases kind <;> first | rfl | cases h

theorem fault?_joins (h : kind.joins = true) :
    (node kind text origin l r).fault? constants =
      kind.fault? ((node kind text origin l r).value? constants) (l.value? constants)
        (r.value? constants) := by
  cases kind <;> first | rfl | cases h

theorem fault?_negate :
    (node .negate text origin l r).fault? constants =
      ExprKind.negate.fault? ((node .negate text origin l r).value? constants)
        (l.value? constants) (r.value? constants) := rfl

/-! ### Whole expressions -/

theorem evaluateInt_atom :
    (node .atom text origin l r).evaluateInt constants =
      (Atom.classify text origin).evaluateInt constants := by
  rw [evaluateInt]
  cases Atom.classify text origin <;> rfl

theorem settles_atom :
    Settles ((node .atom text origin l r).visited.findSome? (fault? constants))
      ((node .atom text origin l r).value? constants)
      ((node .atom text origin l r).evaluateInt constants) := by
  rw [evaluateInt_atom, visited, List.findSome?_singleton, fault?, value?]
  cases (Atom.classify text origin).evaluateInt constants with
  | ok v => exact ⟨rfl, rfl⟩
  | error err => exact rfl

/-- The first fault of an expression and its exact value settle its result. -/
theorem settles (constants : OrderedMap Key.hash Int64) (e : Expr) :
    Settles (e.visited.findSome? (fault? constants)) (e.value? constants)
      (e.evaluateInt constants) := by
  -- By induction, the first fault of an operand is that of the whole, and operands without faults
  -- have their exact values, so that only the operation itself is left.
  induction e with
  | missing => exact rfl
  | node kind text origin l r ihl ihr =>
    by_cases hkind : kind.joins = true
    · rw [evaluateInt_joins hkind, visited_joins hkind, List.findSome?_append,
        List.findSome?_append, List.findSome?_singleton, fault?_joins hkind, value?_joins hkind]
      cases hl : l.evaluateInt constants with
      | error err =>
        have hfault : l.visited.findSome? (fault? constants) = some err := by rwa [hl] at ihl
        rw [hfault]
        exact rfl
      | ok a =>
        rw [hl] at ihl
        obtain ⟨hquiet, hexact⟩ := ihl
        cases hr : r.evaluateInt constants with
        | error err =>
          have hfault : r.visited.findSome? (fault? constants) = some err := by rwa [hr] at ihr
          rw [hquiet, hfault]
          exact rfl
        | ok b =>
          rw [hr] at ihr
          obtain ⟨hquiet', hexact'⟩ := ihr
          rw [hquiet, hquiet', hexact, hexact']
          exact settles_applyInt hkind a b
    cases kind with
    | atom => exact settles_atom
    | pointer | array => exact rfl
    | negate =>
      rw [evaluateInt, visited, List.findSome?_append, List.findSome?_singleton]
      cases hl : l.evaluateInt constants with
      | error err =>
        have hfault : l.visited.findSome? (fault? constants) = some err := by rwa [hl] at ihl
        rw [hfault]
        exact rfl
      | ok a =>
        rw [hl] at ihl
        obtain ⟨hquiet, hexact⟩ := ihl
        have hvalue : (node .negate text origin l r).value? constants = some (-a.toInt) := by
          rw [value?, hexact, Option.map_some]
        rw [hquiet, Option.none_or, fault?_negate, hvalue, hexact]
        exact settles_negate a _
    | _ => exact absurd rfl hkind

/-- Evaluation is exact.  An expression has a value if and only if no part of it that evaluation
comes to has a fault, and then that is the exact value.  Otherwise the error is the fault of the
first part that has one. -/
theorem evaluateInt_exact (constants : OrderedMap Key.hash Int64) (e : Expr) :
    (∀ v, e.evaluateInt constants = .ok v ↔
      (∀ p ∈ e.visited, p.fault? constants = none) ∧ e.value? constants = some v.toInt) ∧
    ∀ err, e.evaluateInt constants = .error err ↔
      e.visited.findSome? (fault? constants) = some err := by
  have hsettles := settles constants e
  simp only [← List.findSome?_eq_none_iff]
  generalize e.evaluateInt constants = result at hsettles
  cases result with
  | ok v =>
    obtain ⟨hquiet, hexact⟩ := hsettles
    rw [hquiet, hexact]
    simp [Int64.toInt_inj]
  | error err =>
    rw [show e.visited.findSome? (fault? constants) = some err from hsettles]
    simp

end Expr

end Metadoc
