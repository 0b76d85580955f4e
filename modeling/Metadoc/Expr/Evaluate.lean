import Metadoc.Expr.Basic
import Metadoc.Number.Integer
import Metadoc.Number.Decimal
import Metadoc.Number.Remainder
import Metadoc.OrderedMap.Basic
import Metadoc.Text.CharClass

/-!
# Evaluating expressions

* `Expr.evaluateInt` evaluates over integers of 64 bits: division goes toward zero, and a result
  that does not fit is an error;
* `Expr.evaluateFloat` evaluates over floating-point numbers, where division by zero is no error;
* `EvalError` says why an expression has no value, `EvalError.message` in words.

Of several errors the one met first counts, operands from left to right before the operation.
-/

namespace Metadoc

/-- Why an expression has no value. -/
inductive EvalError where
  /-- A name without a value. -/
  | unknownConstant (name : String)
  /-- An atom that is no number. -/
  | notNumeric (text : String)
  /-- A number that is no integer. -/
  | notInteger (text : String)
  /-- Division by zero. -/
  | divisionByZero
  /-- A result that does not fit. -/
  | overflow
  /-- A type has no value. -/
  | typeExpression (kind : ExprKind)
  /-- An operand that is not there. -/
  | missingOperand
deriving DecidableEq, Repr

/-- The wording of an error. -/
def EvalError.message : EvalError → String
  | .unknownConstant name => "unknown constant `" ++ name ++ "`"
  | .notNumeric text => "`" ++ text ++ "` is not a number"
  | .notInteger text => "`" ++ text ++ "` is not an integer"
  | .divisionByZero => "division by zero"
  | .overflow => "arithmetic overflow"
  | .typeExpression kind => "cannot evaluate a " ++ kind.name ++ " type expression"
  | .missingOperand => "expression is missing an operand"

/-- What an atom is. -/
inductive Atom where
  /-- A number. -/
  | number (text : String)
  /-- A name. -/
  | name (text : String)
  /-- Neither. -/
  | other (text : String)
deriving DecidableEq, Repr

/-- What an atom is: by the label of the node that it was read from, else by its first
character. -/
def Atom.classify (text : String) (origin : Option AtomOrigin) : Atom :=
  match origin with
  | some o =>
    if o.literal = some .numeric then .number text
    else if o.literal = some .identifier then .name text
    else .other text
  | none =>
    match text.toList with
    | [] => .other text
    | c :: _ =>
      if '0' ≤ c ∧ c ≤ '9' then .number text
      else if c = '_' ∨ CharClass.isAlphabetic c then .name text
      else .other text

/-- Whether a literal is written with a point or a power of ten. -/
def isFloatLiteral (cs : List Char) : Bool :=
  (Integer.radix? cs).isNone && cs.any fun c => c = '.' || c = 'e' || c = 'E'

/-- The integer that a literal writes. -/
def readInt (text : String) : Except EvalError Int64 :=
  if isFloatLiteral text.toList then .error (.notInteger text)
  else match Integer.read text.toList with
    | .ok v => .ok v
    | .error .overflow => .error .overflow
    | .error .malformed => .error (.notNumeric text)

/-- The floating-point number that a literal writes. -/
def readFloat (text : String) : Except EvalError Float :=
  if isFloatLiteral text.toList then
    match Decimal.parse? (Integer.dropGaps text.toList) with
    | some d => .ok d.toFloat
    | none => .error (.notNumeric text)
  else match readInt text with
    | .ok v => .ok (Float.ofInt v.toInt)
    | .error .overflow => .error .overflow
    | .error _ => .error (.notNumeric text)

/-- The value of a name. -/
def constant {α : Type} (constants : OrderedMap Key.hash α) (name : String) :
    Except EvalError α :=
  match constants.get? (.ofText name) with
  | some v => .ok v
  | none => .error (.unknownConstant name)

/-- An integer that has to fit into 64 bits. -/
def fitting (n : Int) : Except EvalError Int64 :=
  match Integer.checked? n with
  | some v => .ok v
  | none => .error .overflow

/-- The result of an operation on two integers. -/
def applyInt (kind : ExprKind) (a b : Int64) : Except EvalError Int64 :=
  match kind with
  | .add => fitting (a.toInt + b.toInt)
  | .subtract => fitting (a.toInt - b.toInt)
  | .multiply => fitting (a.toInt * b.toInt)
  | .divide => if b = 0 then .error .divisionByZero else fitting (a.toInt.tdiv b.toInt)
  | _ =>
    if b = 0 then .error .divisionByZero
    else if a = Int64.minValue ∧ b = -1 then .error .overflow
    else fitting (a.toInt.tmod b.toInt)

/-- The result of an operation on two floating-point numbers. -/
def applyFloat (kind : ExprKind) (a b : Float) : Float :=
  match kind with
  | .add => a + b
  | .subtract => a - b
  | .multiply => a * b
  | .divide => a / b
  | _ => Remainder.of a b

namespace Expr

/-- The value of an expression over integers of 64 bits. -/
def evaluateInt (constants : OrderedMap Key.hash Int64) : Expr → Except EvalError Int64
  | missing => .error .missingOperand
  | node kind text origin l r =>
    match kind with
    | .atom =>
      match Atom.classify text origin with
      | .number t => readInt t
      | .name t => constant constants t
      | .other t => .error (.notNumeric t)
    | .negate =>
      match evaluateInt constants l with
      | .error e => .error e
      | .ok v => fitting (-v.toInt)
    | .pointer | .array => .error (.typeExpression kind)
    | _ =>
      match evaluateInt constants l with
      | .error e => .error e
      | .ok a =>
        match evaluateInt constants r with
        | .error e => .error e
        | .ok b => applyInt kind a b

/-- The value of an expression over floating-point numbers. -/
def evaluateFloat (constants : OrderedMap Key.hash Float) : Expr → Except EvalError Float
  | missing => .error .missingOperand
  | node kind text origin l r =>
    match kind with
    | .atom =>
      match Atom.classify text origin with
      | .number t => readFloat t
      | .name t => constant constants t
      | .other t => .error (.notNumeric t)
    | .negate =>
      match evaluateFloat constants l with
      | .error e => .error e
      | .ok v => .ok (-v)
    | .pointer | .array => .error (.typeExpression kind)
    | _ =>
      match evaluateFloat constants l with
      | .error e => .error e
      | .ok a =>
        match evaluateFloat constants r with
        | .error e => .error e
        | .ok b => .ok (applyFloat kind a b)

end Expr

end Metadoc
