import Metadoc.Proofs.Expr.Exactness
import Metadoc.Proofs.OrderedMap.Refinement

/-!
# The two evaluations agree

Evaluation over floating-point numbers goes the way of evaluation over integers, but its arithmetic
has no errors, and it reads literals that are no integers.

* `EvalError.isStructural` tells the errors that an expression has whatever it is evaluated over
  from those of integers alone;
* `Expr.Agrees` compares the results of the two evaluations, and `Expr.Agrees.andThen` those of
  computations that go on behind results that agree;
* `Expr.evaluateFloat_agrees` : where one has a value the other has one, and where one has an error
  that is structural the other has the same.
-/

namespace Metadoc

/-- Whether an error says that an expression has no value at all, and not only that there is no
integer of 64 bits. -/
def EvalError.isStructural : EvalError → Bool
  | unknownConstant _ | notNumeric _ | typeExpression _ | missingOperand => true
  | notInteger _ | divisionByZero | overflow => false

/-- The value of an atom over floating-point numbers. -/
def Atom.evaluateFloat (constants : OrderedMap Key.hash Float) : Atom → Except EvalError Float
  | number text => readFloat text
  | name text => constant constants text
  | other text => .error (.notNumeric text)

namespace Expr

/-- Whether the result of an evaluation over integers and that of one over floating-point numbers
agree: in having a value, or in their error, unless it is one of integers alone. -/
inductive Agrees : Except EvalError Int64 → Except EvalError Float → Prop
  /-- Both have a value. -/
  | ok {n x} : Agrees (.ok n) (.ok x)
  /-- Both have the same error. -/
  | error {err} : Agrees (.error err) (.error err)
  /-- The first has an error that the second need not have. -/
  | integer {err result} (h : err.isStructural = false) : Agrees (.error err) result

variable {ints : OrderedMap Key.hash Int64} {floats : OrderedMap Key.hash Float}
  {kind : ExprKind} {text : String} {origin : Option AtomOrigin} {l r : Expr}

/-- What goes on behind results that agree agrees if it does so behind values. -/
theorem Agrees.andThen {a : Except EvalError Int64} {b : Except EvalError Float}
    {f : Int64 → Except EvalError Int64} {g : Float → Except EvalError Float}
    (hfg : ∀ n x, Agrees (f n) (g x)) : Agrees a b →
      Agrees (match a with | .error err => .error err | .ok n => f n)
        (match b with | .error err => .error err | .ok x => g x) := by
  intro h
  cases h with
  | ok => exact hfg _ _
  | error => exact .error
  | integer h => exact .integer h

/-! ### Atoms -/

/-- A literal that is read as an integer is read as a floating-point number, too. -/
theorem agrees_read (text : String) : Agrees (readInt text) (readFloat text) := by
  unfold readFloat
  by_cases hfloat : isFloatLiteral text.toList = true
  · rw [readInt, if_pos hfloat]
    exact .integer rfl
  · rw [if_neg hfloat, readInt, if_neg hfloat]
    cases Integer.read text.toList with
    | ok n => exact .ok
    | error fault =>
      cases fault with
      | malformed => exact .error
      | overflow => exact .error

theorem isSome_get? {α : Type} (constants : OrderedMap Key.hash α) (key : Key) :
    (constants.get? key).isSome = constants.contains key := Option.isSome_map

theorem agrees_constant (hkeys : ∀ key, ints.contains key = floats.contains key) (name : String) :
    Agrees (constant ints name) (constant floats name) := by
  have hname := hkeys (.ofText name)
  rw [← isSome_get?, ← isSome_get?] at hname
  unfold constant
  cases hint : ints.get? (.ofText name) with
  | none =>
    rw [hint] at hname
    have hnone : floats.get? (.ofText name) = none := by
      rw [← Option.not_isSome_iff_eq_none, ← hname]
      exact Bool.false_ne_true
    rw [hnone]
    exact .error
  | some n =>
    rw [hint] at hname
    obtain ⟨x, hx⟩ := Option.isSome_iff_exists.1 hname.symm
    rw [hx]
    exact .ok

theorem agrees_atom (hkeys : ∀ key, ints.contains key = floats.contains key) (a : Atom) :
    Agrees (a.evaluateInt ints) (a.evaluateFloat floats) := by
  cases a with
  | number text => exact agrees_read text
  | name text => exact agrees_constant hkeys text
  | other text => exact .error

/-! ### Operations -/

theorem agrees_fitting (n : Int) (x : Float) : Agrees (fitting n) (.ok x) := by
  unfold fitting
  cases Integer.checked? n with
  | some v => exact .ok
  | none => exact .integer rfl

theorem agrees_applyInt (hkind : kind.joins = true) (a b : Int64) (x : Float) :
    Agrees (applyInt kind a b) (.ok x) := by
  cases kind with
  | add | subtract | multiply => exact agrees_fitting _ x
  | divide =>
    unfold applyInt
    dsimp only
    split
    · exact .integer rfl
    · exact agrees_fitting _ x
  | modulo =>
    unfold applyInt
    dsimp only
    split
    · exact .integer rfl
    split
    · exact .integer rfl
    · exact agrees_fitting _ x
  | atom | negate | pointer | array => cases hkind

/-! ### Whole expressions -/

theorem evaluateFloat_joins (h : kind.joins = true) :
    (node kind text origin l r).evaluateFloat floats =
      match l.evaluateFloat floats with
      | .error err => .error err
      | .ok a =>
        match r.evaluateFloat floats with
        | .error err => .error err
        | .ok b => .ok (applyFloat kind a b) := by
  cases kind <;> first | rfl | cases h

theorem evaluateFloat_atom :
    (node .atom text origin l r).evaluateFloat floats =
      (Atom.classify text origin).evaluateFloat floats := by
  rw [evaluateFloat]
  cases Atom.classify text origin <;> rfl

/-- The two evaluations come to the parts of an expression in the same order, so that their results
agree. -/
theorem agrees (hkeys : ∀ key, ints.contains key = floats.contains key) (e : Expr) :
    Agrees (e.evaluateInt ints) (e.evaluateFloat floats) := by
  induction e with
  | missing => exact .error
  | node kind text origin l r ihl ihr =>
    by_cases hkind : kind.joins = true
    · rw [evaluateInt_joins hkind, evaluateFloat_joins hkind]
      exact ihl.andThen fun a x => ihr.andThen fun b y =>
        agrees_applyInt hkind a b (applyFloat kind x y)
    cases kind with
    | atom =>
      rw [evaluateInt_atom, evaluateFloat_atom]
      exact agrees_atom hkeys _
    | negate => exact ihl.andThen fun a x => agrees_fitting (-a.toInt) (-x)
    | pointer | array => exact .error
    | _ => exact absurd rfl hkind

/-- With values for the same names, an expression that has a value over integers has one over
floating-point numbers, and an error that is not one of integers alone is the error there, too. -/
theorem evaluateFloat_agrees (ints : OrderedMap Key.hash Int64) (floats : OrderedMap Key.hash Float)
    (hkeys : ∀ key, ints.contains key = floats.contains key) (e : Expr) :
    ((∃ n, e.evaluateInt ints = .ok n) → ∃ x, e.evaluateFloat floats = .ok x) ∧
    ∀ err : EvalError, err.isStructural = true → e.evaluateInt ints = .error err →
      e.evaluateFloat floats = .error err := by
  have hagrees := agrees hkeys e
  constructor
  · rintro ⟨n, hn⟩
    rw [hn] at hagrees
    generalize e.evaluateFloat floats = result at hagrees
    cases hagrees with
    | ok => exact ⟨_, rfl⟩
  · intro err hstructural herr
    rw [herr] at hagrees
    generalize e.evaluateFloat floats = result at hagrees
    cases hagrees with
    | error => rfl
    | integer h => cases hstructural.symm.trans h

/-- Names with different values: the first error is in the second operand of `a * 0x1e + b`, behind
a literal with an `e` in it that is an integer. -/
theorem evaluateFloat_agrees_named :
    let ints : OrderedMap Key.hash Int64 := .ofList [(.ofText "a", 3)]
    let floats : OrderedMap Key.hash Float := .ofList [(.ofText "a", 0.5)]
    let e := binary .add (binary .multiply (atom "a") (atom "0x1e")) (atom "b")
    (∀ key, ints.contains key = floats.contains key) ∧
      e.evaluateInt ints = .error (.unknownConstant "b") ∧
      e.evaluateFloat floats = .error (.unknownConstant "b") := by
  intro ints floats e
  have hkeys (key : Key) : ints.contains key = floats.contains key := by
    rw [OrderedMap.contains_ofList HashIndex.lawful, OrderedMap.contains_ofList HashIndex.lawful]
    rfl
  have hint : e.evaluateInt ints = .error (.unknownConstant "b") := by decide +kernel
  exact ⟨hkeys, hint, (evaluateFloat_agrees ints floats hkeys e).2 _ rfl hint⟩

end Expr

end Metadoc
