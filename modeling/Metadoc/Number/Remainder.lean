/-!
# The remainder of floating-point division

`Remainder.of x y` is `x - n * y`, where `n` is the quotient `x / y` without its fraction.  It is
exact: the remainder of two floating-point numbers is one itself.  It takes its sign from `x`, also
when it is zero.
-/

namespace Metadoc

namespace Remainder

/-- The magnitude of a finite number as `m * 2 ^ (q - 1074)`. -/
def magnitude (x : Float) : Nat × Nat :=
  let bits := x.toBits.toNat % Nat.pow 2 63
  let exponent := bits / Nat.pow 2 52
  let fraction := bits % Nat.pow 2 52
  if exponent = 0 then (fraction, 0) else (fraction + Nat.pow 2 52, exponent - 1)

/-- The number `n * 2 ^ (-1074)`. -/
def ofSteps (n : Nat) : Float := Float.ofScientific (n * Nat.pow 5 1074) true 1074

/-- The remainder of dividing `x` by `y`. -/
def of (x y : Float) : Float :=
  if x.isNaN ∨ y.isNaN ∨ x.isInf ∨ y == 0.0 then 0.0 / 0.0
  else if y.isInf then x
  else
    let a := magnitude x
    let b := magnitude y
    let r := ofSteps ((a.1 * Nat.pow 2 a.2) % (b.1 * Nat.pow 2 b.2))
    if x.toBits.toNat < Nat.pow 2 63 then r else -r

end Remainder

end Metadoc
