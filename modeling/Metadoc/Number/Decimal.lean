/-!
# Reading decimals

A decimal is digits, with a point before, between or after them, and a power of ten behind.

* `Decimal.parse?` reads one;
* `Decimal.toFloat` is the nearest floating-point number, the even one of two equally near.
-/

namespace Metadoc

/-- The decimal `digits * 10 ^ exponent`. -/
structure Decimal where
  /-- The number that the digits write. -/
  digits : Nat
  /-- The power of ten. -/
  exponent : Int
deriving DecidableEq, Repr

namespace Decimal

/-- The number that digits write. -/
def natOfDigits (cs : List Char) : Nat :=
  cs.foldl (fun n c => n * 10 + (c.toNat - '0'.toNat)) 0

/-- Digits at the head of a text, and the rest. -/
def spanDigits (cs : List Char) : List Char × List Char :=
  (cs.takeWhile Char.isDigit, cs.dropWhile Char.isDigit)

/-- Reads the power of ten at the end of a decimal, none if the text is used up. -/
def exponent? : List Char → Option Int
  | [] => some 0
  | e :: cs =>
    if e = 'e' ∨ e = 'E' then
      let negative := cs.head? = some '-'
      let r := spanDigits (if negative ∨ cs.head? = some '+' then cs.tail else cs)
      if r.1.isEmpty ∨ !r.2.isEmpty then none
      else some (if negative then -(natOfDigits r.1 : Int) else natOfDigits r.1)
    else none

/-- Reads a decimal without sign. -/
def parse? (cs : List Char) : Option Decimal :=
  let whole := spanDigits cs
  let fraction :=
    if whole.2.head? = some '.' then spanDigits whole.2.tail else ([], whole.2)
  if whole.1.isEmpty ∧ fraction.1.isEmpty then none
  else (exponent? fraction.2).map fun e =>
    ⟨natOfDigits (whole.1 ++ fraction.1), e - fraction.1.length⟩

/-- Powers of ten past this one are beyond every floating-point number that is not zero or
infinite. -/
def beyond : Nat := 400

/-- The nearest floating-point number. -/
def toFloat (d : Decimal) : Float :=
  if d.digits = 0 then 0.0
  else if (beyond : Int) < d.exponent then Float.ofScientific 1 false beyond
  else if d.exponent + (Nat.toDigits 10 d.digits).length < -(beyond : Int) then 0.0
  else Float.ofScientific d.digits (d.exponent < 0) d.exponent.natAbs

end Decimal

end Metadoc
