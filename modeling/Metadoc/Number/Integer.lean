/-!
# Reading integers

An integer literal is digits with underscores anywhere between them.  `0x`, `0b` and `0o` (or the
capital letter) choose the base, and a leading zero before more digits chooses base eight.

* `Integer.radix?` splits the mark of a base off;
* `Integer.ofDigits` reads the digits of a base as a number of 64 bits with sign;
* `Integer.read` reads a literal.
-/

namespace Metadoc

namespace Integer

/-- Why digits are no number of 64 bits. -/
inductive Fault where
  /-- There is no digit, or something that is none. -/
  | malformed
  /-- The number is too large. -/
  | overflow
deriving DecidableEq, Repr

/-- The number of 64 bits that an integer is, if it is one. -/
def checked? (n : Int) : Option Int64 :=
  if Int64.minValue.toInt ≤ n ∧ n ≤ Int64.maxValue.toInt then some (Int64.ofInt n) else none

/-- The value of a digit of a base up to sixteen. -/
def digitValue? (radix : Nat) (c : Char) : Option Nat :=
  let value? :=
    if '0' ≤ c ∧ c ≤ '9' then some (c.toNat - '0'.toNat)
    else if 'a' ≤ c ∧ c ≤ 'f' then some (c.toNat - 'a'.toNat + 10)
    else if 'A' ≤ c ∧ c ≤ 'F' then some (c.toNat - 'A'.toNat + 10)
    else none
  value?.filter (· < radix)

/-- Reads further digits behind a number that is read already, from left to right; `sign` is one or
minus one. -/
def readFrom (radix : Nat) (sign : Int) : Int → List Char → Except Fault Int64
  | value, [] => .ok (Int64.ofInt value)
  | value, c :: cs =>
    match digitValue? radix c with
    | none => .error .malformed
    | some d =>
      let value := value * radix + sign * d
      if (checked? value).isSome then readFrom radix sign value cs else .error .overflow

/-- Reads the digits of a base, at least one of them, with a sign before them or without. -/
def ofDigits (radix : Nat) : List Char → Except Fault Int64
  | [] => .error .malformed
  | c :: cs =>
    if c = '+' ∨ c = '-' then
      if cs.isEmpty then .error .malformed
      else readFrom radix (if c = '-' then -1 else 1) 0 cs
    else readFrom radix 1 0 (c :: cs)

/-- Whether something is a digit or an underscore. -/
def isDigitOrGap (c : Char) : Bool := ('0' ≤ c && c ≤ '9') || c == '_'

/-- The base that a literal names, and what is behind the mark of it. -/
def radix? : List Char → Option (Nat × List Char)
  | '0' :: c :: cs =>
    if c = 'x' ∨ c = 'X' then some (16, cs)
    else if c = 'b' ∨ c = 'B' then some (2, cs)
    else if c = 'o' ∨ c = 'O' then some (8, cs)
    else if (c :: cs).all isDigitOrGap then some (8, c :: cs)
    else none
  | _ => none

/-- A literal without its underscores. -/
def dropGaps (cs : List Char) : List Char := cs.filter (· ≠ '_')

/-- Reads an integer literal. -/
def read (cs : List Char) : Except Fault Int64 :=
  let r := (radix? cs).getD (10, cs)
  ofDigits r.1 (dropGaps r.2)

end Integer

end Metadoc
