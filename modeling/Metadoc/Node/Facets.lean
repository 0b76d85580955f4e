import Metadoc.Token.Basic

/-!
# Facets of a node

What is recorded about how a node was written: its brackets, the separators beside it, and the
kind of its label.

* `Facets` holds those facts; the two brackets of a set are independent of each other;
* `Flag` names the single facts that can be asked for, and `Facets.has` answers;
* `FlagSet` is a set of flags.
-/

namespace Metadoc

/-- The three pairs of brackets. -/
inductive Delimiter where
  /-- Round brackets. -/
  | paren
  /-- Square brackets. -/
  | bracket
  /-- Curly brackets. -/
  | brace
deriving DecidableEq, Repr

namespace Delimiter

/-- The opening byte. -/
def openByte : Delimiter → UInt8
  | .paren => 0x28
  | .bracket => 0x5B
  | .brace => 0x7B

/-- The closing byte. -/
def closeByte : Delimiter → UInt8
  | .paren => 0x29
  | .bracket => 0x5D
  | .brace => 0x7D

/-- The pair that a byte opens. -/
def ofOpen? (b : UInt8) : Option Delimiter :=
  if b = 0x28 then some .paren
  else if b = 0x5B then some .bracket
  else if b = 0x7B then some .brace
  else none

/-- The pair that a byte closes. -/
def ofClose? (b : UInt8) : Option Delimiter :=
  if b = 0x29 then some .paren
  else if b = 0x5D then some .bracket
  else if b = 0x7D then some .brace
  else none

@[simp] theorem ofOpen?_openByte (d : Delimiter) : ofOpen? d.openByte = some d := by
  cases d <;> decide

@[simp] theorem ofClose?_closeByte (d : Delimiter) : ofClose? d.closeByte = some d := by
  cases d <;> decide

end Delimiter

/-- The marks that may stand between entries. -/
inductive Separator where
  /-- A comma. -/
  | comma
  /-- A semicolon. -/
  | semicolon
deriving DecidableEq, Repr

namespace Separator

/-- The byte of a separator. -/
def byte : Separator → UInt8
  | .comma => 0x2C
  | .semicolon => 0x3B

/-- The separator that a byte is. -/
def ofByte? (b : UInt8) : Option Separator :=
  if b = 0x2C then some .comma
  else if b = 0x3B then some .semicolon
  else none

@[simp] theorem ofByte?_byte (s : Separator) : ofByte? s.byte = some s := by
  cases s <;> decide

end Separator

/-- The kind of token that a label was written as. -/
inductive LiteralKind where
  /-- A name. -/
  | identifier
  /-- A number. -/
  | numeric
  /-- A string literal with its delimiters. -/
  | string (style : StringStyle)
  /-- A symbol. -/
  | symbol
deriving DecidableEq, Repr

/-- How a node was written. -/
structure Facets where
  /-- The opening bracket of its set. -/
  opened : Option Delimiter := none
  /-- The closing bracket of its set, which may be of another pair. -/
  closed : Option Delimiter := none
  /-- The separator directly after the node. -/
  followedBy : Option Separator := none
  /-- The separator directly before the node. -/
  precededBy : Option Separator := none
  /-- The kind of its label. -/
  literal : Option LiteralKind := none
deriving DecidableEq, Repr, Inhabited

/-- A single fact about how a node was written. -/
inductive Flag where
  | hasParenLeft
  | hasParenRight
  | hasBracketLeft
  | hasBracketRight
  | hasBraceLeft
  | hasBraceRight
  | isBeforeComma
  | isAfterComma
  | isBeforeSemicolon
  | isAfterSemicolon
  | identifier
  | numeric
  | stringLiteral
  | symbol
  | stringSingleQuote
  | stringDoubleQuote
  | stringTick
  | stringTriplet
deriving DecidableEq, Repr

namespace Flag

/-- Every flag, in the order in which flags are listed. -/
def all : List Flag :=
  [hasParenLeft, hasParenRight, hasBracketLeft, hasBracketRight, hasBraceLeft, hasBraceRight,
    isBeforeComma, isAfterComma, isBeforeSemicolon, isAfterSemicolon, identifier, numeric,
    stringLiteral, symbol, stringSingleQuote, stringDoubleQuote, stringTick, stringTriplet]

/-- The name of a flag in dumps. -/
def name : Flag → String
  | hasParenLeft => "HasParenLeft"
  | hasParenRight => "HasParenRight"
  | hasBracketLeft => "HasBracketLeft"
  | hasBracketRight => "HasBracketRight"
  | hasBraceLeft => "HasBraceLeft"
  | hasBraceRight => "HasBraceRight"
  | isBeforeComma => "IsBeforeComma"
  | isAfterComma => "IsAfterComma"
  | isBeforeSemicolon => "IsBeforeSemicolon"
  | isAfterSemicolon => "IsAfterSemicolon"
  | identifier => "Identifier"
  | numeric => "Numeric"
  | stringLiteral => "StringLiteral"
  | symbol => "Symbol"
  | stringSingleQuote => "StringSingleQuote"
  | stringDoubleQuote => "StringDoubleQuote"
  | stringTick => "StringTick"
  | stringTriplet => "StringTriplet"

/-- The flag of a name. -/
def ofName? (s : String) : Option Flag := all.find? (·.name == s)

theorem mem_all (f : Flag) : f ∈ all := by cases f <;> decide

end Flag

namespace Facets

variable (facets : Facets)

/-- The delimiters of the label, when it is a string literal. -/
def style? : Option StringStyle :=
  match facets.literal with
  | some (.string style) => some style
  | _ => none

/-- Whether a fact holds. -/
def has : Flag → Bool
  | .hasParenLeft => facets.opened = some .paren
  | .hasParenRight => facets.closed = some .paren
  | .hasBracketLeft => facets.opened = some .bracket
  | .hasBracketRight => facets.closed = some .bracket
  | .hasBraceLeft => facets.opened = some .brace
  | .hasBraceRight => facets.closed = some .brace
  | .isBeforeComma => facets.followedBy = some .comma
  | .isAfterComma => facets.precededBy = some .comma
  | .isBeforeSemicolon => facets.followedBy = some .semicolon
  | .isAfterSemicolon => facets.precededBy = some .semicolon
  | .identifier => facets.literal = some .identifier
  | .numeric => facets.literal = some .numeric
  | .symbol => facets.literal = some .symbol
  | .stringLiteral => facets.style?.isSome
  | .stringSingleQuote => facets.style?.any (·.quote = .single)
  | .stringDoubleQuote => facets.style?.any (·.quote = .double)
  | .stringTick => facets.style?.any (·.quote = .tick)
  | .stringTriplet => facets.style?.any (·.triplet)

/-- The facts that hold, in the order in which flags are listed. -/
def flags : List Flag := Flag.all.filter facets.has

end Facets

/-- A set of flags, one bit for each in the order of `Flag.all`. -/
structure FlagSet where
  /-- The bits. -/
  bits : BitVec 18
deriving DecidableEq, Repr

namespace FlagSet

/-- No flag. -/
def empty : FlagSet := ⟨0⟩

/-- The set of one flag. -/
def single (f : Flag) : FlagSet := ⟨BitVec.twoPow 18 (Flag.all.idxOf f)⟩

/-- The flags of either set. -/
def union (a b : FlagSet) : FlagSet := ⟨a.bits ||| b.bits⟩

/-- The set of the flags of a list. -/
def ofList (fs : List Flag) : FlagSet := fs.foldl (fun s f => s.union (single f)) empty

/-- Whether a flag is in the set. -/
def contains (s : FlagSet) (f : Flag) : Bool := s.bits &&& (single f).bits != 0

/-- Whether two sets have a flag in common. -/
def intersects (a b : FlagSet) : Bool := a.bits &&& b.bits != 0

/-- Whether the set has no flag. -/
def isEmpty (s : FlagSet) : Bool := s.bits == 0

/-- The flags of the set, in the order in which flags are listed. -/
def toList (s : FlagSet) : List Flag := Flag.all.filter s.contains

/-- The facts that a separator after a node leaves. -/
def beforeSeparator : FlagSet := ofList [.isBeforeComma, .isBeforeSemicolon]

/-- The facts that a separator before a node leaves. -/
def afterSeparator : FlagSet := ofList [.isAfterComma, .isAfterSemicolon]

end FlagSet

/-- The facts that hold, as a set. -/
def Facets.flagSet (facets : Facets) : FlagSet := FlagSet.ofList facets.flags

/-- Whether some fact of a set holds. -/
def Facets.intersects (facets : Facets) (s : FlagSet) : Bool := facets.flagSet.intersects s

end Metadoc
