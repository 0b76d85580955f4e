import Metadoc.Forest.Basic

/-!
# Asking about nodes

* `Forest.childNamed?`, `Forest.tagNamed?` and `Forest.hasTagWith` look nodes up by their text;
* `Forest.findWith?` and `Forest.findWithout?` look along a list for the first node with, or
  without, one of some flags;
* `Forest.range` is the part of a list from one node to another.
-/

namespace Metadoc

namespace Forest

variable (forest : Forest)

/-- The text of a node. -/
def string? (i : Nat) : Option String := (forest.data? i).map (·.string)

/-- How a node was written. -/
def facets (i : Nat) : Facets := ((forest.data? i).map (·.facets)).getD {}

/-- The first child with a text. -/
def childNamed? (i : Nat) (name : String) : Option Nat :=
  (forest.children i).find? fun c => forest.string? c = some name

/-- The first tag with a name. -/
def tagNamed? (i : Nat) (name : String) : Option Nat :=
  (forest.tags i).find? fun t => forest.string? t = some name

/-- Whether a node has a tag with a name. -/
def hasTag (i : Nat) (name : String) : Bool := (forest.tagNamed? i name).isSome

/-- Whether a node has a tag with a name whose arguments have exactly the given texts. -/
def hasTagWith (i : Nat) (name : String) (arguments : List String) : Bool :=
  (forest.tags i).any fun t =>
    forest.string? t = some name && (forest.children t).map forest.string? = arguments.map some

/-- The part of a list from node `i` to the node before `stop`, or to its end. -/
def upTo (i : Nat) (stop : Option Nat) : List Nat :=
  (forest.siblings i).takeWhile fun j => some j ≠ stop

/-- The first node of a part of a list that has one of the flags. -/
def findWith? (i : Nat) (stop : Option Nat) (flags : FlagSet) : Option Nat :=
  (forest.upTo i stop).find? fun j => (forest.facets j).intersects flags

/-- The first node of a part of a list that has none of the flags. -/
def findWithout? (i : Nat) (stop : Option Nat) (flags : FlagSet) : Option Nat :=
  (forest.upTo i stop).find? fun j => !(forest.facets j).intersects flags

/-- A list up to and including the first occurrence of a node, whole when it does not occur. -/
def through (last : Nat) : List Nat → List Nat
  | [] => []
  | i :: rest => if i = last then [i] else i :: through last rest

/-- The part of a list from node `first` through node `last`, or to its end when `last` does not
come after `first`. -/
def range (first last : Nat) : List Nat := through last (forest.siblings first)

end Forest

end Metadoc
