import Metadoc.Forest.Query
import Metadoc.Tree.Match

/-!
# Comparing nodes of forests

Nodes of two forests, or of one, are compared where they stand, list by list: two lists match when
both owners count the same number of nodes and what stands side by side matches.

* `Forest.shallowMatch` compares two nodes, and their tags on demand;
* `Forest.deepMatch` compares everything below them too.
-/

namespace Metadoc

namespace Forest

variable (f g : Forest)

/-- Whether two nodes have the same kind and text. -/
def sameHead (i j : Nat) : Bool :=
  match f.data? i, g.data? j with
  | some d, some d' => Tree.sameHead d d'
  | _, _ => false

/-- Whether all that stands side by side in two lists matches.  What is left over of the longer one
does not count. -/
def zipMatch (deep : Nat → Nat → Bool) (is js : List Nat) : Bool :=
  (is.zip js).all fun p => deep p.1 p.2

/-- Whether two nodes have children that match one by one. -/
def childrenMatch (deep : Nat → Nat → Bool) (i j : Nat) : Bool :=
  (f.links i).childCount = (g.links j).childCount && zipMatch deep (f.children i) (g.children j)

/-- Whether two tags have the same name and, on demand, arguments that match one by one. -/
def tagMatch (o : MatchOptions) (deep : Nat → Nat → Bool) (i j : Nat) : Bool :=
  f.string? i = g.string? j && (!o.arguments || childrenMatch f g deep i j)

/-- Whether two nodes have tags that match one by one. -/
def tagsMatch (o : MatchOptions) (deep : Nat → Nat → Bool) (i j : Nat) : Bool :=
  (f.links i).tagCount = (g.links j).tagCount &&
    zipMatch (tagMatch f g o deep) (f.tags i) (g.tags j)

/-- Whether two nodes match, whatever their children; `deep` compares the arguments of tags. -/
def shallowMatchBy (o : MatchOptions) (deep : Nat → Nat → Bool) (i j : Nat) : Bool :=
  sameHead f g i j && (!o.tags || tagsMatch f g o deep i j)

/-- Whether two nodes match down to fewer than `n` levels below them; there is no match with
anything deeper. -/
def deepMatchTo (o : MatchOptions) : Nat → Nat → Nat → Bool
  | 0, _, _ => false
  | n + 1, i, j =>
    shallowMatchBy f g o (deepMatchTo o n) i j && childrenMatch f g (deepMatchTo o n) i j

/-- Whether two nodes and everything below them match.  No path is longer than the forest. -/
def deepMatch (o : MatchOptions) (i j : Nat) : Bool := deepMatchTo f g o f.size i j

/-- Whether two nodes match, whatever their children. -/
def shallowMatch (o : MatchOptions) (i j : Nat) : Bool :=
  shallowMatchBy f g o (deepMatch f g o) i j

end Forest

end Metadoc
