import Metadoc.Node.Basic

/-!
# Comparing nodes

Two nodes match when they have the same kind and text; the brackets, the separators and the places
they were written at do not count.

* `Tree.shallowMatch` compares two nodes, and their tags on demand;
* `Tree.deepMatch` compares everything below them too.
-/

namespace Metadoc

/-- What a comparison looks at beside kind and text. -/
structure MatchOptions where
  /-- Compare tags. -/
  tags : Bool
  /-- Compare the arguments of tags as well.  Counts only together with `tags`. -/
  arguments : Bool
deriving DecidableEq, Repr

namespace Tree

/-- Whether two nodes have the same kind and text. -/
def sameHead (a b : NodeData) : Bool := a.kind = b.kind && a.string = b.string

mutual

/-- Whether two nodes and everything below them match. -/
def deepMatch (o : MatchOptions) : Tree → Tree → Bool
  | node _ d ts cs, node _ d' ts' cs' =>
    sameHead d d' && (!o.tags || tagsMatch o ts ts') && childrenMatch o cs cs'

/-- Whether two lists of nodes match one by one. -/
def childrenMatch (o : MatchOptions) : List Tree → List Tree → Bool
  | [], [] => true
  | c :: cs, c' :: cs' => deepMatch o c c' && childrenMatch o cs cs'
  | _, _ => false

/-- Whether two lists of tags match one by one: in their names, and in their arguments on
demand. -/
def tagsMatch (o : MatchOptions) : List Tree → List Tree → Bool
  | [], [] => true
  | node _ d _ cs :: ts, node _ d' _ cs' :: ts' =>
    d.string = d'.string && (!o.arguments || childrenMatch o cs cs') && tagsMatch o ts ts'
  | _, _ => false

end

/-- Whether two nodes match, whatever their children. -/
def shallowMatch (o : MatchOptions) (a b : Tree) : Bool :=
  sameHead a.data b.data && (!o.tags || tagsMatch o a.tags b.tags)

end Tree

end Metadoc
