import Metadoc.Tree.Match
import Metadoc.Proofs.Document.Outline

/-!
# What a comparison of nodes does not see

* `Tree.deepMatch_unplaced` : numbers and places do not count;
* `Tree.braced` puts every set that has no brackets in curly ones;
* `Tree.deepMatch_braced` : a tree matches what it is then.
-/

namespace Metadoc

/-- What a node with children says when these are put in curly brackets, unless they have brackets
already. -/
def NodeData.braced (d : NodeData) (children : List Tree) : NodeData :=
  if d.kind = .main ∧ d.facets.opened = none ∧ children ≠ [] then
    { d with facets := { d.facets with opened := some .brace, closed := some .brace } }
  else d

theorem NodeData.braced_of_ne_nil {d : NodeData} {children : List Tree} (hkind : d.kind = .main)
    (hopened : d.facets.opened = none) (hchildren : children ≠ []) :
    d.braced children =
      { d with facets := { d.facets with opened := some .brace, closed := some .brace } } :=
  if_pos ⟨hkind, hopened, hchildren⟩

theorem NodeData.braced_nil (d : NodeData) : d.braced [] = d := if_neg (by simp)

theorem NodeData.string_braced (d : NodeData) (children : List Tree) :
    (d.braced children).string = d.string := by
  unfold braced
  split <;> rfl

theorem NodeData.kind_braced (d : NodeData) (children : List Tree) :
    (d.braced children).kind = d.kind := by
  unfold braced
  split <;> rfl

namespace Tree

variable (o : MatchOptions)

mutual

/-- The tree with curly brackets around every set of a label that has none. -/
def braced : Tree → Tree
  | node id d ts cs => node id (d.braced cs) (bracedAll ts) (bracedAll cs)

/-- Trees with curly brackets around every set of a label that has none. -/
def bracedAll : List Tree → List Tree
  | [] => []
  | t :: ts => braced t :: bracedAll ts

end

/-- Brackets do not depend on the separators beside them. -/
theorem braced_beside (before after : Option Separator) (t : Tree) :
    (t.beside before after).braced = t.braced.beside before after := by
  cases t with
  | node id d ts cs =>
    simp only [beside, braced, NodeData.braced]
    split <;> rfl

mutual

/-- Numbers and places do not count when nodes are compared. -/
theorem deepMatch_unplaced (a b : Tree) :
    a.unplaced.deepMatch o b.unplaced = a.deepMatch o b := by
  cases a with
  | node id d ts cs =>
    cases b with
    | node id' d' ts' cs' =>
      rw [unplaced, unplaced, deepMatch, deepMatch, childrenMatch_unplacedAll cs cs',
        tagsMatch_unplacedAll ts ts']
      rfl

theorem childrenMatch_unplacedAll (as bs : List Tree) :
    childrenMatch o (unplacedAll as) (unplacedAll bs) = childrenMatch o as bs := by
  cases as with
  | nil => cases bs <;> rfl
  | cons a as =>
    cases bs with
    | nil => rfl
    | cons b bs =>
      rw [unplacedAll, unplacedAll, childrenMatch, childrenMatch, deepMatch_unplaced a b,
        childrenMatch_unplacedAll as bs]

theorem tagsMatch_unplacedAll (as bs : List Tree) :
    tagsMatch o (unplacedAll as) (unplacedAll bs) = tagsMatch o as bs := by
  cases as with
  | nil => cases bs <;> rfl
  | cons a as =>
    cases bs with
    | nil => cases a; rfl
    | cons b bs =>
      cases a with
      | node id d ts cs =>
        cases b with
        | node id' d' ts' cs' =>
          rw [unplacedAll, unplacedAll, unplaced, unplaced, tagsMatch, tagsMatch,
            childrenMatch_unplacedAll cs cs', tagsMatch_unplacedAll as bs]

end

mutual

/-- Brackets do not count when nodes are compared. -/
theorem deepMatch_braced (t : Tree) : t.deepMatch o t.braced = true := by
  cases t with
  | node id d ts cs =>
    rw [braced, deepMatch, sameHead, d.kind_braced, d.string_braced, tagsMatch_bracedAll ts,
      childrenMatch_bracedAll cs]
    simp

theorem childrenMatch_bracedAll (ts : List Tree) : childrenMatch o ts (bracedAll ts) = true := by
  cases ts with
  | nil => rfl
  | cons t ts =>
    rw [bracedAll, childrenMatch, deepMatch_braced t, childrenMatch_bracedAll ts]
    rfl

theorem tagsMatch_bracedAll (ts : List Tree) : tagsMatch o ts (bracedAll ts) = true := by
  cases ts with
  | nil => rfl
  | cons t ts =>
    cases t with
    | node id d ts' cs =>
      rw [bracedAll, braced, tagsMatch, d.string_braced, childrenMatch_bracedAll cs,
        tagsMatch_bracedAll ts]
      simp

end

end Tree

end Metadoc
