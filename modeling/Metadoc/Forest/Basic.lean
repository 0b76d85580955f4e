import Metadoc.Node.Basic

/-!
# Forests

A forest holds the nodes of a document under their numbers, linked to their parents, their
neighbours and the ends of their lists.  It grows node by node, and nodes are linked as they turn
out to belong together; nodes that are never linked stay on their own.

* `Forest.alloc` adds a node, `Forest.modify` changes what one says;
* `Forest.pushChild` and `Forest.pushTag` put a node at the end of a list of another;
* `Forest.children`, `Forest.tags` and `Forest.siblings` walk the lists;
* `Forest.tree?` is a node with everything below it, and `Forest.ofTree` builds a forest from a
  tree.
-/

namespace Metadoc

/-- The places around a node. -/
structure Links where
  /-- The node in whose lists it stands. -/
  parent : Option Nat := none
  /-- The first of its children. -/
  firstChild : Option Nat := none
  /-- The last of its children. -/
  lastChild : Option Nat := none
  /-- The first of its tags. -/
  firstTag : Option Nat := none
  /-- The last of its tags. -/
  lastTag : Option Nat := none
  /-- The node after it in its list. -/
  next : Option Nat := none
  /-- The node before it in its list. -/
  prev : Option Nat := none
  /-- Number of its children. -/
  childCount : Nat := 0
  /-- Number of its tags. -/
  tagCount : Nat := 0
deriving DecidableEq, Repr, Inhabited

/-- A node with the places around it. -/
structure ForestEntry where
  /-- What the node says. -/
  data : NodeData
  /-- The places around it. -/
  links : Links := {}
deriving DecidableEq, Repr

/-- Linked nodes under their numbers. -/
structure Forest where
  /-- The nodes. -/
  entries : Array ForestEntry := #[]
deriving Repr, Inhabited

namespace Forest

variable (forest : Forest)

/-- Number of nodes. -/
def size : Nat := forest.entries.size

/-- Whether there are no nodes. -/
def isEmpty : Bool := forest.size = 0

/-- What a node says. -/
def data? (i : Nat) : Option NodeData := (forest.entries[i]?).map (·.data)

/-- The places around a node, none of them set when there is no such node. -/
def links (i : Nat) : Links := ((forest.entries[i]?).map (·.links)).getD {}

/-! ### Building -/

/-- Adds a node, linked to nothing.  Its number is the size before. -/
def alloc (data : NodeData) : Forest := ⟨forest.entries.push { data }⟩

/-- Changes what a node says. -/
def modify (i : Nat) (f : NodeData → NodeData) : Forest :=
  ⟨forest.entries.modify i fun e => { e with data := f e.data }⟩

/-- Changes the places around a node. -/
def relink (i : Nat) (f : Links → Links) : Forest :=
  ⟨forest.entries.modify i fun e => { e with links := f e.links }⟩

/-- Puts a node at the end of the children of another. -/
def pushChild (parent child : Nat) : Forest :=
  let last := (forest.links parent).lastChild
  let forest := forest.relink child fun l =>
    { l with parent := some parent, prev := last, next := none }
  let forest := match last with
    | some last => forest.relink last fun l => { l with next := some child }
    | none => forest.relink parent fun l => { l with firstChild := some child }
  forest.relink parent fun l =>
    { l with lastChild := some child, childCount := l.childCount + 1 }

/-- Puts a node at the end of the tags of another. -/
def pushTag (owner tag : Nat) : Forest :=
  let last := (forest.links owner).lastTag
  let forest := forest.relink tag fun l =>
    { l with parent := some owner, prev := last, next := none }
  let forest := match last with
    | some last => forest.relink last fun l => { l with next := some tag }
    | none => forest.relink owner fun l => { l with firstTag := some tag }
  forest.relink owner fun l =>
    { l with lastTag := some tag, tagCount := l.tagCount + 1 }

/-! ### Walking -/

/-- At most `n` nodes, from a node along the links to the next one. -/
def follow : Nat → Option Nat → List Nat
  | 0, _ => []
  | _, none => []
  | n + 1, some i => i :: follow n (forest.links i).next

/-- The list that begins with a node.  No list is longer than the forest. -/
def chain (first : Option Nat) : List Nat := forest.follow forest.size first

/-- The children of a node. -/
def children (i : Nat) : List Nat := forest.chain (forest.links i).firstChild

/-- The tags of a node. -/
def tags (i : Nat) : List Nat := forest.chain (forest.links i).firstTag

/-- A node and those after it in its list. -/
def siblings (i : Nat) : List Nat := forest.chain (some i)

/-- A node with what lies at most `n` levels below it. -/
def treeTo : Nat → Nat → Option Tree
  | 0, _ => none
  | n + 1, i => (forest.data? i).map fun d =>
      .node i d ((forest.tags i).filterMap (treeTo n)) ((forest.children i).filterMap (treeTo n))

/-- A node with everything below it.  No path is longer than the forest. -/
def tree? (i : Nat) : Option Tree := forest.treeTo forest.size i

end Forest

/-! ### From trees -/

namespace Tree

/-- The data of the nodes of trees and of stray nodes, by number. -/
def dataAt (nodes : List Tree) (strays : List (Nat × NodeData)) (i : Nat) : NodeData :=
  ((nodes.find? (·.id == i)).map Tree.data <|> strays.lookup i).getD (.plain .error "")

end Tree

namespace Forest

/-- Links the tags and the children of a node to it. -/
def link (forest : Forest) (t : Tree) : Forest :=
  let forest := t.tags.foldl (fun f tag => f.pushTag t.id tag.id) forest
  t.children.foldl (fun f child => f.pushChild t.id child.id) forest

/-- The forest of `count` nodes in which those of a tree are linked as they stand in it and the
stray ones are on their own. -/
def ofTree (count : Nat) (root : Option Tree) (strays : List (Nat × NodeData)) : Forest :=
  let nodes := (root.map Tree.preorder).getD []
  let forest := (List.range count).foldl (fun f i => f.alloc (Tree.dataAt nodes strays i)) {}
  nodes.foldl link forest

end Forest

end Metadoc
