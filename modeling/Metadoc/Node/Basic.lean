import Metadoc.Node.Facets

/-!
# Nodes

* `NodeData` is what a node says, without its place in a tree;
* `Tree` is a node with the nodes below it: its tags, then its children.
-/

namespace Metadoc

/-- What a node stands for. -/
inductive NodeKind where
  /-- The root of a whole document. -/
  | file
  /-- An entry. -/
  | main
  /-- A tag on an entry. -/
  | tag
  /-- A stand-in for text that could not be read. -/
  | error
deriving DecidableEq, Repr

/-- The name of a kind in dumps. -/
def NodeKind.name : NodeKind → String
  | .file => "File"
  | .main => "Main"
  | .tag => "Tag"
  | .error => "Error"

/-- What a node says, without its place in a tree. -/
structure NodeData where
  /-- What the node stands for. -/
  kind : NodeKind
  /-- How it was written. -/
  facets : Facets := {}
  /-- Its text: delimiters removed and escapes resolved. -/
  string : String
  /-- Its label as shown in the document, delimiters included. -/
  raw : String
  /-- The bytes of its label. -/
  bytes : Bytes
  /-- Where it stands. -/
  span : Span := ⟨0, 0⟩
  /-- The comment above it. -/
  pre : String := ""
  /-- The comment behind it on the same line. -/
  post : String := ""
deriving DecidableEq, Repr

/-- A node that is nothing but a text. -/
def NodeData.plain (kind : NodeKind) (string : String) : NodeData :=
  { kind, string, raw := string, bytes := Utf8.ofString string }

/-- A node with everything below it.  The number tells nodes of one document apart: nodes are
numbered in the order in which they were begun. -/
inductive Tree where
  | node (id : Nat) (data : NodeData) (tags children : List Tree)
deriving Repr

namespace Tree

/-- The number of the root. -/
def id : Tree → Nat
  | node i _ _ _ => i

/-- What the root says. -/
def data : Tree → NodeData
  | node _ d _ _ => d

/-- The tags on the root. -/
def tags : Tree → List Tree
  | node _ _ ts _ => ts

/-- The children of the root. -/
def children : Tree → List Tree
  | node _ _ _ cs => cs

/-- The tree with other data at its root. -/
def withData (t : Tree) (data : NodeData) : Tree := node t.id data t.tags t.children

/-- Whether the root has no children. -/
def isLeaf (t : Tree) : Bool := t.children.isEmpty

mutual

/-- Every node with what is below it: the node, then its tags with theirs, then its children with
theirs. -/
def preorder : Tree → List Tree
  | node i d ts cs => node i d ts cs :: (preorderAll ts ++ preorderAll cs)

/-- The nodes of several trees in order. -/
def preorderAll : List Tree → List Tree
  | [] => []
  | t :: ts => preorder t ++ preorderAll ts

end

end Tree

end Metadoc
