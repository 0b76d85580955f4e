import Metadoc.Node.Basic
import Metadoc.Text.Quoted

/-!
# Dumps

A dump shows one node a line, indented by two spaces a level, with the tags of a node before its
children.

* `Tree.dumpLine` is the line of a node, `Tree.dump` the lines of a whole tree.
-/

namespace Metadoc

/-- The flags of a node in a dump line. -/
def Facets.dump (facets : Facets) : String :=
  match facets.flags with
  | [] => ""
  | fs => " [" ++ ", ".intercalate (fs.map Flag.name) ++ "]"

/-- A comment in a dump line, after its mark. -/
def dumpComment (mark comment : String) : String :=
  if comment = "" then "" else mark ++ Quoted.encode comment

namespace Tree

/-- The line of a node at a depth. -/
def dumpLine (depth : Nat) (d : NodeData) : String :=
  "".pushn ' ' (2 * depth) ++ d.kind.name ++ " " ++ Quoted.encode d.string ++ d.facets.dump ++
    dumpComment " pre=" d.pre ++ dumpComment " post=" d.post ++ "\n"

mutual

/-- The lines of a tree whose root is at a depth. -/
def dumpAt (depth : Nat) : Tree → String
  | node _ d ts cs => dumpLine depth d ++ dumpAll (depth + 1) ts ++ dumpAll (depth + 1) cs

/-- The lines of several trees at a depth. -/
def dumpAll (depth : Nat) : List Tree → String
  | [] => ""
  | t :: ts => dumpAt depth t ++ dumpAll depth ts

end

/-- The lines of a tree. -/
def dump (t : Tree) : String := dumpAt 0 t

end Tree

end Metadoc
