import Metadoc.Document.Grammar
import Metadoc.Proofs.Document.Words

/-!
# Outlines of documents

An outline says what a document in brackets is to hold, without its bytes.

* `LabelText` is a text that is one label by itself;
* `Outline.Entry` is an entry with its tags, its label or set, and the separator after it;
* `Outline.render` writes entries down, `Outline.membersDepth` says how deep their sets lie;
* `Outline.trees` are the nodes that entries stand for, without numbers and places;
* `Tree.unplaced` takes the numbers and places from a tree, and `Tree.beside` puts separators
  beside it.
-/

namespace Metadoc

/-- A text that is one label by itself, without fault. -/
structure LabelText where
  /-- The text. -/
  bytes : Bytes
  /-- The token that it is. -/
  token : Token
  /-- The text is one token. -/
  alone : Token.all bytes 0 = [token]
  /-- The token can be a label. -/
  isLabel : token.isLabel = true
  /-- The token has no lexical fault. -/
  error : token.error = none
  /-- The text is well-formed. -/
  valid : Utf8.isValid bytes = true

/-- What a text says as a label. -/
def LabelText.label (t : LabelText) : Label := Lexeme.label ⟨t.token, Utf8.lossy t.bytes⟩

/-! ### Trees without places -/

namespace Tree

mutual

/-- The tree without numbers and places. -/
def unplaced : Tree → Tree
  | node _ d ts cs => node 0 { d with span := ⟨0, 0⟩ } (unplacedAll ts) (unplacedAll cs)

/-- Trees without numbers and places. -/
def unplacedAll : List Tree → List Tree
  | [] => []
  | t :: ts => unplaced t :: unplacedAll ts

end

/-- The tree with the separators before and after it. -/
def beside (before after : Option Separator) : Tree → Tree
  | node id d ts cs =>
    node id { d with facets := { d.facets with precededBy := before, followedBy := after } } ts cs

end Tree

namespace Outline

mutual

/-- An entry of a document. -/
inductive Entry where
  /-- A label alone. -/
  | leaf (tags : List Tag) (label : LabelText) (follower : Option Separator)
  /-- A set in brackets, with or without a label. -/
  | set (tags : List Tag) (label : Option LabelText) (opened closed : Delimiter)
      (members : List Entry) (follower : Option Separator)

/-- A tag of an entry. -/
inductive Tag where
  /-- A name alone. -/
  | plain (name : LabelText)
  /-- A name with arguments. -/
  | applied (name : LabelText) (arguments : List Entry)

end

/-- The label of an entry. -/
def Entry.label? : Entry → Option LabelText
  | .leaf _ label _ => some label
  | .set _ label _ _ _ _ => label

/-- The separator after an entry. -/
def Entry.follower : Entry → Option Separator
  | .leaf _ _ follower => follower
  | .set _ _ _ _ _ follower => follower

/-! ### Writing -/

/-- The blank between words. -/
def space : UInt8 := 0x20

/-- A separator after an entry, if there is one. -/
def followerBytes (follower : Option Separator) : Bytes := follower.toList.map Separator.byte

/-- A label before a set, with its colon, if there is one. -/
def captionBytes : Option LabelText → Bytes
  | none => []
  | some label => label.bytes ++ [labelMark]

mutual

/-- An entry, written down. -/
def Entry.render : Entry → Bytes
  | .leaf tags label follower => renderTags tags ++ (label.bytes ++ followerBytes follower)
  | .set tags label opened closed members follower =>
    renderTags tags ++ (captionBytes label ++ (opened.openByte ::
      (renderMembers members ++ space :: closed.closeByte :: followerBytes follower)))

/-- A tag, written down with a space behind. -/
def Tag.render : Tag → Bytes
  | .plain name => tagMark :: (name.bytes ++ [space])
  | .applied name arguments =>
    tagMark :: (name.bytes ++ (Delimiter.paren.openByte ::
      (renderMembers arguments ++ [space, Delimiter.paren.closeByte, space])))

/-- Tags, written down one after the other. -/
def renderTags : List Tag → Bytes
  | [] => []
  | t :: ts => t.render ++ renderTags ts

/-- Entries, written down with a space before each. -/
def renderMembers : List Entry → Bytes
  | [] => []
  | e :: es => space :: (e.render ++ renderMembers es)

end

/-- The entries of a document, written down with a space between neighbours. -/
def render : List Entry → Bytes
  | [] => []
  | e :: es => e.render ++ renderMembers es

/-! ### Depth -/

mutual

/-- How many sets lie around the innermost entry of an entry. -/
def Entry.depth : Entry → Nat
  | .leaf tags _ _ => tagsDepth tags
  | .set tags _ _ _ members _ => max (tagsDepth tags) (membersDepth members + 1)

/-- How many sets lie around the innermost entry of a tag. -/
def Tag.depth : Tag → Nat
  | .plain _ => 0
  | .applied _ arguments => membersDepth arguments + 1

/-- The greatest depth of tags. -/
def tagsDepth : List Tag → Nat
  | [] => 0
  | t :: ts => max t.depth (tagsDepth ts)

/-- The greatest depth of entries. -/
def membersDepth : List Entry → Nat
  | [] => 0
  | e :: es => max e.depth (membersDepth es)

end

/-! ### Nodes -/

/-- What the node of an entry or of a tag says. -/
def nodeData (kind : NodeKind) (label : Option Label) (facets : Facets) : NodeData :=
  match label with
  | some l =>
    { kind, facets := { facets with literal := some l.literal }, string := l.string, raw := l.raw,
      bytes := l.bytes }
  | none => { kind, facets, string := "", raw := "", bytes := [] }

mutual

/-- The node that an entry stands for, without the separators beside it. -/
def Entry.tree : Entry → Tree
  | .leaf tags label _ => .node 0 (nodeData .main (some label.label) {}) (tagTrees tags) []
  | .set tags label opened closed members _ =>
    .node 0 (nodeData .main (label.map LabelText.label)
      { opened := some opened, closed := some closed }) (tagTrees tags) (trees none members)

/-- The node that a tag stands for. -/
def Tag.tree : Tag → Tree
  | .plain name => .node 0 (nodeData .tag (some name.label) {}) [] []
  | .applied name arguments =>
    .node 0 (nodeData .tag (some name.label) { opened := some .paren, closed := some .paren })
      [] (trees none arguments)

/-- The nodes that tags stand for. -/
def tagTrees : List Tag → List Tree
  | [] => []
  | t :: ts => t.tree :: tagTrees ts

/-- The nodes that entries stand for, when the separator `before` comes before the first. -/
def trees (before : Option Separator) : List Entry → List Tree
  | [] => []
  | e :: es => e.tree.beside before e.follower :: trees e.follower es

end

end Outline

end Metadoc
