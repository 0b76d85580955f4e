import Metadoc.Proofs.Document.Marks
import Metadoc.Proofs.Tree.Dump

/-!
# What the dump of a document tells

In a document, tags show that they are tags, and no child shows the same.  So the dump of a document
determines the tree, but for what dumps leave out.

* `Tree.Formed.told` : the tags of a node can be told from its children;
* `Parse.document_dumps` : documents with the same dump show the same, node by node.
-/

namespace Metadoc

/-- Whether what a line shows is a tag. -/
def NodeData.Shown.IsTag (s : NodeData.Shown) : Prop := ∃ d : NodeData, d.shown = s ∧ d.IsTag

theorem NodeData.isTag_shown {d : NodeData} : d.shown.IsTag ↔ d.IsTag := by
  constructor
  · rintro ⟨d', hshown, htag⟩
    have hkind : d'.kind = d.kind := congrArg Shown.kind hshown
    have hfacets : d'.facets = d.facets := congrArg Shown.facets hshown
    have hstring : d'.string = d.string := congrArg Shown.string hshown
    exact (isTag_congr hkind (congrArg Facets.literal hfacets) hstring).1 htag
  · exact fun h => ⟨d, rfl, h⟩

/-- The tags of a node can be told from its children. -/
theorem Tree.Formed.told {source : Source} {t : Tree} (h : t.Formed source) :
    t.Told NodeData.Shown.IsTag := by
  constructor
  · exact fun g hg => NodeData.isTag_shown.2 (h.of_mem_tags hg).1
  · exact fun c hc => mt NodeData.isTag_shown.1 (h.not_isTag_of_mem_children c hc)

namespace Parse

/-- Two documents that have the same dump, whatever their names and texts, show the same, node by
node: their kinds, texts, facets and comments, with the same tags and the same children. -/
theorem document_dumps (source source' : Source)
    (h : (document source).dump = (document source').dump) :
    ∃ t t', (document source).root = some t ∧ (document source').root = some t' ∧ t.Agree t' :=
  ⟨_, _, rfl, rfl, Tree.agree_of_dump (fun v hv => (document_formed source v hv).told)
    (fun v hv => (document_formed source' v hv).told) h⟩

/-- A document with other blanks, and another comment that belongs to no node. -/
theorem document_dumps_respaced :
    let source : Source := ⟨"d", Utf8.ofString "@t(x, @) a: \"\\n\" // y\n\n/* z */\n\n@ ,b"⟩
    let source' : Source := ⟨"d", Utf8.ofString "@t(x,@)\na: \"\\n\" // y\n@\n,\nb"⟩
    source ≠ source' ∧ (document source).dump = (document source').dump ∧
      ∃ t t', (document source).root = some t ∧ (document source').root = some t' ∧
        t.Agree t' := by
  intro source source'
  have hdump : (document source).dump = (document source').dump := by decide +kernel
  exact ⟨by decide, hdump, document_dumps source source' hdump⟩

end Parse

end Metadoc
