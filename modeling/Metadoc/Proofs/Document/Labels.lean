import Metadoc.Document.Parse
import Metadoc.Proofs.Document.Depth
import Metadoc.Proofs.Document.Places
import Metadoc.Proofs.Document.Ranges
import Metadoc.Proofs.Document.Sides
import Metadoc.Proofs.Text.Encoding
import Metadoc.Proofs.Token.Context

/-!
# What labels say

A node with a label says what a token of the document says, and the bytes of the token alone say the
same.

* `Label.Faithful` says that a label says what its bytes say, `Lexeme.faithful_label` that the label
  that a lexeme is does so;
* `Source.LabelAt` says where the label of a node stands, and `Tree.LabeledBy` that a node has its
  label from there;
* `Grammar.Run.labeled` : whatever is read, its labels are labels of the document;
* `Parse.document_labels` : so are those of a whole document.
-/

namespace Metadoc

/-! ### Labels by themselves -/

namespace LiteralKind

/-- The kind of token that a label of a kind is. -/
def tokenKind : LiteralKind → TokenKind
  | identifier => .identifier
  | numeric => .numeric
  | string _ => .string
  | symbol => .symbol

/-- The delimiters of a label of a kind. -/
def style? : LiteralKind → Option StringStyle
  | string style => some style
  | _ => none

end LiteralKind

/-- Whether a label says what its bytes say. -/
structure Label.Faithful (label : Label) : Prop where
  /-- It has bytes. -/
  nonempty : label.bytes ≠ []
  /-- They are one token from the first to the last, of the kind and with the delimiters that the
  label records. -/
  token : ∃ error, Token.readAt label.bytes 0 =
    ⟨label.literal.tokenKind, 0, label.bytes, label.literal.style?, error⟩
  /-- No other token comes behind it. -/
  alone : Token.all label.bytes 0 = [Token.readAt label.bytes 0]
  /-- The label is shown as its bytes are, with a question mark for each byte that is not UTF-8. -/
  raw : Utf8.ofString label.raw = Utf8.shown label.bytes
  /-- A string literal says its body with the escapes resolved, any other label what is shown. -/
  string : label.string = if label.literal.style?.isSome then
    Literal.decode (Token.readAt label.bytes 0).body else label.raw

theorem Scan.Reads.isSome_style {b : UInt8} {rest : Bytes} {scan : Scan}
    (h : Reads b rest scan) : scan.style.isSome = true ↔ scan.kind = .string := by
  cases h <;> simp [lineComment, blockComment, Scan.literal]

theorem Token.isSome_style_of_mem_all {text : Bytes} {t : Token} (h : t ∈ all text 0) :
    t.style.isSome = true ↔ t.kind = .string := by
  obtain ⟨b, rest, -, hhead⟩ := exists_of_mem_all h
  rw [hhead]
  exact (Scan.reads_first b rest).isSome_style

theorem Token.all_bytes {text : Bytes} {t : Token} (h : t ∈ all text 0) :
    all t.bytes 0 = [{ t with start := 0 }] ∧ readAt t.bytes 0 = { t with start := 0 } := by
  obtain ⟨b, rest, hdrop, hhead⟩ := exists_of_mem_all h
  have hlt := start_lt_of_mem_all h
  have hread : readAt text t.start = t := by
    rw [readAt_eq_ofHead (Nat.le_of_lt hlt), hdrop]
    exact hhead.symm
  have hall := all_bytes_readAt hlt
  rw [hread] at hall
  have hpos : 0 < t.bytes.length := List.length_pos_iff.2 (bytes_ne_nil_of_mem_all h)
  refine ⟨hall, ?_⟩
  rw [all_eq_cons hpos] at hall
  exact (List.cons.inj hall).1

namespace Lexeme

variable {source : Source} {l : Lexeme}

theorem bytes_label (l : Lexeme) : l.label.bytes = l.bytes := by
  unfold label
  split <;> rfl

theorem raw_label (l : Lexeme) : l.label.raw = l.text := by
  unfold label
  split <;> rfl

theorem literal_label (hl : l.isLabel = true)
    (hstyle : l.style.isSome = true ↔ l.kind = .string) :
    l.label.literal.tokenKind = l.kind ∧ l.label.literal.style? = l.style := by
  unfold label
  split
  · rename_i style hs
    have hkind : l.kind = .string := hstyle.1 (by rw [hs]; rfl)
    exact ⟨hkind.symm, hs.symm⟩
  · rename_i hs
    have hkind : l.kind ≠ .string := fun hk => by simpa [hs] using hstyle.2 hk
    unfold isLabel at hl
    cases hk : l.kind with
    | identifier | numeric | symbol => exact ⟨rfl, hs.symm⟩
    | string => exact absurd hk hkind
    | whitespace | comment | badCharacter | endOfInput =>
      rw [hk] at hl
      cases hl

theorem string_label (l : Lexeme) :
    l.label.string = if l.style.isSome then Literal.decode l.body else l.text := by
  unfold label
  split
  · rename_i hs
    simp [hs]
  · rename_i hs
    simp [hs]

/-- The label that a lexeme of a document is says what its bytes say. -/
theorem faithful_label (hmem : l ∈ all source 0) (hl : l.isLabel = true) :
    l.label.Faithful := by
  have htoken : l.toToken ∈ Token.all source.bytes 0 := by
    rw [← Parse.toToken_all]
    exact List.mem_map_of_mem hmem
  obtain ⟨hkind, hstyle⟩ := literal_label hl (Token.isSome_style_of_mem_all htoken)
  obtain ⟨halone, hread⟩ := Token.all_bytes htoken
  have htext : l.text = Utf8.lossy (Utf8.shown l.bytes) :=
    (stands_of_mem_all (.inl source.sits_zero.boundary) hmem).text
  refine ⟨?_, ⟨l.error, ?_⟩, ?_, ?_, ?_⟩
  · rw [bytes_label]
    exact Token.bytes_ne_nil_of_mem_all htoken
  · rw [bytes_label, hread, hkind, hstyle]
  · rw [bytes_label, halone, hread]
  · rw [raw_label, bytes_label, htext]
    exact Utf8.ofString_lossy_shown l.bytes
  · rw [string_label, hstyle, bytes_label, hread, raw_label]
    rfl

end Lexeme

/-! ### Labels of nodes -/

/-- What a node says as its label, if it has one. -/
def NodeData.label? (d : NodeData) : Option Label :=
  d.facets.literal.map fun k => ⟨k, d.string, d.raw, d.bytes⟩

/-- Whether a token of a document is the label of a node of a kind that begins at `start`: it stands
there, or behind the at sign there if the node is a tag. -/
def Source.LabelAt (source : Source) (kind : NodeKind) (start : Nat) (token : Token) : Prop :=
  if kind = .tag then
    ∃ mark, mark.start = start ∧ mark.symbol? = some tagMark ∧
      Token.LeadsTo (Token.all source.bytes 0) mark token
  else token ∈ Token.all source.bytes 0 ∧ token.start = start

/-- Whether a label of a node is a label of a document, where sets are refused for the nodes
`refused`. -/
structure Tree.LabeledBy (source : Source) (refused : List Nat) (t : Tree) (label : Label) :
    Prop where
  /-- The node is no error, unless its set is refused. -/
  kind : t.data.kind = .main ∨ t.data.kind = .tag ∨ t.data.kind = .error ∧ t.id ∈ refused
  /-- The label has the bytes of a token in its place. -/
  token : ∃ token, source.LabelAt t.data.kind t.data.span.start token ∧
    token.isLabel = true ∧ token.bytes = label.bytes
  /-- It says what its bytes say. -/
  faithful : label.Faithful

/-- Whether the label of a node, if it has one, is a label of a document. -/
def Tree.Labeled (source : Source) (refused : List Nat) (t : Tree) : Prop :=
  ∀ label, t.data.label? = some label → t.LabeledBy source refused label

namespace Tree

variable {source : Source} {refused refused' : List Nat} {t u : Tree} {ts : List Tree}

theorem Labeled.mono (h : t.Labeled source refused) (hsub : refused ⊆ refused') :
    t.Labeled source refused' := fun label hlabel => by
  have hby := h label hlabel
  exact ⟨hby.kind.imp_right (Or.imp_right fun ⟨hk, hmem⟩ => ⟨hk, hsub hmem⟩), hby.token,
    hby.faithful⟩

theorem every_labeled_mono (h : Every (Labeled source refused) ts) (hsub : refused ⊆ refused') :
    Every (Labeled source refused') ts := fun t ht => (h t ht).mono hsub

end Tree

namespace State

theorem Grows.tooDeep {s s' : State} (h : Grows s s') : s.tooDeep ⊆ s'.tooDeep :=
  ((h.reports.sublist.filter _).map _).subset

theorem RefusesSet.mem {s : State} {id : Nat} {r : Read SetBody} (h : s.RefusesSet id r)
    (hrefused : r.value.refused = true) : id ∈ r.state.tooDeep := by
  rcases h with ⟨-, -, -, hdeep⟩ | ⟨hnot, -⟩
  · rw [hdeep]
    exact List.mem_append_right _ List.mem_cons_self
  · rw [hrefused] at hnot
    cases hnot

end State

namespace Grammar

open Metadoc.Tree (Every Labeled)

variable {source : Source} {s s' : State} {ts : List Tree} {refused : List Nat}

theorem labeled_close_of_none {facets : Facets} (h : Every (Labeled source refused) ts)
    (hnone : facets.literal = none) (id start : Nat) (kind : NodeKind) (label : Label) :
    Every (Labeled source refused) [(close id start kind label facets ts s).value] := by
  refine Tree.every_singleton.2 ⟨fun label' hlabel => ?_, Tree.every_nil, h⟩
  have hnil : (close id start kind label facets ts s).value.data.label? = none := by
    simp [close, Tree.data, NodeData.label?, hnone]
  rw [hnil] at hlabel
  cases hlabel

theorem labeled_unexpected (s : State) :
    Every (Labeled source refused) [(unexpected s).value] := by
  unfold unexpected
  dsimp only
  split <;> exact labeled_close_of_none Tree.every_nil rfl _ _ _ _

theorem labeled_untaggable (ts : List Tree) (s : State) :
    Every (Labeled source refused) [(untaggable ts s).value] :=
  labeled_close_of_none Tree.every_nil rfl _ _ _ _

/-- A node that says what a lexeme says in its place has a label of the document. -/
theorem labeled_close {l : Lexeme} {id start : Nat} {kind : NodeKind} {facets : Facets}
    (h : Every (Labeled source refused) ts)
    (hkind : kind = .main ∨ kind = .tag ∨ kind = .error ∧ id ∈ refused)
    (hplace : source.LabelAt kind start l.toToken)
    (hmem : l ∈ Lexeme.all source 0) (hl : l.isLabel = true)
    (hliteral : facets.literal = some l.label.literal) :
    Every (Labeled source refused) [(close id start kind l.label facets ts s).value] := by
  refine Tree.every_singleton.2 ⟨fun label hlabel => ?_, Tree.every_nil, h⟩
  obtain rfl : l.label = label := by
    simpa [close, Tree.data, NodeData.label?, hliteral] using hlabel
  exact ⟨hkind, ⟨l.toToken, hplace, hl, (Lexeme.bytes_label l).symm⟩,
    Lexeme.faithful_label hmem hl⟩

theorem labeled_tag {l : Lexeme} {facets : Facets} (h : Every (Labeled source refused) ts)
    (hs : s.Between source) (hat : s.cursor.isAt tagMark = true)
    (hl : s.advance.cursor.label? = some l) (hliteral : facets.literal = some l.label.literal)
    (id : Nat) :
    Every (Labeled source refused)
      [(close id s.cursor.pos .tag l.label facets ts s').value] := by
  obtain ⟨hlexeme, hisLabel⟩ := Option.filter_eq_some_iff.1 hl
  obtain ⟨mark, hmark, hsymbol⟩ := Option.bind_eq_some_iff.1 (of_decide_eq_true hat)
  have hplace : source.LabelAt .tag s.cursor.pos l.toToken := by
    rw [Source.LabelAt, if_pos rfl]
    refine ⟨mark.toToken, ?_, hsymbol, hs.leadsTo hmark hlexeme⟩
    rw [Cursor.pos, Cursor.span_of_lexeme hmark]
    rfl
  have hmem := ((State.steps_between source).advance s hs).mem_all hlexeme
  exact labeled_close h (.inr (.inl rfl)) hplace hmem hisLabel hliteral

theorem labeled_labeledNode {l : Lexeme} {set : Read SetBody}
    (h : Every (Labeled source set.state.tooDeep) set.value.children) (hs : s.Between source)
    (hl : s.cursor.label? = some l) {id : Nat}
    (hrefused : set.value.refused = true → id ∈ set.state.tooDeep) :
    Every (Labeled source set.state.tooDeep) [(labeledNode id l.start l.label set).value] := by
  obtain ⟨hlexeme, hisLabel⟩ := Option.filter_eq_some_iff.1 hl
  have hmem := hs.mem_all hlexeme
  have hkind : set.value.kind = .main ∨ set.value.kind = .tag ∨
      set.value.kind = .error ∧ id ∈ set.state.tooDeep := by
    unfold SetBody.kind
    split
    · exact .inr (.inr ⟨rfl, hrefused ‹_›⟩)
    · exact .inl rfl
  have hnotTag : set.value.kind ≠ .tag := by
    unfold SetBody.kind
    split <;> nofun
  have hplace : source.LabelAt set.value.kind l.start l.toToken := by
    rw [Source.LabelAt, if_neg hnotTag, ← Parse.toToken_all]
    exact ⟨List.mem_map_of_mem hmem, rfl⟩
  exact labeled_close h hkind hplace hmem hisLabel rfl

theorem labeled_dress {t : Tree} (h : Every (Labeled source refused) [t])
    (hts : Every (Labeled source refused) ts) (pre : String) :
    Every (Labeled source refused) [dress pre ts t] := by
  obtain ⟨hroot, -, hchildren⟩ := Tree.every_singleton.1 h
  cases t
  refine Tree.every_singleton.2 ⟨fun label hlabel => ?_, hts, hchildren⟩
  have hby := hroot label hlabel
  exact ⟨hby.kind, hby.token, hby.faithful⟩

theorem labeled_precede (sep : Option Separator) {t : Tree}
    (h : Every (Labeled source refused) [t]) :
    Every (Labeled source refused) [precede sep t] := by
  obtain ⟨hroot, hbelow⟩ := Tree.every_singleton.1 h
  cases t
  refine Tree.every_singleton.2 ⟨fun label hlabel => ?_, hbelow⟩
  have hby := hroot label hlabel
  exact ⟨hby.kind, hby.token, hby.faithful⟩

theorem labeled_follow (sep : Separator) {t : Tree} (s : State)
    (h : Every (Labeled source refused) [t]) :
    Every (Labeled source refused) [(follow sep t s).value] := by
  obtain ⟨hroot, hbelow⟩ := Tree.every_singleton.1 h
  cases t
  unfold follow
  dsimp only
  split
  all_goals
    refine Tree.every_singleton.2 ⟨fun label hlabel => ?_, hbelow⟩
    have hby := hroot label hlabel
    exact ⟨hby.kind, hby.token, hby.faithful⟩

/-- Whatever is read, its labels are labels of the document. -/
theorem Run.labeled {n : Nat} {part : Part} {r : Read SetBody} (h : Run n part s r)
    (hs : s.Between source) : Every (Labeled source r.state.tooDeep) r.value.children := by
  induction h with
  | namelessTag _ _ => exact labeled_close_of_none Tree.every_nil rfl _ _ _ _
  | plainTag hat hl _ => exact labeled_tag Tree.every_nil hs hat hl rfl _
  | @tagWithArguments _ s l r hat hl _ args ih =>
    have hname := (State.steps_between source).behindLabel _ l
      ((State.steps_between source).advance s hs)
    have hargs := ih hname
    rw [Read.one_state, tooDeep_close]
    exact labeled_tag hargs hs hat hl rfl _
  | tagsEnd _ | bracketedRefused _ | lineMissing _ | lineRefused _ | entriesEnd _ =>
    exact Tree.every_nil
  | tagsCons _ first rest ihFirst ihRest =>
    have hbehind := (State.steps_between source).run first hs
    have hfirst := Tree.every_labeled_mono (ihFirst hs) rest.grows.tooDeep
    exact Tree.every_cons.2 ⟨hfirst, ihRest hbehind⟩
  | bracketedClosed _ _ _ ih =>
    rw [State.tooDeep_advance]
    exact ih ((State.steps_between source).advance _ hs)
  | bracketedOpen _ _ _ ih =>
    have hbody := ih ((State.steps_between source).advance _ hs)
    exact Tree.every_labeled_mono hbody (State.grows_report _ _ _ _).tooDeep
  | lineRead _ _ ih => exact ih hs
  | @label _ _ _ s l hl _ =>
    rw [Read.one_state, labeledNode, tooDeep_close]
    exact labeled_labeledNode Tree.every_nil hs hl fun h => absurd h Bool.false_ne_true
  | @labeledSet _ _ _ s l _ r hl _ _ _ body ih =>
    have hbehind := (State.steps_between source).advance _
      ((State.steps_between source).behindLabel s l hs)
    simp only [Read.one_state, Read.one_value, tooDeep_reportCramped, reportCramped_value]
    rw [labeledNode, tooDeep_close]
    exact labeled_labeledNode (ih hbehind) hs hl body.refuses.mem
  | @labeledLine _ _ _ s l r hl _ _ body ih =>
    have hbehind := (State.steps_between source).advance _
      ((State.steps_between source).behindLabel s l hs)
    rw [Read.one_state, labeledNode, tooDeep_close]
    exact labeled_labeledNode (ih hbehind) hs hl body.refuses.mem
  | @unlabeled _ ctx ts s _ r _ _ body ih =>
    have hbegun : (if ctx = .line then
        s.alloc.state.report (.unlabeledSet (!ts.isEmpty)) s.cursor.span s.count
      else s.alloc.state).Between source := by
      split <;> exact hs.of_eq rfl
    rw [Read.one_state, tooDeep_close]
    exact labeled_close_of_none (ih hbegun) rfl _ _ _ _
  | untaggable _ _ => exact labeled_untaggable _ _
  | unexpected _ _ _ | stray _ _ => exact labeled_unexpected _
  | node tags bare ihTags ihBare =>
    have hbehind := (State.steps_between source).run tags hs
    have htags := Tree.every_labeled_mono (ihTags hs) bare.grows.tooDeep
    exact labeled_dress (ihBare hbehind) htags _
  | entry _ ih => exact ih hs
  | extraSeparator _ _ _ ih =>
    have hbehind := (State.steps_between source).unexpected _ hs
    exact Tree.every_cons.2 ⟨labeled_unexpected _, ih hbehind⟩
  | @separated _ _ pending s e sep r _ _ first _ rest ihFirst ihRest =>
    have hbehind := (State.steps_between source).follow sep (precede pending e.value) _
      ((State.steps_between source).run first hs)
    have hgrows := (grows_follow sep (precede pending e.value) e.state).trans rest.grows
    have hfirst := Tree.every_labeled_mono (ihFirst hs) hgrows.tooDeep
    exact Tree.every_cons.2 ⟨labeled_follow sep _ (labeled_precede pending hfirst),
      ihRest hbehind⟩
  | @unseparated _ _ pending s e r _ _ first _ rest ihFirst ihRest =>
    have hbehind := (State.steps_between source).run first hs
    have hfirst := Tree.every_labeled_mono (ihFirst hs) rest.grows.tooDeep
    exact Tree.every_cons.2 ⟨labeled_precede pending hfirst, ihRest hbehind⟩
  | lineLast _ _ ih => exact ih hs
  | lineCons first _ rest ihFirst ihRest =>
    have hbehind := (State.steps_between source).run first hs
    have hfirst := Tree.every_labeled_mono (ihFirst hs) rest.grows.tooDeep
    exact Tree.every_cons.2 ⟨hfirst, ihRest hbehind⟩

end Grammar

/-! ### Documents -/

namespace Parse

/-- The nodes of a parse whose sets are refused. -/
def refused (p : Parse) : List Nat :=
  (p.reports.filter (·.problem = .tooDeep)).map Report.node

/-- In every document a node with a label says what a token in its place says, and what the bytes of
that token say by themselves. -/
theorem document_labels (source : Source) : ∀ t ∈ (document source).nodes, ∀ label,
    t.data.label? = some label → t.LabeledBy source (document source).refused label := by
  have hrun := Grammar.run_entries Grammar.maxDepth .top (State.begin source 0).alloc.state
  rw [document_of_run hrun]
  exact List.forall_mem_cons.2 ⟨nofun, hrun.labeled ((State.between_begin source).of_eq rfl)⟩

/-- In a document that ends inside a string literal, behind a byte that is not UTF-8, a node says as
much of the literal as there is. -/
theorem document_labels_unterminated :
    let source : Source := ⟨"d", [0x40, 0x61, 0x20, 0x22, 0x5C, 0x74, 0xFF]⟩
    let label : Label :=
      ⟨.string ⟨.double, false⟩, "\t\uFFFD", "\"\\t?", [0x22, 0x5C, 0x74, 0xFF]⟩
    ∃ t ∈ (document source).nodes, t.data.label? = some label ∧
      t.LabeledBy source (document source).refused label := by
  intro source label
  have hread : (document source).nodes[1]?.map (·.data.label?) = some (some label) := by
    decide +kernel
  obtain ⟨t, ht, hlabel⟩ := Option.map_eq_some_iff.1 hread
  have hmem := List.mem_of_getElem? ht
  exact ⟨t, hmem, hlabel, document_labels source t hmem label hlabel⟩

end Parse

end Metadoc
