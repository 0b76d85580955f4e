import Metadoc.Proofs.Document.Labels
import Metadoc.Proofs.Document.Origins

/-!
# Tags, entries and stand-ins

What a node says tells where it may stand: in a list of tags, in a list of entries, or in a list of
entries as a stand-in for a separator that has none before it.

* `NodeData.IsMark` says of a node that it stands for a mark that could not be read;
* `NodeData.IsTag` and `NodeData.IsExtra` : a node is a tag, or stands for a separator too many;
* `Tree.Listed` says that a node is another one with separators beside it;
* `Lexeme.reserved_of_not_label` : a word that is no label is a reserved symbol;
* `Grammar.Run.marked` : tags are tags, entries are neither tags nor separators, and neither of them
  has a separator beside it before it is put in a list of entries;
* `Tree.Formed.of_mem_tags` and `Tree.Formed.not_isTag_of_mem_children` : so it is at the nodes of a
  document.
-/

namespace Metadoc

/-! ### Nodes -/

/-- How a separator is shown. -/
def Separator.text : Separator → String
  | .comma => ","
  | .semicolon => ";"

/-- Whether a node is an error without a label that stands for a text. -/
structure NodeData.IsMark (d : NodeData) (text : String) : Prop where
  /-- It is an error. -/
  kind : d.kind = .error
  /-- It has no label. -/
  literal : d.facets.literal = none
  /-- It says the text. -/
  string : d.string = text

namespace NodeData

instance (d : NodeData) (text : String) : Decidable (d.IsMark text) :=
  decidable_of_iff (d.kind = .error ∧ d.facets.literal = none ∧ d.string = text)
    ⟨fun ⟨hkind, hliteral, hstring⟩ => ⟨hkind, hliteral, hstring⟩,
      fun h => ⟨h.kind, h.literal, h.string⟩⟩

/-- Whether a node is a tag, or stands for an at sign that has no name behind it. -/
def IsTag (d : NodeData) : Prop := d.kind = .tag ∨ d.IsMark "@"

/-- Whether a node stands for a separator that has no entry before it. -/
def IsExtra (d : NodeData) : Prop :=
  d.IsMark Separator.comma.text ∨ d.IsMark Separator.semicolon.text

/-- Whether a node has no separator beside it. -/
structure Unseparated (d : NodeData) : Prop where
  /-- There is none before it. -/
  before : d.facets.precededBy = none
  /-- There is none behind it. -/
  behind : d.facets.followedBy = none

/-- Whether a node is as an entry that has been read, but is in no list yet. -/
structure IsEntry (d : NodeData) : Prop where
  /-- It is no tag. -/
  notTag : ¬d.IsTag
  /-- It is no separator. -/
  notExtra : ¬d.IsExtra
  /-- It has no separator beside it. -/
  unseparated : d.Unseparated

instance (d : NodeData) : Decidable d.IsTag := inferInstanceAs (Decidable (_ ∨ _))
instance (d : NodeData) : Decidable d.IsExtra := inferInstanceAs (Decidable (_ ∨ _))

variable {d d' : NodeData}

theorem IsMark.congr {text : String} (h : d.IsMark text) (hkind : d'.kind = d.kind)
    (hliteral : d'.facets.literal = d.facets.literal) (hstring : d'.string = d.string) :
    d'.IsMark text :=
  ⟨hkind.trans h.kind, hliteral.trans h.literal, hstring.trans h.string⟩

theorem isTag_congr (hkind : d'.kind = d.kind) (hliteral : d'.facets.literal = d.facets.literal)
    (hstring : d'.string = d.string) : d'.IsTag ↔ d.IsTag := by
  constructor
  · exact Or.imp hkind.symm.trans (·.congr hkind.symm hliteral.symm hstring.symm)
  · exact Or.imp hkind.trans (·.congr hkind hliteral hstring)

theorem isExtra_congr (hkind : d'.kind = d.kind)
    (hliteral : d'.facets.literal = d.facets.literal) (hstring : d'.string = d.string) :
    d'.IsExtra ↔ d.IsExtra := by
  constructor
  · exact Or.imp (·.congr hkind.symm hliteral.symm hstring.symm)
      (·.congr hkind.symm hliteral.symm hstring.symm)
  · exact Or.imp (·.congr hkind hliteral hstring) (·.congr hkind hliteral hstring)

theorem IsEntry.congr (h : d.IsEntry) (hkind : d'.kind = d.kind)
    (hliteral : d'.facets.literal = d.facets.literal) (hstring : d'.string = d.string)
    (hunseparated : d'.Unseparated) : d'.IsEntry :=
  ⟨mt (isTag_congr hkind hliteral hstring).1 h.notTag,
    mt (isExtra_congr hkind hliteral hstring).1 h.notExtra, hunseparated⟩

theorem IsExtra.not_isTag (h : d.IsExtra) : ¬d.IsTag := by
  obtain ⟨text, hmark, hne⟩ : ∃ text, d.IsMark text ∧ text ≠ "@" := by
    rcases h with h | h
    · exact ⟨_, h, by decide⟩
    · exact ⟨_, h, by decide⟩
  rintro (hkind | htag)
  · rw [hmark.kind] at hkind
    cases hkind
  · exact hne (hmark.string.symm.trans htag.string)

/-- What is neither a tag by its kind nor an error with one of the texts is an entry. -/
theorem isEntry_of_string (hkind : d.kind ≠ .tag) (hunseparated : d.Unseparated)
    (h : d.kind = .error → d.facets.literal = none →
      d.string ∉ ["@", Separator.comma.text, Separator.semicolon.text]) : d.IsEntry := by
  have hmark {text : String}
      (hmem : text ∈ ["@", Separator.comma.text, Separator.semicolon.text]) : ¬d.IsMark text :=
    fun hd => h hd.kind hd.literal (hd.string ▸ hmem)
  refine ⟨fun htag => ?_, fun hextra => ?_, hunseparated⟩
  · exact htag.elim hkind (hmark (by simp))
  · exact hextra.elim (hmark (by simp)) (hmark (by simp))

theorem isEntry_of_literal {k : LiteralKind} (hkind : d.kind ≠ .tag)
    (hunseparated : d.Unseparated) (h : d.facets.literal = some k) : d.IsEntry :=
  isEntry_of_string hkind hunseparated fun _ hnone => by rw [h] at hnone; cases hnone

theorem isEntry_of_empty (hkind : d.kind ≠ .tag) (hunseparated : d.Unseparated)
    (h : d.string = "") : d.IsEntry :=
  isEntry_of_string hkind hunseparated fun _ _ => by rw [h]; decide

end NodeData

/-- Whether a node is another one in its place in a list of entries, where separators may stand
beside it, and a comment behind it. -/
structure Tree.Listed (t u : Tree) : Prop where
  /-- The kind is the same, -/
  kind : u.data.kind = t.data.kind
  /-- so is the kind of the label, -/
  literal : u.data.facets.literal = t.data.facets.literal
  /-- the text, -/
  string : u.data.string = t.data.string
  /-- the comment above, -/
  pre : u.data.pre = t.data.pre
  /-- the range, -/
  span : u.data.span = t.data.span
  /-- and the tags. -/
  tags : u.tags = t.tags

namespace Tree.Listed

variable {t u v : Tree}

theorem trans (h : Listed t u) (h' : Listed u v) : Listed t v :=
  ⟨h'.kind.trans h.kind, h'.literal.trans h.literal, h'.string.trans h.string,
    h'.pre.trans h.pre, h'.span.trans h.span, h'.tags.trans h.tags⟩

theorem isTag_iff (h : Listed t u) : u.data.IsTag ↔ t.data.IsTag :=
  NodeData.isTag_congr h.kind h.literal h.string

theorem isExtra_iff (h : Listed t u) : u.data.IsExtra ↔ t.data.IsExtra :=
  NodeData.isExtra_congr h.kind h.literal h.string

theorem firstStart_eq (h : Listed t u) : u.firstStart = t.firstStart :=
  firstStart_congr h.span h.tags

end Tree.Listed

/-! ### Words -/

namespace Lexeme

variable {source : Source} {l : Lexeme}

/-- A word that is no label is a reserved symbol, and shown as such. -/
theorem reserved_of_not_label (hmem : l ∈ all source 0) (hcontent : l.isTrivia = false)
    (hl : l.isLabel = false) : ∃ b ∈ reservedSymbols, l.symbol? = some b ∧
      l.text = Utf8.lossy (Utf8.shown [b]) := by
  have htext : l.text = Utf8.lossy (Utf8.shown l.bytes) :=
    (stands_of_mem_all (.inl source.sits_zero.boundary) hmem).text
  have htoken : l.toToken ∈ Token.all source.bytes 0 := by
    rw [← Parse.toToken_all]
    exact List.mem_map_of_mem hmem
  obtain ⟨b, rest, -, hhead⟩ := Token.exists_of_mem_all htoken
  have hend : l.kind ≠ .endOfInput := by
    rw [hhead]
    exact Scan.kind_first_ne b rest
  unfold isLabel at hl
  cases hk : l.kind with
  | symbol =>
    rw [hk] at hl
    obtain ⟨c, hc, hreserved⟩ : ∃ c, l.symbol? = some c ∧ reservedSymbols.contains c = true := by
      simpa [Option.any_eq_true] using hl
    refine ⟨c, List.contains_iff_mem.1 hreserved, hc, ?_⟩
    rw [htext, Token.bytes_of_symbol hc]
  | identifier | numeric | string => simp [hk] at hl
  | whitespace | comment | badCharacter =>
    simp [Token.isTrivia, TokenKind.isTrivia, hk] at hcontent
  | endOfInput => exact absurd hk hend

end Lexeme

theorem Cursor.separator?_of_atLineEnd {c : Cursor} (h : c.atLineEnd = false) :
    c.separator? = none := by
  simp only [atLineEnd, Bool.or_eq_false_iff, Option.isSome_eq_false_iff,
    Option.isNone_iff_eq_none] at h
  exact h.2

/-- Where reading stands before a word that is no label, the word is a reserved symbol. -/
theorem State.Between.reserved {source : Source} {s : State} {l : Lexeme} (h : s.Between source)
    (hl : s.cursor.lexeme? = some l) (hlabel : s.cursor.label? = none) :
    ∃ b ∈ reservedSymbols, s.cursor.symbol? = some b ∧ l.text = Utf8.lossy (Utf8.shown [b]) := by
  have hmem := h.mem_all hl
  obtain ⟨behind, hsplits⟩ := h
  rw [Cursor.label?, hl, Option.filter_eq_none_iff] at hlabel
  obtain ⟨b, hb, hsymbol, htext⟩ := Lexeme.reserved_of_not_label hmem (hsplits.advance hl).1
    (Bool.eq_false_iff.2 (hlabel l rfl))
  exact ⟨b, hb, by rw [Cursor.symbol?, hl]; exact hsymbol, htext⟩

/-! ### Parts of the grammar -/

namespace Grammar

variable {source : Source} {n : Nat} {s : State}

theorem listed_precede (sep : Option Separator) (t : Tree) : t.Listed (precede sep t) := by
  cases t
  exact ⟨rfl, rfl, rfl, rfl, rfl, rfl⟩

theorem listed_follow (sep : Separator) (t : Tree) (s : State) :
    t.Listed (follow sep t s).value := by
  unfold follow
  dsimp only
  split <;> exact ⟨rfl, rfl, rfl, rfl, rfl, rfl⟩

theorem data_unexpected (s : State) :
    (unexpected s).value.data.kind = .error ∧ (unexpected s).value.data.Unseparated ∧
      (unexpected s).value.data.facets.literal = none ∧
      (unexpected s).value.data.string = (s.cursor.lexeme?.map Lexeme.text).getD "" := by
  unfold unexpected
  dsimp only
  split
  · rename_i l hl
    exact ⟨rfl, ⟨rfl, rfl⟩, rfl, by rw [hl]; rfl⟩
  · rename_i hnone
    exact ⟨rfl, ⟨rfl, rfl⟩, rfl, by rw [hnone]; rfl⟩

theorem isExtra_unexpected (hs : s.Underway source) (h : s.cursor.separator?.isSome = true) :
    (unexpected s).value.data.IsExtra := by
  obtain ⟨hkind, -, hliteral, hstring⟩ := data_unexpected s
  obtain ⟨sep, hsep⟩ := Option.isSome_iff_exists.1 h
  obtain ⟨b, hsymbol, hbyte⟩ := Option.bind_eq_some_iff.1 hsep
  obtain ⟨l, hl, hb⟩ := Option.bind_eq_some_iff.1 hsymbol
  obtain rfl := Separator.ofByte?_eq_some hbyte
  have htext : l.text = Utf8.lossy (Utf8.shown l.bytes) :=
    (Lexeme.stands_of_mem_all (.inl source.sits_zero.boundary) (hs.between.mem_all hl)).text
  rw [hl, Option.map_some, Option.getD_some, htext, Token.bytes_of_symbol hb] at hstring
  cases sep with
  | comma => exact .inl ⟨hkind, hliteral, hstring.trans (by decide)⟩
  | semicolon => exact .inr ⟨hkind, hliteral, hstring.trans (by decide)⟩

/-- Reserved symbols are shown in different ways. -/
theorem reserved_shown : ∀ b ∈ reservedSymbols, b ≠ tagMark → Separator.ofByte? b = none →
    Utf8.lossy (Utf8.shown [b]) ∉ ["@", Separator.comma.text, Separator.semicolon.text] := by
  decide +kernel

theorem isEntry_unexpected (hs : s.Underway source) (hlabel : s.cursor.label? = none)
    (hat : s.cursor.isAt tagMark = false) (hsep : s.cursor.separator? = none) :
    (unexpected s).value.data.IsEntry := by
  obtain ⟨hkind, hunseparated, -, hstring⟩ := data_unexpected s
  refine NodeData.isEntry_of_string (by rw [hkind]; nofun) hunseparated fun _ _ => ?_
  rw [hstring]
  cases hl : s.cursor.lexeme? with
  | none => decide
  | some l =>
    obtain ⟨b, hb, hsymbol, htext⟩ := hs.between.reserved hl hlabel
    rw [Cursor.isAt, hsymbol, decide_eq_false_iff_not, Option.some.injEq] at hat
    rw [Cursor.separator?, hsymbol] at hsep
    rw [Option.map_some, Option.getD_some, htext]
    exact reserved_shown b hb hat hsep

theorem kind_ne_tag (b : SetBody) : b.kind ≠ .tag := by
  unfold SetBody.kind
  split <;> nofun

theorem isEntry_labeledNode (id start : Nat) (label : Label) (set : Read SetBody) :
    (labeledNode id start label set).value.data.IsEntry :=
  NodeData.isEntry_of_literal (kind_ne_tag set.value) ⟨rfl, rfl⟩ rfl

/-- What a part yields: tags, or entries, or what is put in a list of entries.  Behind the tags of
an entry no further tag is ahead, and where one word is read in its place, that is no separator. -/
def Part.Marked (s : State) (r : Read SetBody) : Part → Prop
  | .tag => ∀ g ∈ r.value.children, g.data.IsTag ∧ g.data.Unseparated
  | .tags => r.state.cursor.isAt tagMark = false ∧
      ∀ g ∈ r.value.children, g.data.IsTag ∧ g.data.Unseparated
  | .bare .. => s.cursor.isAt tagMark = false → ∀ t ∈ r.value.children, t.data.IsEntry
  | .entry _ => s.cursor.separator? = none → ∀ t ∈ r.value.children, t.data.IsEntry
  | .node _ | .lineEntries => ∀ t ∈ r.value.children, t.data.IsEntry
  | .entries .. => ∀ t ∈ r.value.children, ¬t.data.IsTag
  | _ => True

/-- Tags are tags, and entries are neither tags nor separators.  No separator is beside any of them
before they are put in a list of entries. -/
theorem Run.marked {part : Part} {r : Read SetBody} (h : Run n part s r)
    (hs : s.Underway source) : part.Marked s r := by
  have hunderway := State.steps_underway source
  induction h with
  | namelessTag _ _ =>
    exact List.forall_mem_singleton.2 ⟨.inr ⟨rfl, rfl, rfl⟩, rfl, rfl⟩
  | plainTag _ _ _ | tagWithArguments _ _ _ _ _ =>
    exact List.forall_mem_singleton.2 ⟨.inl rfl, rfl, rfl⟩
  | tagsEnd hat => exact ⟨hat, nofun⟩
  | tagsCons _ first rest ihFirst ihRest =>
    obtain ⟨hend, hrest⟩ := ihRest (hunderway.run first hs)
    exact ⟨hend, List.forall_mem_cons.2 ⟨ihFirst hs _ List.mem_cons_self, hrest⟩⟩
  | label _ _ | labeledLine _ _ _ _ _ =>
    exact fun _ => List.forall_mem_singleton.2 (isEntry_labeledNode ..)
  | labeledSet _ _ _ _ _ _ =>
    simp only [Part.Marked, Read.one_value, reportCramped_value]
    exact fun _ => List.forall_mem_singleton.2 (isEntry_labeledNode ..)
  | unlabeled _ _ _ _ =>
    exact fun _ => List.forall_mem_singleton.2
      (NodeData.isEntry_of_empty (kind_ne_tag _) ⟨rfl, rfl⟩ rfl)
  | untaggable _ _ =>
    exact fun _ => List.forall_mem_singleton.2
      (NodeData.isEntry_of_empty nofun ⟨rfl, rfl⟩ rfl)
  | unexpected hl _ he =>
    intro hat
    -- A separator ends the line, so the word is none; that it is no at sign is known from the tags.
    have hsep := Cursor.separator?_of_atLineEnd he
    exact List.forall_mem_singleton.2 (isEntry_unexpected hs hl hat hsep)
  | @node _ _ s ts t tags bare ihTags ihBare =>
    obtain ⟨hend, -⟩ := ihTags hs
    have hentry := ihBare (hunderway.run tags hs) hend _ List.mem_cons_self
    refine List.forall_mem_singleton.2 ?_
    cases htree : t.value
    rw [htree] at hentry
    exact hentry.congr rfl rfl rfl ⟨hentry.unseparated.before, hentry.unseparated.behind⟩
  | entry _ ih => exact fun _ => ih hs
  | stray hnone hat =>
    intro hsep
    exact List.forall_mem_singleton.2 (isEntry_unexpected hs hnone.1 hat hsep)
  | entriesEnd _ => exact nofun
  | @extraSeparator _ _ _ s _ _ hsep _ ih =>
    exact List.forall_mem_cons.2
      ⟨(isExtra_unexpected hs hsep).not_isTag, ih (hunderway.unexpected s hs)⟩
  | @separated _ _ pending s e sep r _ hsep first _ rest ihFirst ihRest =>
    have hentry := ihFirst hs hsep e.value List.mem_cons_self
    have hlisted := (listed_precede pending e.value).trans (listed_follow sep _ e.state)
    have hbehind := hunderway.follow sep (precede pending e.value) _ (hunderway.run first hs)
    exact List.forall_mem_cons.2 ⟨mt hlisted.isTag_iff.1 hentry.notTag, ihRest hbehind⟩
  | @unseparated _ _ pending s e r _ hsep first _ rest ihFirst ihRest =>
    have hentry := ihFirst hs hsep e.value List.mem_cons_self
    have hlisted := listed_precede pending e.value
    exact List.forall_mem_cons.2
      ⟨mt hlisted.isTag_iff.1 hentry.notTag, ihRest (hunderway.run first hs)⟩
  | lineLast _ _ ih => exact ih hs
  | lineCons first _ rest ihFirst ihRest =>
    exact List.forall_mem_cons.2
      ⟨ihFirst hs _ List.mem_cons_self, ihRest (hunderway.run first hs)⟩
  | _ => trivial

end Grammar

/-! ### Nodes of a document -/

namespace Tree.Formed

variable {source : Source} {t : Tree} (h : t.Formed source)
include h

/-- The tags of a node are tags, with no separators beside them. -/
theorem of_mem_tags {g : Tree} (hg : g ∈ t.tags) : g.data.IsTag ∧ g.data.Unseparated := by
  obtain ⟨n, s, r, hs, hrun, hall⟩ := h.tags (List.ne_nil_of_mem hg)
  rw [← hall] at hg
  exact (hrun.marked hs).2 g hg

/-- The children of a node are no tags. -/
theorem not_isTag_of_mem_children : ∀ c ∈ t.children, ¬c.data.IsTag := by
  refine @Tree.Formed.children_induction source t (fun ts => ∀ c ∈ ts, ¬c.data.IsTag) h nofun
    (fun hs hrun => ?_) fun hs hrun c hc => ?_
  · exact hrun.marked hs
  · exact (hrun.marked hs c hc).notTag

theorem isEntry_of_mem_line {c : Tree} (hc : c ∈ t.children) (hkind : t.data.kind ≠ .file)
    (hopened : t.data.facets.opened = none) : c.data.IsEntry := by
  cases h.children (List.ne_nil_of_mem hc) with
  | document hfile _ _ _ _ => exact absurd hfile hkind
  | bracketed _ _ _ _ hsome _ _ =>
    rw [hopened] at hsome
    cases hsome
  | line _ hs _ hrun hall =>
    rw [← hall] at hc
    exact hrun.marked hs c hc

end Tree.Formed

end Metadoc
