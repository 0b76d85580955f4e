import Metadoc.Proofs.Document.Extension
import Metadoc.Proofs.Document.Openings
import Metadoc.Proofs.Forest.Groups

/-!
# Separators between entries

A separator is recorded at the entries on both sides of it, or stands in the list as a node of its
own if it has no entry before it.

* `Source.separated` says that a separator stands between two nodes of a document;
* `Tree.Paired` says that the entries of a list agree on the separators between them, and
  `Grammar.Run.paired` that this is so wherever entries are read;
* `Parse.document_separators` : so it is at all nodes of a document, and the groups of their
  children are those that separators delimit.
-/

namespace Metadoc

/-! ### Tokens between nodes -/

/-- The separator that a token is. -/
def Token.separator? (t : Token) : Option Separator := t.symbol?.bind Separator.ofByte?

/-- Whether a separator stands in a document behind a node and before the first token of another. -/
def Source.separated (source : Source) (a b : Tree) : Bool :=
  (Token.all source.bytes 0).any fun t =>
    t.separator?.isSome && decide (a.data.span.stop ≤ t.start) && decide (t.start < b.firstStart)

namespace State.Underway

variable {source : Source} {s : State} (hs : s.Underway source)
include hs

theorem behind_or_ahead {l : Lexeme} (hl : l ∈ Lexeme.all source 0)
    (hcontent : l.isTrivia = false) : l.stop ≤ s.cursor.prevEnd ∨ s.cursor.pos ≤ l.start := by
  have htile := hs.tiled
  obtain ⟨behind, hsplits⟩ := hs.between
  rw [hsplits.all, List.mem_append] at hl
  rcases hl with hbehind | hahead
  · exact .inl (hsplits.stop_le hbehind)
  · right
    -- What is ahead is a gap, then the word from which on everything begins later.
    cases hw : s.cursor.ahead with
    | nil =>
      rw [hw, List.flatMap_nil, List.nil_append] at hahead
      rw [hsplits.tail l hahead] at hcontent
      cases hcontent
    | cons w ws =>
      rw [hw, List.flatMap_cons, Word.lexemes, List.append_assoc, List.append_assoc] at hahead
      rw [Cursor.Tiled, hw, List.flatMap_cons, Word.lexemes, List.append_assoc,
        List.append_assoc] at htile
      obtain ⟨mid, -, hrest⟩ := Lexeme.tile_append.1 htile
      have hpos : s.cursor.pos = mid := by
        rw [Cursor.pos, Cursor.span_of_cons hw]
        exact hrest.1
      rcases List.mem_append.1 hahead with hgap | hmem
      · rw [(hsplits.words w (hw ▸ List.mem_cons_self)).gap l hgap] at hcontent
        cases hcontent
      · obtain ⟨front, back, heq⟩ := List.append_of_mem hmem
        rw [heq] at hrest
        exact hpos.trans_le hrest.bounds.1

theorem start_lt_prevEnd {l : Lexeme} (hl : l ∈ Lexeme.all source 0) (hcontent : l.isTrivia = false)
    (hlt : l.start < s.cursor.pos) : l.start < s.cursor.prevEnd := by
  obtain ⟨before, after, hall⟩ := List.append_of_mem hl
  have htile := Lexeme.tile_all source 0
  rw [hall] at htile
  exact htile.bounds.2.1.trans_le
    ((hs.behind_or_ahead hl hcontent).resolve_right (Nat.not_le_of_lt hlt))

/-- No separator stands between the word behind and the word ahead. -/
theorem not_separated {a b : Tree} (hstop : s.cursor.prevEnd ≤ a.data.span.stop)
    (hstart : b.firstStart = s.cursor.pos) : source.separated a b = false := by
  refine List.any_eq_false.2 fun t ht => ?_
  simp only [Bool.and_eq_true, decide_eq_true_eq, not_and, and_imp]
  intro hsep hbehind
  rw [← Parse.toToken_all] at ht
  obtain ⟨l, hl, rfl⟩ := List.mem_map.1 ht
  obtain ⟨sep, hsep⟩ := Option.isSome_iff_exists.1 hsep
  obtain ⟨c, hsymbol, -⟩ := Option.bind_eq_some_iff.1 hsep
  intro hbefore
  have hlt := hs.start_lt_prevEnd hl (Token.content_of_symbol hsymbol) (hstart ▸ hbefore)
  exact Nat.not_lt_of_le (hstop.trans hbehind) hlt

/-- The separator ahead stands between what is behind and what is behind the separator. -/
theorem separated {a b : Tree} (hsep : s.cursor.separator?.isSome = true)
    (hstop : a.data.span.stop ≤ s.cursor.pos) (hstart : b.firstStart = s.advance.cursor.pos) :
    source.separated a b = true := by
  obtain ⟨sep, hsome⟩ := Option.isSome_iff_exists.1 hsep
  obtain ⟨c, hsymbol, hbyte⟩ := Option.bind_eq_some_iff.1 hsome
  obtain ⟨l, hl, hc⟩ := Option.bind_eq_some_iff.1 hsymbol
  have hend : s.cursor.atEnd = false := Cursor.atEnd_of_symbol hsymbol
  have hpos : s.cursor.pos = l.start := by
    rw [Cursor.pos, Cursor.span_of_lexeme hl]
    rfl
  have hbehind := (State.onward_advance hs.tiled).stop_le (State.left_advance_lt hend)
  have hbefore : l.start < b.firstStart := by
    rw [hstart, ← hpos]
    exact (hs.tiled.pos_lt_stop hend).trans_le
      (hbehind.trans (State.onward_advance hs.tiled).tiled.prevEnd_le_pos)
  refine List.any_eq_true.2 ⟨l.toToken, ?_, ?_⟩
  · rw [← Parse.toToken_all]
    exact List.mem_map_of_mem (hs.between.mem_all hl)
  · have hmark : l.toToken.separator? = some sep := Option.bind_eq_some_iff.2 ⟨c, hc, hbyte⟩
    simp [hmark, hbefore, hpos ▸ hstop]

end State.Underway

/-! ### Lists of entries -/

namespace Tree

/-- The entries of a list: what stands for a separator is left out. -/
def entries (ts : List Tree) : List Tree := ts.filter fun t => !decide t.data.IsExtra

/-- Whether separators are recorded at the nodes of a list as they stand in a document, `pending`
being the one before the list. -/
structure Paired (source : Source) (pending : Option Separator) (ts : List Tree) : Prop where
  /-- None is recorded at a node that stands for one itself. -/
  extra : ∀ t ∈ ts, t.data.IsExtra → t.data.Unseparated
  /-- The one before the list is recorded at the first entry. -/
  first : ∀ t ∈ (entries ts).head?, t.data.facets.precededBy = pending
  /-- The one between two entries is recorded at both. -/
  both : (entries ts).IsChain fun a b => b.data.facets.precededBy = a.data.facets.followedBy
  /-- A separator stands between two nodes if one is recorded behind the first. -/
  between : ts.IsChain fun a b => source.separated a b = a.data.facets.followedBy.isSome

namespace Paired

variable {source : Source} {pending sep : Option Separator} {t : Tree} {ts : List Tree}

theorem nil : Paired source pending [] := ⟨nofun, nofun, .nil, .nil⟩

/-- A node that stands for a separator leaves the one that was before it pending. -/
theorem cons_extra (h : Paired source pending ts) (ht : t.data.IsExtra)
    (hunseparated : t.data.Unseparated) (hnext : ∀ b ∈ ts.head?, source.separated t b = false) :
    Paired source pending (t :: ts) := by
  have hentries : entries (t :: ts) = entries ts := List.filter_cons_of_neg (by simpa using ht)
  refine ⟨List.forall_mem_cons.2 ⟨fun _ => hunseparated, h.extra⟩, ?_, ?_, ?_⟩
  · rw [hentries]
    exact h.first
  · rw [hentries]
    exact h.both
  · refine List.isChain_cons.2 ⟨fun b hb => ?_, h.between⟩
    rw [hunseparated.behind, hnext b hb]
    rfl

/-- The separator that is recorded behind an entry is the one before what comes next. -/
theorem cons_entry (h : Paired source sep ts) (ht : ¬t.data.IsExtra)
    (hbefore : t.data.facets.precededBy = pending) (hbehind : t.data.facets.followedBy = sep)
    (hnext : ∀ b ∈ ts.head?, source.separated t b = sep.isSome) :
    Paired source pending (t :: ts) := by
  have hentries : entries (t :: ts) = t :: entries ts := List.filter_cons_of_pos (by simpa using ht)
  refine ⟨List.forall_mem_cons.2 ⟨fun hextra => absurd hextra ht, h.extra⟩, ?_, ?_, ?_⟩
  · rw [hentries]
    rintro u ⟨⟩
    exact hbefore
  · rw [hentries]
    exact List.isChain_cons.2 ⟨fun b hb => (h.first b hb).trans hbehind.symm, h.both⟩
  · exact List.isChain_cons.2 ⟨fun b hb => hbehind ▸ hnext b hb, h.between⟩

theorem preceded (h : Paired source pending ts) (hts : ∀ t ∈ ts, ¬t.data.IsExtra) :
    ts.IsChain fun a b => source.separated a b = b.data.facets.precededBy.isSome := by
  have hentries : entries ts = ts := List.filter_eq_self.2 fun t ht => by simpa using hts t ht
  have hboth := List.isChain_iff_getElem.1 (hentries ▸ h.both)
  have hbetween := List.isChain_iff_getElem.1 h.between
  exact List.isChain_iff_getElem.2 fun i hi => by rw [hbetween i hi, hboth i hi]

end Paired

end Tree

/-! ### Parts of the grammar -/

namespace Grammar

open Metadoc.Tree (Paired)

variable {source : Source} {n : Nat} {s : State}

theorem precededBy_precede (sep : Option Separator) (t : Tree) :
    (precede sep t).data.facets.precededBy = sep := by
  cases t
  rfl

theorem precededBy_follow (sep : Separator) (t : Tree) (s : State) :
    (follow sep t s).value.data.facets.precededBy = t.data.facets.precededBy := by
  cases t
  unfold follow
  dsimp only
  split <;> rfl

theorem stop_of_spanned {t : Tree} (hs : s.cursor.Tiled)
    (h : ∃ start ≤ s.cursor.pos, t.data.span = s.spanFrom start) :
    s.cursor.prevEnd ≤ t.data.span.stop ∧ t.data.span.stop ≤ s.cursor.pos := by
  obtain ⟨start, hstart, hspan⟩ := h
  rw [hspan]
  exact ⟨Nat.le_max_left _ _, Nat.max_le.2 ⟨hs.prevEnd_le_pos, hstart⟩⟩

/-- What is recorded in a list of entries. -/
def Part.Paired (source : Source) (r : Read SetBody) : Part → Prop
  | .entries _ pending => Tree.Paired source pending r.value.children
  | .lineEntries => Tree.Paired source none r.value.children
  | _ => True

/-- Wherever entries are read, separators are recorded as they stand there. -/
theorem Run.paired {part : Part} {r : Read SetBody} (h : Run n part s r)
    (hs : s.Underway source) : part.Paired source r := by
  have hunderway := State.steps_underway source
  -- The next node begins with the word ahead, so all that can stand in between is the separator
  -- that the rule itself reads.
  induction h with
  | entriesEnd _ => exact .nil
  | @extraSeparator _ _ _ s r _ hsep rest ih =>
    have hbehind := hunderway.unexpected s hs
    have hpos := (State.steps_onward.unexpected s hs.tiled).pos_le hs.tiled
    have hstop := stop_of_spanned hbehind.tiled ⟨_, hpos, spanned_unexpected s⟩
    obtain ⟨-, hunseparated, -, -⟩ := data_unexpected s
    refine (ih hbehind).cons_extra (isExtra_unexpected hs hsep) hunseparated fun b hb => ?_
    exact hbehind.not_separated hstop.1 (rest.headed hbehind.tiled b hb)
  | @separated _ _ pending s e sep r _ hnone first hsep rest ihFirst ihRest =>
    have hentry := first.marked hs hnone e.value List.mem_cons_self
    have hlisted := (listed_precede pending e.value).trans (listed_follow sep _ e.state)
    have hend := hunderway.run first hs
    have hstop := stop_of_spanned hend.tiled (first.spanned hs.tiled e.value List.mem_cons_self).2
    have hbehind := hunderway.follow sep (precede pending e.value) e.state hend
    refine (ihRest hbehind).cons_entry (mt hlisted.isExtra_iff.1 hentry.notExtra) ?_
      (followedBy_follow ..) fun b hb => ?_
    · rw [precededBy_follow, precededBy_precede]
    · refine hend.separated (Option.isSome_of_eq_some hsep) ?_ ?_
      · rw [hlisted.span]
        exact hstop.2
      · rw [← cursor_follow sep (precede pending e.value)]
        exact rest.headed hbehind.tiled b hb
  | @unseparated _ _ pending s e r _ hnone first _ rest ihFirst ihRest =>
    have hentry := first.marked hs hnone e.value List.mem_cons_self
    have hlisted := listed_precede pending e.value
    have hbehind := hunderway.run first hs
    have hspan := (first.spanned hs.tiled e.value List.mem_cons_self).2
    have hstop := stop_of_spanned hbehind.tiled hspan
    refine (ihRest hbehind).cons_entry (mt hlisted.isExtra_iff.1 hentry.notExtra)
      (precededBy_precede ..) ?_ fun b hb => ?_
    · rw [followedBy_precede]
      exact hentry.unseparated.behind
    · refine hbehind.not_separated ?_ (rest.headed hbehind.tiled b hb)
      rw [hlisted.span]
      exact hstop.1
  | @lineLast _ s r first _ _ =>
    have hentry := first.marked hs r.value List.mem_cons_self
    exact Paired.nil.cons_entry hentry.notExtra hentry.unseparated.before hentry.unseparated.behind
      nofun
  | @lineCons _ s r rs first _ rest ihFirst ihRest =>
    have hentry := first.marked hs r.value List.mem_cons_self
    have hbehind := hunderway.run first hs
    have hspan := (first.spanned hs.tiled r.value List.mem_cons_self).2
    have hstop := stop_of_spanned hbehind.tiled hspan
    refine (ihRest hbehind).cons_entry hentry.notExtra hentry.unseparated.before
      hentry.unseparated.behind fun b hb => ?_
    exact hbehind.not_separated hstop.1 (rest.headed hbehind.tiled b hb)
  | _ => trivial

end Grammar

/-! ### Documents -/

theorem Tree.Formed.paired {source : Source} {t : Tree} (h : t.Formed source) :
    Tree.Paired source none t.children :=
  h.children_induction .nil (fun hs hrun => hrun.paired hs) fun hs hrun => hrun.paired hs

/-- How the separators of a document are recorded at a node and at those below it. -/
structure Parse.Separations (p : Parse) (t : Tree) : Prop where
  /-- At its children, they are recorded as they stand between them. -/
  children : Tree.Paired p.source none t.children
  /-- At the children of a node without brackets, there are none. -/
  line : t.data.kind ≠ .file → t.data.facets.opened = none → ∀ c ∈ t.children, c.data.Unseparated
  /-- At a tag, there are none. -/
  tag : t.data.kind = .tag → t.data.Unseparated
  /-- At what stands among the tags, there are none. -/
  tags : ∀ g ∈ t.tags, g.data.Unseparated
  /-- The groups of the children together are the children. -/
  whole : (p.forest.groups t.id).flatten = p.forest.children t.id
  /-- Unless a child stands for a separator, the groups are those that separators delimit. -/
  groups : (∀ c ∈ t.children, ¬c.data.IsExtra) → p.forest.groups t.id =
    (t.children.splitBy fun a b => !p.source.separated a b).map (List.map Tree.id)

namespace Parse

theorem unseparated_of_tag {source : Source} {t : Tree} (ht : t ∈ (document source).nodes)
    (htag : t.data.kind = .tag) : t.data.Unseparated := by
  rcases Tree.mem_preorder_cases ht with rfl | ⟨p, hp, hbelow⟩
  · cases htag
  · have hformed := document_formed source p hp
    rcases hbelow with hmem | hmem
    · exact (hformed.of_mem_tags hmem).2
    · exact absurd (.inl htag) (hformed.not_isTag_of_mem_children t hmem)

/-- In every document, separators are recorded at the entries on both sides of them, and looking for
what they leave at nodes cuts the children of a node where they stand. -/
theorem document_separators (source : Source) :
    ∀ t ∈ (document source).nodes, (document source).Separations t := by
  intro t ht
  have hformed := document_formed source t ht
  have hperm := document_ids_perm source
  have hnodup := hperm.nodup_iff.2 List.nodup_range
  have hlt : ∀ i ∈ (document source).nodes.map Tree.id, i < (document source).count := fun i hi =>
    List.mem_range.1 (hperm.subset (List.mem_append_left _ hi))
  have harranged := Forest.arranged_ofTree hnodup.of_append_left hlt (document source).strays
  exact {
    children := hformed.paired
    line := fun hkind hopened c hc => (hformed.isEntry_of_mem_line hc hkind hopened).unseparated
    tag := unseparated_of_tag ht
    tags := fun g hg => (hformed.of_mem_tags hg).2
    whole := (congrArg List.flatten (harranged.groups_eq t.id)).trans (List.flatten_splitBy _ _)
    groups := fun hextra => Forest.groups_ofTree hnodup.of_append_left hlt _ ht
      (hformed.paired.preceded hextra) }

/-- A set with three groups in it, among them a set of its own with separators. -/
theorem document_separators_three :
    let p : Parse := document ⟨"d", Utf8.ofString "a: {b @t(x, y) c, (d; e) ; f,} , g"⟩
    ∃ t ∈ p.nodes, t.data.string = "a" ∧ (∀ c ∈ t.children, ¬c.data.IsExtra) ∧ p.Separations t ∧
      (p.forest.groups t.id).map (List.map p.forest.string?) =
        [[some "b", some "c"], [some ""], [some "f"]] := by
  intro p
  have hfound : ∃ t ∈ p.nodes, t.data.string = "a" ∧ (∀ c ∈ t.children, ¬c.data.IsExtra) ∧
      (p.forest.groups t.id).map (List.map p.forest.string?) =
        [[some "b", some "c"], [some ""], [some "f"]] := by
    decide +kernel
  obtain ⟨t, ht, hstring, hextra, hgroups⟩ := hfound
  exact ⟨t, ht, hstring, hextra, document_separators _ t ht, hgroups⟩

end Parse

end Metadoc
