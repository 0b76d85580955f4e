import Metadoc.Proofs.Document.Comments
import Metadoc.Proofs.Document.Marks

/-!
# Comments at the head of a set

Behind the bracket that opens a set, a comment belongs to the first entry only if the line of the
bracket has ended before it.

* `Trivia.leadingText_of_last` : the last comment of a gap belongs to the word behind the gap, if
  line breaks allow it on both of its sides;
* `Tree.HeadedBy` says what stands between the bracket of a node and its first entry;
* `Parse.document_openings` : which comment there is that of the first entry.
-/

namespace Metadoc

/-! ### The last comment of a gap -/

namespace Trivia

theorem foldl_add_of_no_comment (started : Bool) {after : List Lexeme}
    (h : ∀ l ∈ after, l.kind ≠ .comment) : ∀ t : Trivia, after.foldl (add started) t =
      { t with newlines := t.newlines + Lexeme.feeds after, leading := t.leading.map fun c =>
        (c.1, c.2 + Lexeme.feeds after) } := by
  induction after with
  | nil =>
    intro t
    have hnone : Lexeme.feeds [] = 0 := rfl
    simp [hnone]
  | cons l after ih =>
    intro t
    obtain ⟨hl, hrest⟩ := List.forall_mem_cons.1 h
    rw [List.foldl_cons, ih hrest, ← List.singleton_append, Sums.feeds_append]
    have hfeeds : Lexeme.feeds [l] =
        if l.kind = .whitespace then Bytes.lineFeeds l.bytes else 0 := Token.feeds_singleton _
    rw [hfeeds]
    cases hk : l.kind with
    | comment => exact absurd hk hl
    | _ => cases hleading : t.leading <;> simp [add, hk, hleading, Nat.add_assoc]

/-- While the line of the word before has not ended, no comment belongs to the word behind. -/
theorem leading_of_unbroken {gap : List Lexeme} (h : Lexeme.feeds gap = 0) :
    (ofGap true gap).leading = none := by
  refine Option.eq_none_iff_forall_not_mem.2 fun x hx => ?_
  obtain ⟨before, after, hin, -, hbroken, -⟩ := (sums_ofGap true gap).leading x hx
  have hpos := hbroken rfl
  rw [hin.all, Sums.feeds_append] at h
  omega

/-- Behind a word, the last comment of a gap belongs to the next word if the line of the first has
ended before the comment, and no blank line is behind it. -/
theorem leadingText_of_last {gap before after : List Lexeme} {c : Lexeme}
    (hin : Lexeme.CommentIn gap before c after) (hlast : ∀ l ∈ after, l.kind ≠ .comment)
    (hfeeds : Lexeme.feeds after < 2) : (ofGap true gap).leadingText =
      if 0 < Lexeme.feeds before then c.commentText else "" := by
  have hnewlines := (sums_ofGap true before).newlines
  -- What is counted before the comment only decides whether it is kept, and nothing replaces it.
  have hgap : ofGap true gap = after.foldl (add true) (add true (ofGap true before) c) := by
    rw [ofGap, hin.all, List.foldl_append, List.foldl_cons]
    rfl
  rw [hgap, foldl_add_of_no_comment true hlast, leadingText]
  split_ifs with hbroken
  · have hadd : (add true (ofGap true before) c).leading = some (c, 0) := by
      simp [add, hin.kind, hnewlines, Nat.pos_iff_ne_zero.1 hbroken]
    simp [hadd, hfeeds]
  · have hnone := leading_of_unbroken (Nat.eq_zero_of_not_pos hbroken)
    have hadd : (add true (ofGap true before) c).leading = none := by
      simp [add, hin.kind, hnewlines, Nat.eq_zero_of_not_pos hbroken, hnone]
    simp [hadd]

end Trivia

/-! ### The first entry -/

namespace Grammar

variable {source : Source} {n : Nat} {s : State}

theorem pre_unexpected (s : State) : (unexpected s).value.data.pre = "" := by
  unfold unexpected
  dsimp only
  split <;> rfl

/-- The comment above the nodes of a part: that above the word that it begins with. -/
def Part.Topped (s : State) (r : Read SetBody) : Part → Prop
  | .node _ => ∀ t ∈ r.value.children, t.data.pre = s.cursor.trivia.leadingText
  | .entry _ => ¬s.noEntry → ∀ t ∈ r.value.children, t.data.pre = s.cursor.trivia.leadingText
  | _ => True

theorem Run.topped {part : Part} {r : Read SetBody} (h : Run n part s r) : part.Topped s r := by
  induction h with
  | @node _ _ _ _ t _ _ _ _ =>
    refine List.forall_mem_singleton.2 ?_
    cases t.value
    rfl
  | entry _ ih => exact fun _ => ih
  | stray hnone _ => exact absurd hnone
  | _ => trivial

theorem not_noEntry {s : State} (he : ¬s.entriesEnd .bracketed)
    (hsep : s.cursor.separator? = none) : ¬s.noEntry := by
  rintro ⟨-, -, hend⟩
  simp only [Cursor.atLineEnd, hsep, Option.isSome_none, Bool.or_false, Bool.or_eq_true] at hend
  exact he (hend.imp_right fun hclose => ⟨rfl, hclose⟩)

theorem firstStart_unexpected (s : State) : (unexpected s).value.firstStart = s.cursor.pos := by
  rw [Tree.firstStart, (unexpected_unfollowed s).1, spanned_unexpected]
  rfl

/-- Where the first node of a list of entries begins: with the word ahead. -/
def Part.Headed (s : State) (r : Read SetBody) : Part → Prop
  | .entries .. | .lineEntries => ∀ t ∈ r.value.children.head?, t.firstStart = s.cursor.pos
  | _ => True

theorem Run.headed {part : Part} {r : Read SetBody} (h : Run n part s r) (hs : s.cursor.Tiled) :
    part.Headed s r := by
  cases h with
  | entriesEnd _ => exact nofun
  | extraSeparator _ _ _ =>
    rintro t ⟨⟩
    exact firstStart_unexpected s
  | @separated _ _ pending _ e sep _ _ _ first _ _ =>
    rintro t ⟨⟩
    have hlisted := (listed_precede pending e.value).trans (listed_follow sep _ e.state)
    exact hlisted.firstStart_eq.trans (first.spanned hs _ List.mem_cons_self).1
  | @unseparated _ _ pending _ e _ _ _ first _ _ =>
    rintro t ⟨⟩
    have hlisted := listed_precede pending e.value
    exact hlisted.firstStart_eq.trans (first.spanned hs _ List.mem_cons_self).1
  | lineLast first _ | lineCons first _ _ =>
    rintro t ⟨⟩
    exact (first.spanned hs _ List.mem_cons_self).1
  | _ => trivial

/-- The first entry of a set in brackets has the comment above the word ahead, unless it stands for
a separator. -/
theorem Run.first_entry {pending : Option Separator} {r : Read SetBody} {t : Tree} {ts : List Tree}
    (h : Run n (.entries .bracketed pending) s r) (hs : s.Underway source)
    (hr : r.value.children = t :: ts) : s.cursor.atEnd = false ∧
      t.data.pre = if t.data.IsExtra then "" else s.cursor.trivia.leadingText := by
  have topped {e : Read Tree} {u : Tree} (first : Run n (.entry .bracketed) s e.one)
      (he : ¬s.entriesEnd .bracketed) (hsep : s.cursor.separator? = none)
      (hlisted : e.value.Listed u) :
        u.data.pre = if u.data.IsExtra then "" else s.cursor.trivia.leadingText := by
    have hentry := first.marked hs hsep e.value List.mem_cons_self
    have hpre := first.topped (not_noEntry he hsep) e.value List.mem_cons_self
    rw [if_neg (mt hlisted.isExtra_iff.1 hentry.notExtra)]
    exact hlisted.pre.trans hpre
  cases h with
  | entriesEnd _ => cases hr
  | extraSeparator he hsep rest =>
    obtain ⟨rfl, -⟩ := List.cons.inj hr
    refine ⟨State.atEnd_of_not_entriesEnd he, ?_⟩
    rw [if_pos (isExtra_unexpected hs hsep), pre_unexpected]
  | @separated _ _ pending _ e sep r he hsep first _ rest =>
    obtain ⟨rfl, -⟩ := List.cons.inj hr
    exact ⟨State.atEnd_of_not_entriesEnd he, topped first he hsep
      ((listed_precede pending e.value).trans (listed_follow sep _ e.state))⟩
  | @unseparated _ _ pending _ e r he hsep first _ rest =>
    obtain ⟨rfl, -⟩ := List.cons.inj hr
    exact ⟨State.atEnd_of_not_entriesEnd he, topped first he hsep (listed_precede pending e.value)⟩

end Grammar

/-! ### What stands before it -/

/-- Whether `c` is the last comment of a gap, with no blank line behind it. -/
structure Token.LastComment (gap before : List Token) (c : Token) (after : List Token) : Prop where
  /-- It stands between these. -/
  all : gap = before ++ c :: after
  /-- It is a comment. -/
  kind : c.kind = .comment
  /-- No other comment comes behind it. -/
  last : ∀ a ∈ after, a.kind ≠ .comment
  /-- Neither does a blank line. -/
  near : feeds after < 2

/-- Whether the bracket that opens the set of a node, a gap, and the first token of the first entry
`c` of the set stand one behind the other in a document. -/
structure Tree.HeadedBy (ts : List Token) (t c : Tree) (opened : Delimiter) (gap : List Token)
    (first : Token) : Prop where
  /-- They stand one behind the other, and the bracket in the range of the node. -/
  place : ∃ front bracket back, ts = front ++ bracket :: (gap ++ first :: back) ∧
    bracket.symbol? = some opened.openByte ∧ t.data.span.start ≤ bracket.start
  /-- The gap is one. -/
  trivia : ∀ g ∈ gap, g.isTrivia = true
  /-- The token behind it has content. -/
  content : first.isTrivia = false
  /-- The entry begins with it. -/
  start : first.start = c.firstStart

theorem Token.takeWhile_back {front gap : List Token} {a : Token} (ha : a.isTrivia = false)
    (hgap : ∀ g ∈ gap, g.isTrivia = true) :
    (front ++ a :: gap).reverse.takeWhile isTrivia = gap.reverse := by
  have hback : ∀ g ∈ gap.reverse, g.isTrivia = true := fun g hg => hgap g (List.mem_reverse.1 hg)
  rw [List.reverse_append, List.reverse_cons, List.append_assoc,
    List.takeWhile_append_of_pos hback, List.singleton_append, List.takeWhile_cons_of_neg,
    List.append_nil]
  simp [ha]

theorem Tree.HeadedBy.unique {ts gap gap' : List Token} {t c : Tree} {opened : Delimiter}
    {first first' : Token} (h : t.HeadedBy ts c opened gap first)
    (h' : t.HeadedBy ts c opened gap' first') (hsorted : ts.Pairwise (·.start < ·.start)) :
    gap = gap' ∧ first = first' := by
  obtain ⟨front, bracket, back, hall, hsymbol, -⟩ := h.place
  obtain ⟨front', bracket', back', hall', hsymbol', -⟩ := h'.place
  have hnodup : (ts.map Token.start).Nodup :=
    List.pairwise_map.2 (hsorted.imp fun hlt => Nat.ne_of_lt hlt)
  obtain rfl : first = first' := by
    refine List.inj_on_of_nodup_map hnodup ?_ ?_ (h.start.trans h'.start.symm)
    · simp [hall]
    · simp [hall']
  -- Both splittings are at the same token, and back from there the bracket is the first word.
  have hboth := hall.symm.trans hall'
  rw [← List.cons_append, ← List.append_assoc, ← List.cons_append, ← List.append_assoc] at hboth
  have hapart : first ∉ front ++ bracket :: gap ∧ first ∉ back := by
    have hone := hnodup.of_map
    rw [hall, ← List.cons_append, ← List.append_assoc] at hone
    obtain ⟨-, hback, hdisjoint⟩ := List.nodup_append.1 hone
    exact ⟨fun hmem => hdisjoint first hmem first List.mem_cons_self rfl,
      (List.nodup_cons.1 hback).1⟩
  obtain ⟨hfront, -, -⟩ := (List.append_cons_inj_of_notMem hapart.1 hapart.2).1 hboth
  have hback := @Token.takeWhile_back front _ _ (Token.content_of_symbol hsymbol) h.trivia
  rw [hfront, Token.takeWhile_back (Token.content_of_symbol hsymbol') h'.trivia] at hback
  exact ⟨List.reverse_injective hback.symm, rfl⟩

/-- The comment above the first word behind a bracket is the last comment of the gap, if a line
break comes before it. -/
theorem State.leadingText_of_last {s : State} (hstarted : s.cursor.started = true)
    {before after : List Token} {c : Token}
    (h : Token.LastComment (s.cursor.gap.map Lexeme.toToken) before c after) :
    s.cursor.trivia.leadingText = if 0 < Token.feeds before then c.commentText else "" := by
  obtain ⟨ls, ms, hgap, rfl, hrest⟩ := List.map_eq_append_iff.1 h.all
  obtain ⟨l, ns, rfl, rfl, rfl⟩ := List.map_eq_cons_iff.1 hrest
  rw [Cursor.trivia, hstarted]
  exact Trivia.leadingText_of_last ⟨hgap, h.kind⟩
    (fun m hm => h.last m.toToken (List.mem_map_of_mem hm)) h.near

theorem State.Underway.headedBy {source : Source} {s : State} {t c : Tree} {opened : Delimiter}
    (hs : s.Underway source) (hstart : t.data.span.start ≤ s.cursor.pos)
    (ho : s.cursor.opens? = some opened) (hend : s.advance.cursor.atEnd = false)
    (hfirst : c.firstStart = s.advance.cursor.pos) :
    s.advance.cursor.started = true ∧ ∃ first, t.HeadedBy (Token.all source.bytes 0) c opened
      (s.advance.cursor.gap.map Lexeme.toToken) first := by
  obtain ⟨b, hsymbol, hbyte⟩ := Option.bind_eq_some_iff.1 ho
  obtain ⟨bracket, hbracket, hb⟩ := Option.bind_eq_some_iff.1 hsymbol
  obtain ⟨first, hword⟩ := Cursor.exists_lexeme hend
  obtain ⟨behind, hsplits⟩ := hs.between
  obtain ⟨-, -, hnext⟩ := hsplits.advance hbracket
  rw [State.cursor_advance] at hend hfirst hword ⊢
  obtain ⟨hcontent, ⟨rest, hall⟩, -⟩ := hnext.advance hword
  have hpos : first.start = s.cursor.advance.pos := by
    rw [Cursor.pos, Cursor.span_of_lexeme hword]
    rfl
  have hplace : bracket.start = s.cursor.pos := by
    rw [Cursor.pos, Cursor.span_of_lexeme hbracket]
    rfl
  constructor
  · cases hstarted : s.cursor.advance.started with
    | true => rfl
    | false => exact absurd (hnext.unread hstarted) (by simp)
  · refine ⟨first.toToken, ⟨(behind ++ s.cursor.gap).map Lexeme.toToken, bracket.toToken,
      rest.map Lexeme.toToken, ?_, ?_, hplace ▸ hstart⟩, ?_, hcontent, hpos.trans hfirst.symm⟩
    · rw [← Parse.toToken_all, hall]
      simp
    · rw [← Delimiter.ofOpen?_eq_some hbyte]
      exact hb
    · exact List.forall_mem_map.2 hnext.isTrivia_of_mem_gap

/-! ### Documents -/

namespace Parse

/-- Where a document begins with a round bracket, its tokens and its nodes show what stands behind
that. -/
theorem exists_headed {source : Source} {gap back : List Token} {first : Token} {pre : String}
    {extra : Bool} (hall : Token.all source.bytes 0 =
      ⟨.symbol, 0, [Delimiter.paren.openByte], none, none⟩ :: (gap ++ first :: back))
    (htrivia : ∀ g ∈ gap, g.isTrivia = true) (hcontent : first.isTrivia = false)
    (hread : ∃ t ∈ (document source).nodes, t.data.facets.opened = some .paren ∧
      t.data.span.start = 0 ∧ t.children.head?.map (fun c =>
        (c.firstStart, c.data.pre, decide c.data.IsExtra)) = some (first.start, pre, extra)) :
    ∃ t ∈ (document source).nodes, ∃ c cs, t.data.facets.opened = some .paren ∧
      t.children = c :: cs ∧ t.HeadedBy (Token.all source.bytes 0) c .paren gap first ∧
        c.data.pre = pre ∧ decide c.data.IsExtra = extra := by
  obtain ⟨t, ht, hopened, hstart, hhead⟩ := hread
  obtain ⟨c, hc, hshown⟩ := Option.map_eq_some_iff.1 hhead
  obtain ⟨cs, hchildren⟩ := List.head?_eq_some_iff.1 hc
  obtain ⟨hfirst, hrest⟩ := Prod.mk.inj hshown
  obtain ⟨hpre, hextra⟩ := Prod.mk.inj hrest
  exact ⟨t, ht, c, cs, hopened, hchildren, ⟨⟨[], _, back, hall, rfl, Nat.le_of_eq hstart⟩,
    htrivia, hcontent, hfirst.symm⟩, hpre, hextra⟩

/-- Behind the opening bracket of a set, the last comment before the first entry is the one above
this entry if the line of the bracket ends before the comment and no blank line is behind it; on
the line of the bracket, it belongs to no entry.  What stands for a separator has no comment above
it. -/
theorem document_openings (source : Source) : ∀ t ∈ (document source).nodes, ∀ opened c cs,
    t.data.facets.opened = some opened → t.children = c :: cs →
      (∃ gap first, t.HeadedBy (Token.all source.bytes 0) c opened gap first) ∧
      (c.data.IsExtra → c.data.pre = "") ∧
      ∀ gap first, t.HeadedBy (Token.all source.bytes 0) c opened gap first → ¬c.data.IsExtra →
        ∀ before k after, Token.LastComment gap before k after →
          c.data.pre = if 0 < Token.feeds before then k.commentText else "" := by
  intro t ht opened c cs hopened hchildren
  have hne : t.children ≠ [] := hchildren ▸ List.cons_ne_nil c cs
  have hentered := (document_formed source t ht).children hne
  rw [hchildren] at hentered
  cases hentered with
  | document _ facet _ _ _ | line _ _ facet _ _ =>
    rw [facet] at hopened
    cases hopened
  | @bracketed _ s _ r _ hs hstart hbracket facet run hall =>
    obtain rfl := Option.some.inj (facet.symm.trans hopened)
    have hset := (State.steps_underway source).advance s hs
    have hfirst : c.firstStart = s.advance.cursor.pos :=
      run.headed hset.tiled c (by rw [Read.many_value, hall]; rfl)
    obtain ⟨hend, hpre⟩ := run.first_entry hset hall
    obtain ⟨hstarted, first, hheaded⟩ := hs.headedBy hstart hbracket hend hfirst
    refine ⟨⟨_, first, hheaded⟩, fun hextra => by rw [hpre, if_pos hextra], ?_⟩
    intro gap first' hgap hentry before k after hlast
    obtain ⟨rfl, -⟩ := hgap.unique hheaded (Token.pairwise_lt_allFrom rfl)
    rw [hpre, if_neg hentry, State.leadingText_of_last hstarted hlast]

/-- A comment below the bracket is that of the first entry, a blank being behind it. -/
theorem document_openings_below_bracket :
    let source : Source := ⟨"d", Utf8.ofString "(\n/*c*/ a)"⟩
    ∃ t ∈ (document source).nodes, ∃ c cs gap first before k after,
      t.data.facets.opened = some .paren ∧ t.children = c :: cs ∧ ¬c.data.IsExtra ∧
        t.HeadedBy (Token.all source.bytes 0) c .paren gap first ∧
        Token.LastComment gap before k after ∧ 0 < Token.feeds before ∧
        c.data.pre = k.commentText ∧ k.commentText = "c" := by
  intro source
  let comment : Token := ⟨.comment, 2, Utf8.ofString "/*c*/", none, none⟩
  let before : List Token := [⟨.whitespace, 1, [0x0A], none, none⟩]
  let after : List Token := [⟨.whitespace, 7, [0x20], none, none⟩]
  obtain ⟨t, ht, c, cs, hopened, hchildren, hheaded, -, hextra⟩ :=
    @exists_headed source (before ++ comment :: after) [⟨.symbol, 9, [0x29], none, none⟩]
      ⟨.identifier, 8, [0x61], none, none⟩ "c" false (by decide +kernel) (by decide) rfl
      (by decide +kernel)
  have hentry : ¬c.data.IsExtra := of_decide_eq_false hextra
  have hlast : Token.LastComment (before ++ comment :: after) before comment after :=
    ⟨rfl, rfl, by decide, by decide⟩
  exact ⟨t, ht, c, cs, _, _, before, comment, after, hopened, hchildren, hentry, hheaded, hlast,
    by decide, (document_openings source t ht .paren c cs hopened hchildren).2.2 _ _ hheaded hentry
      before comment after hlast, by decide⟩

/-- Whether, in every set in brackets, the last comment before the first entry is the one above this
entry, unless a blank line is behind it. -/
def LastCommentClaimed (p : Parse) : Prop :=
  ∀ t ∈ p.nodes, ∀ opened c cs, t.data.facets.opened = some opened → t.children = c :: cs →
    ∀ gap first, t.HeadedBy (Token.all p.source.bytes 0) c opened gap first →
      ∀ before k after, Token.LastComment gap before k after → c.data.pre = k.commentText

/-- On the line of the bracket the comment belongs to no entry, and a separator that stands first
has no comment. -/
theorem not_lastCommentClaimed :
    ¬(document ⟨"d", Utf8.ofString "( /*c*/ a)"⟩).LastCommentClaimed ∧
      ¬(document ⟨"d", Utf8.ofString "(\n/*c*/ , a)"⟩).LastCommentClaimed := by
  let comment : Token := ⟨.comment, 2, Utf8.ofString "/*c*/", none, none⟩
  let after : List Token := [⟨.whitespace, 7, [0x20], none, none⟩]
  constructor
  · let before : List Token := [⟨.whitespace, 1, [0x20], none, none⟩]
    obtain ⟨t, ht, c, cs, hopened, hchildren, hheaded, hpre, -⟩ :=
      @exists_headed ⟨"d", Utf8.ofString "( /*c*/ a)"⟩ (before ++ comment :: after)
        [⟨.symbol, 9, [0x29], none, none⟩] ⟨.identifier, 8, [0x61], none, none⟩ "" false
        (by decide +kernel) (by decide) rfl (by decide +kernel)
    intro hclaimed
    have hclaim := hclaimed t ht .paren c cs hopened hchildren _ _ hheaded before comment after
      ⟨rfl, rfl, by decide, by decide⟩
    exact absurd (hpre.symm.trans hclaim) (by decide)
  · let before : List Token := [⟨.whitespace, 1, [0x0A], none, none⟩]
    obtain ⟨t, ht, c, cs, hopened, hchildren, hheaded, hpre, -⟩ :=
      @exists_headed ⟨"d", Utf8.ofString "(\n/*c*/ , a)"⟩ (before ++ comment :: after)
        [⟨.whitespace, 9, [0x20], none, none⟩, ⟨.identifier, 10, [0x61], none, none⟩,
          ⟨.symbol, 11, [0x29], none, none⟩] ⟨.symbol, 8, [0x2C], none, none⟩ "" true
        (by decide +kernel) (by decide) rfl (by decide +kernel)
    intro hclaimed
    have hclaim := hclaimed t ht .paren c cs hopened hchildren _ _ hheaded before comment after
      ⟨rfl, rfl, by decide, by decide⟩
    exact absurd (hpre.symm.trans hclaim) (by decide)

end Parse

end Metadoc
