import Metadoc.Proofs.Document.Gaps
import Metadoc.Proofs.Document.Numbering
import Metadoc.Proofs.Document.Ranges

/-!
# Comments and the nodes beside them

Each comment of a document is that of one node at most, and stands beside this node.

* `Tree.CommentAt` says where a comment of a node stands;
* `State.cut` is where the comments begin that belong to no node yet;
* `Taking` is a comment with the node that takes it, `Takings` lists such comments in order, and
  `Tree.Covered` says that the comments of a node are among them;
* `Grammar.Run.takings` : whatever is read takes comments in order, one after the other;
* `Parse.document_comments` : so no comment of a document is taken twice.
-/

namespace Metadoc

/-! ### Where comments stand -/

/-- The two comments that a node may have. -/
inductive Side where
  /-- The one above it. -/
  | above
  /-- The one behind it. -/
  | behind
deriving DecidableEq, Repr

/-- The text of a comment of a node, empty if there is none. -/
def NodeData.comment (d : NodeData) : Side → String
  | .above => d.pre
  | .behind => d.post

/-- Whether a token is the first with content that does not end by a position. -/
def Token.FirstFrom (ts : List Token) (pos : Nat) (a : Token) : Prop :=
  ∃ before after, ts = before ++ a :: after ∧ pos ≤ a.start ∧
    ∀ t ∈ before, t.isTrivia = false → t.stop ≤ pos

/-- Where a comment of a node stands among the tokens of a document: the one above it, above its
first token; the one behind it, behind its last token, or behind the separator after that. -/
def Tree.CommentAt (ts : List Token) (t : Tree) : Side → Token → Prop
  | .above, c => ∃ first : Token, first.isTrivia = false ∧ first.start = t.firstStart ∧
      Token.Heads ts c first
  | .behind, c =>
      (∃ last : Token, last.isTrivia = false ∧ last.stop = t.data.span.stop ∧
        Token.Trails ts last c) ∨
      ∃ sep mark, t.data.facets.followedBy = some sep ∧ mark.symbol? = some sep.byte ∧
        Token.FirstFrom ts t.data.span.stop mark ∧ Token.Trails ts mark c

/-- Whether a token of a document is a comment of a node. -/
structure Tree.HasComment (source : Source) (t : Tree) (side : Side) (c : Token) : Prop where
  /-- It is a token of the document. -/
  mem : c ∈ Token.all source.bytes 0
  /-- It is a comment. -/
  kind : c.kind = .comment
  /-- The node has its text. -/
  text : c.commentText = t.data.comment side
  /-- It stands beside the node. -/
  place : t.CommentAt (Token.all source.bytes 0) side c

theorem Token.Trails.mem {ts : List Token} {a c : Token} (h : Trails ts a c) : c ∈ ts := by
  obtain ⟨before, gap, after, rfl, -⟩ := h
  simp

theorem Token.Heads.mem {ts : List Token} {a c : Token} (h : Heads ts c a) : c ∈ ts := by
  obtain ⟨before, gap, after, rfl, -⟩ := h
  simp

/-! ### Comments in order -/

namespace Lexeme

variable {start stop : Nat} {ls : List Lexeme}

theorem Tile.bounds {before after : List Lexeme} {l : Lexeme}
    (h : Tile stop start (before ++ l :: after)) :
    start ≤ l.start ∧ l.start < l.stop ∧ l.stop ≤ stop ∧ ∀ m ∈ before, m.stop ≤ l.start := by
  obtain ⟨mid, hbefore, rfl, hlt, hafter⟩ := tile_append.1 h
  refine ⟨hbefore.le, hlt, hafter.le, fun m hm => ?_⟩
  obtain ⟨front, rest, rfl⟩ := List.append_of_mem hm
  obtain ⟨_, -, rfl, -, hrest⟩ := tile_append.1 hbefore
  exact hrest.le

end Lexeme

theorem Cursor.Tiled.tile_gap {c : Cursor} (h : c.Tiled) : Lexeme.Tile c.pos c.prevEnd c.gap := by
  unfold gap
  split
  · rename_i hnil
    rw [Tiled, hnil] at h
    rwa [pos, span_of_nil hnil]
  · rename_i w ws hw
    rw [pos, span_of_cons hw]
    exact (h.of_cons hw).1

namespace State

/-- Where the comments begin that belong to no node yet: behind the last word, or behind the comment
on its line if a node has that. -/
def cut (s : State) : Nat :=
  match s.cursor.trivia.trailing with
  | some c => if s.claimed then c.stop else s.cursor.prevEnd
  | none => s.cursor.prevEnd

/-- Whether no comment on the line of the last word is left to take. -/
def Settled (s : State) : Prop := s.claimed = true ∨ s.cursor.trivia.trailing = none

variable {s s' : State} {c : Lexeme}

section Tiled

variable (hs : s.cursor.Tiled)
include hs

theorem trailing_bounds (hc : s.cursor.trivia.trailing = some c) :
    s.cursor.prevEnd ≤ c.start ∧ c.start < c.stop ∧ c.stop ≤ s.cursor.pos := by
  obtain ⟨-, before, after, hin, -⟩ :=
    (Trivia.sums_ofGap s.cursor.started s.cursor.gap).trailing c hc
  have htile := hs.tile_gap
  rw [hin.all] at htile
  obtain ⟨hstart, hlt, hstop, -⟩ := htile.bounds
  exact ⟨hstart, hlt, hstop⟩

theorem prevEnd_le_cut : s.cursor.prevEnd ≤ s.cut := by
  unfold cut
  split
  · rename_i c hc
    obtain ⟨hstart, hlt, -⟩ := trailing_bounds hs hc
    split
    · exact hstart.trans hlt.le
    · exact Nat.le_refl _
  · exact Nat.le_refl _

theorem cut_le_pos : s.cut ≤ s.cursor.pos := by
  unfold cut
  split
  · rename_i c hc
    split
    · exact (trailing_bounds hs hc).2.2
    · exact hs.prevEnd_le_pos
  · exact hs.prevEnd_le_pos

/-- The comment above the word ahead belongs to no node yet. -/
theorem leading_bounds {n : Nat} (hc : s.cursor.trivia.leading = some (c, n)) :
    s.cut ≤ c.start ∧ c.start < s.cursor.pos := by
  obtain ⟨before, after, hin, -, -, hmem⟩ :=
    (Trivia.sums_ofGap s.cursor.started s.cursor.gap).leading (c, n) hc
  have htile := hs.tile_gap
  rw [hin.all] at htile
  obtain ⟨hstart, hlt, hstop, hbefore⟩ := htile.bounds
  refine ⟨?_, hlt.trans_le hstop⟩
  unfold cut
  split
  · rename_i t ht
    split
    · exact hbefore t (hmem t ht)
    · exact hstart
  · exact hstart

end Tiled

theorem claim_cases (s : State) : s.claim.value = "" ∨
    ∃ c, s.cursor.trivia.trailing = some c ∧ s.claimed = false ∧
      s.claim = ⟨c.commentText, { s with claimed := true }⟩ := by
  unfold claim
  split
  · rename_i c hc
    split
    · exact .inl rfl
    · rename_i hclaimed
      exact .inr ⟨c, hc, Bool.eq_false_iff.2 hclaimed, rfl⟩
  · exact .inl rfl

theorem value_claim_of_settled (h : s.Settled) : s.claim.value = "" := by
  rcases s.claim_cases with hvalue | ⟨c, hc, hclaimed, -⟩
  · exact hvalue
  · rcases h with h | h
    · rw [h] at hclaimed
      cases hclaimed
    · rw [h] at hc
      cases hc

theorem settled_claim (s : State) : s.claim.state.Settled := by
  unfold claim
  split
  · split
    · exact .inl ‹_›
    · exact .inl rfl
  · exact .inr ‹_›

theorem cut_of_claim (hs : s.cursor.Tiled) (hc : s.cursor.trivia.trailing = some c)
    (hclaimed : s.claimed = false) :
    s.cut ≤ c.start ∧ c.start < ({ s with claimed := true } : State).cut := by
  obtain ⟨hstart, hlt, -⟩ := trailing_bounds hs hc
  have hcut : s.cut = s.cursor.prevEnd := by simp [cut, hc, hclaimed]
  have hcut' : ({ s with claimed := true } : State).cut = c.stop := by simp [cut, hc]
  exact ⟨hcut ▸ hstart, hcut' ▸ hlt⟩

theorem cut_le_claim (hs : s.cursor.Tiled) : s.cut ≤ s.claim.state.cut := by
  unfold claim
  split
  · rename_i c hc
    split
    · exact Nat.le_refl _
    · rename_i hclaimed
      obtain ⟨hle, hlt⟩ := cut_of_claim hs hc (Bool.eq_false_iff.2 hclaimed)
      exact hle.trans hlt.le
  · exact Nat.le_refl _

theorem Onward.cut_le (h : Onward s s') (hs : s.cursor.Tiled) (hlt : s'.left < s.left) :
    s.cursor.pos ≤ s'.cut :=
  (h.pos_lt_prevEnd hs hlt).le.trans (prevEnd_le_cut h.tiled)

/-- What belongs to a node stays there. -/
theorem steps_cut : Steps fun s s' => s.cursor.Tiled → s'.cursor.Tiled ∧ s.cut ≤ s'.cut where
  refl _ hs := ⟨hs, Nat.le_refl _⟩
  trans h h' hs := ⟨(h' (h hs).1).1, (h hs).2.trans (h' (h hs).1).2⟩
  advance s hs := by
    have hon := onward_advance hs
    refine ⟨hon.tiled, ?_⟩
    cases hend : s.cursor.atEnd with
    | true => rw [State.advance, if_pos hend]
    | false => exact (cut_le_pos hs).trans (hon.cut_le hs (left_advance_lt hend))
  alloc _ hs := ⟨hs, Nat.le_refl _⟩
  report _ _ _ _ hs := ⟨hs, Nat.le_refl _⟩
  claim s hs := ⟨by rwa [cursor_claim], cut_le_claim hs⟩

end State

/-! ### Takings -/

/-- A comment that a node takes. -/
structure Taking where
  /-- The number of the node. -/
  node : Nat
  /-- Which of its comments this is. -/
  side : Side
  /-- The comment. -/
  comment : Lexeme

/-- Whether comments that are taken stand one behind the other between two positions. -/
structure Takings (lo hi : Nat) (ks : List Taking) : Prop where
  /-- Each stands before those behind it. -/
  sorted : ks.Pairwise fun a b => a.comment.start < b.comment.start
  /-- They stand between the positions. -/
  within : ∀ k ∈ ks, lo ≤ k.comment.start ∧ k.comment.start < hi

namespace Takings

variable {lo mid hi : Nat} {ks ks' : List Taking}

theorem nil (lo hi : Nat) : Takings lo hi [] := ⟨.nil, List.forall_mem_nil _⟩

theorem singleton {k : Taking} (hlo : lo ≤ k.comment.start) (hhi : k.comment.start < hi) :
    Takings lo hi [k] :=
  ⟨List.pairwise_singleton _ _, List.forall_mem_singleton.2 ⟨hlo, hhi⟩⟩

theorem mono {lo' hi' : Nat} (h : Takings lo hi ks) (hlo : lo' ≤ lo) (hhi : hi ≤ hi') :
    Takings lo' hi' ks :=
  ⟨h.sorted, fun k hk => ⟨hlo.trans (h.within k hk).1, (h.within k hk).2.trans_le hhi⟩⟩

theorem append (h : Takings lo mid ks) (h' : Takings mid hi ks') (hlo : lo ≤ mid)
    (hhi : mid ≤ hi) : Takings lo hi (ks ++ ks') := by
  refine ⟨List.pairwise_append.2 ⟨h.sorted, h'.sorted, fun a ha b hb => ?_⟩, fun k hk => ?_⟩
  · exact (h.within a ha).2.trans_le (h'.within b hb).1
  · rcases List.mem_append.1 hk with hk | hk
    · exact (h.mono (Nat.le_refl lo) hhi).within k hk
    · exact (h'.mono hlo (Nat.le_refl hi)).within k hk

theorem eq_of_start (h : Takings lo hi ks) {a b : Taking} (ha : a ∈ ks) (hb : b ∈ ks)
    (hab : a.comment.start = b.comment.start) : a = b := by
  have hnodup : (ks.map fun k => k.comment.start).Nodup :=
    List.pairwise_map.2 (h.sorted.imp fun hlt => Nat.ne_of_lt hlt)
  exact List.inj_on_of_nodup_map hnodup ha hb hab

end Takings

/-- Whether the comments of a node are among those that are taken. -/
def Tree.Covered (source : Source) (ks : List Taking) (t : Tree) : Prop :=
  ∀ side, t.data.comment side ≠ "" →
    ∃ c : Lexeme, ⟨t.id, side, c⟩ ∈ ks ∧ t.HasComment source side c.toToken

namespace Tree

variable {source : Source} {ks ks' : List Taking} {t : Tree} {ts : List Tree}

theorem every_covered_mono (h : Every (Covered source ks) ts) (hsub : ks ⊆ ks') :
    Every (Covered source ks') ts := fun t ht side hne => by
  obtain ⟨c, hmem, hc⟩ := h t ht side hne
  exact ⟨c, hsub hmem, hc⟩

theorem every_covered_cons (ht : Every (Covered source ks) [t])
    (hts : Every (Covered source ks') ts) : Every (Covered source (ks ++ ks')) (t :: ts) :=
  every_cons.2 ⟨every_covered_mono ht (List.subset_append_left ks ks'),
    every_covered_mono hts (List.subset_append_right ks ks')⟩

end Tree

/-- Whether trees have their comments from between two positions. -/
def Tree.Take (source : Source) (lo hi : Nat) (ts : List Tree) : Prop :=
  ∃ ks, Takings lo hi ks ∧ Every (Covered source ks) ts

namespace Tree.Take

variable {source : Source} {lo mid hi : Nat} {t : Tree} {ts : List Tree}

theorem nil (lo hi : Nat) : Take source lo hi [] := ⟨[], .nil lo hi, every_nil⟩

theorem mono {lo' hi' : Nat} (h : Take source lo hi ts) (hlo : lo' ≤ lo) (hhi : hi ≤ hi') :
    Take source lo' hi' ts := by
  obtain ⟨ks, htakings, hcovered⟩ := h
  exact ⟨ks, htakings.mono hlo hhi, hcovered⟩

theorem cons (h : Take source lo mid [t]) (h' : Take source mid hi ts) (hlo : lo ≤ mid)
    (hhi : mid ≤ hi) : Take source lo hi (t :: ts) := by
  obtain ⟨ks, htakings, hcovered⟩ := h
  obtain ⟨ks', htakings', hcovered'⟩ := h'
  exact ⟨ks ++ ks', htakings.append htakings' hlo hhi, every_covered_cons hcovered hcovered'⟩

end Tree.Take

/-! ### Where nodes begin and end -/

namespace Grammar

open State (Onward)
open Metadoc.Tree (Every Take Covered)

variable {source : Source} {s s' : State}

/-- Where the nodes of a part begin and end: a node without its tags goes from the word ahead to the
last word read, and with its tags it begins there. -/
def Part.Spanned (s : State) (r : Read SetBody) : Part → Prop
  | .tag | .bare .. => ∀ t ∈ r.value.children, t.data.span = r.state.spanFrom s.cursor.pos
  | .tags => (r.value.children = [] → r.state = s) ∧
      ∀ g ∈ r.value.children.head?, g.data.span.start = s.cursor.pos
  | .node _ | .entry _ => ∀ t ∈ r.value.children, t.firstStart = s.cursor.pos ∧
      ∃ start ≤ r.state.cursor.pos, t.data.span = r.state.spanFrom start
  | _ => True

theorem spanned_close (id start : Nat) (kind : NodeKind) (label : Label) (facets : Facets)
    (children : List Tree) (s : State) :
    (close id start kind label facets children s).value.data.span =
      (close id start kind label facets children s).state.spanFrom start :=
  (State.spanFrom_congr (cursor_close ..) start).symm

theorem spanned_unexpected (s : State) :
    (unexpected s).value.data.span = (unexpected s).state.spanFrom s.cursor.pos := by
  unfold unexpected
  dsimp only
  split <;> exact spanned_close ..

theorem spanned_untaggable (ts : List Tree) (s : State) :
    (untaggable ts s).value.data.span = (untaggable ts s).state.spanFrom s.cursor.pos := by
  unfold untaggable
  dsimp only
  split <;> exact spanned_close ..

theorem firstStart_dress (pre : String) (ts : List Tree) (t : Tree) :
    (dress pre ts t).firstStart = (ts.head?.map (·.data.span.start)).getD t.data.span.start := by
  cases t
  cases ts <;> rfl

theorem Run.spanned {n : Nat} {part : Part} {r : Read SetBody} (h : Run n part s r)
    (hs : s.cursor.Tiled) : part.Spanned s r := by
  induction h with
  | namelessTag _ _ | plainTag _ _ _ | tagWithArguments _ _ _ _ _ | unlabeled _ _ _ _ =>
    exact List.forall_mem_singleton.2 (spanned_close ..)
  | label hl _ | labeledLine hl _ _ _ _ =>
    rw [Cursor.start_of_label hl]
    exact List.forall_mem_singleton.2 (spanned_close ..)
  | @labeledSet _ _ _ s l _ r hl _ _ _ _ _ =>
    refine List.forall_mem_singleton.2 ?_
    simp only [Read.one_state]
    rw [reportCramped_value, State.spanFrom_congr (cursor_reportCramped s.count _),
      Cursor.start_of_label hl]
    exact spanned_close ..
  | tagsEnd _ => exact ⟨fun _ => rfl, nofun⟩
  | tagsCons _ _ _ ihFirst _ =>
    refine ⟨nofun, ?_⟩
    rintro g ⟨⟩
    rw [ihFirst hs _ List.mem_cons_self]
    rfl
  | untaggable _ _ => exact List.forall_mem_singleton.2 (spanned_untaggable _ _)
  | unexpected _ _ _ => exact List.forall_mem_singleton.2 (spanned_unexpected _)
  | @node _ _ s ts t tags bare ihTags ihBare =>
    have hon := tags.onward hs
    obtain ⟨hempty, hhead⟩ := ihTags hs
    have hspan := ihBare hon.tiled _ List.mem_cons_self
    refine List.forall_mem_singleton.2 ⟨?_, ts.state.cursor.pos,
      (bare.onward hon.tiled).pos_le hon.tiled, ?_⟩
    · rw [firstStart_dress, hspan]
      cases hts : ts.value with
      | nil =>
        have hstate : ts.state = s := hempty hts
        rw [hstate]
        rfl
      | cons g gs => exact hhead g (by rw [Read.many_value, hts]; rfl)
    · cases htree : t.value
      rw [htree] at hspan
      exact hspan
  | entry _ ih => exact ih hs
  | stray _ _ =>
    have hon := State.steps_onward.unexpected _ hs
    refine List.forall_mem_singleton.2 ⟨?_, _, hon.pos_le hs, spanned_unexpected _⟩
    rw [Tree.firstStart, (unexpected_unfollowed _).1, spanned_unexpected]
    rfl
  | _ => trivial

/-- A node that is closed leaves no comment on the line behind it. -/
def Part.Settles (r : Read SetBody) : Part → Prop
  | .tag => r.state.Settled
  | .tags => r.value.children ≠ [] → r.state.Settled
  | _ => True

theorem Run.settled {n : Nat} {part : Part} {r : Read SetBody} (h : Run n part s r)
    (hs : s.cursor.Tiled) : part.Settles r := by
  induction h with
  | namelessTag _ _ | plainTag _ _ _ | tagWithArguments _ _ _ _ _ => exact State.settled_claim _
  | tagsEnd _ => exact absurd rfl
  | @tagsCons _ _ t ts _ first rest ihFirst ihRest =>
    intro _
    have hon := first.onward hs
    cases hts : ts.value with
    | nil =>
      have hstate : ts.state = t.state := (rest.spanned hon.tiled).1 hts
      rw [Read.many_state]
      exact hstate ▸ ihFirst hs
    | cons g gs =>
      have hne : (Read.many ts).value.children ≠ [] := by
        rw [Read.many_value, hts]
        exact List.cons_ne_nil g gs
      exact ihRest hon.tiled hne
  | _ => trivial

/-! ### What nodes take -/

/-- A node that ends with a word takes the comment on the line of the word. -/
theorem take_close {lo start : Nat} {children : List Tree} (h : Take source lo s.cut children)
    (hb : s.Between source) (hs : s.cursor.Tiled) (hlo : lo ≤ s.cursor.prevEnd)
    (hstart : start ≤ s.cursor.prevEnd) (id : Nat) (kind : NodeKind) (label : Label)
    (facets : Facets) :
    Take source lo (close id start kind label facets children s).state.cut
      [(close id start kind label facets children s).value] := by
  obtain ⟨ks, htakings, hcovered⟩ := h
  rcases s.claim_cases with hnone | ⟨c, hc, hclaimed, hclaim⟩
  · refine ⟨ks, htakings.mono (Nat.le_refl lo) (State.cut_le_claim hs),
      Tree.every_singleton.2 ⟨fun side hne => ?_, Tree.every_nil, hcovered⟩⟩
    cases side with
    | above => exact absurd rfl hne
    | behind => exact absurd hnone hne
  · obtain ⟨hle, hlt⟩ := State.cut_of_claim hs hc hclaimed
    obtain ⟨hkind, last, hcontent, hstop, htrails⟩ := hb.trails hc
    have hstate : (close id start kind label facets children s).state =
        { s with claimed := true } := congrArg Read.state hclaim
    have hpost : (close id start kind label facets children s).value.data.post = c.commentText :=
      congrArg Read.value hclaim
    have hspan : (s.spanFrom start).stop = s.cursor.prevEnd := Nat.max_eq_left hstart
    refine ⟨ks ++ [⟨id, .behind, c⟩], ?_, Tree.every_singleton.2 ⟨fun side hne => ?_,
      Tree.every_nil, Tree.every_covered_mono hcovered (List.subset_append_left ks _)⟩⟩
    · rw [hstate]
      exact htakings.append (.singleton hle hlt) (hlo.trans (State.prevEnd_le_cut hs))
        (hle.trans hlt.le)
    · cases side with
      | above => exact absurd rfl hne
      | behind =>
        exact ⟨c, List.mem_append_right _ List.mem_cons_self, htrails.mem, hkind, hpost.symm,
          .inl ⟨last, hcontent, hstop.trans hspan.symm, htrails⟩⟩

theorem take_unexpected (hb : s.Between source) (hs : s.cursor.Tiled)
    (hend : s.cursor.atEnd = false) :
    Take source s.cursor.pos (unexpected s).state.cut [(unexpected s).value] := by
  have hon := State.onward_advance hs
  have hlt := hon.pos_lt_prevEnd hs (State.left_advance_lt hend)
  have take (label : Label) {behind : State} (hcursor : behind.cursor = s.cursor.advance) :
      Take source s.cursor.pos
        (close s.count s.cursor.pos .error label {} [] behind).state.cut
        [(close s.count s.cursor.pos .error label {} [] behind).value] := by
    have hcursor' : behind.cursor = s.advance.cursor := hcursor.trans (State.cursor_advance s).symm
    have hbetween := ((State.steps_between source).advance s hb).of_eq hcursor'
    rw [← hcursor'] at hlt
    exact take_close (.nil _ _) hbetween (hcursor' ▸ hon.tiled) hlt.le hlt.le _ _ _ _
  unfold unexpected
  dsimp only
  split <;> exact take _ (State.cursor_advance s.alloc.state)

theorem take_untaggable (lo : Nat) (ts : List Tree) (h : s.Settled) :
    Take source lo (untaggable ts s).state.cut [(untaggable ts s).value] := by
  have hpost : (untaggable ts s).value.data.post = "" := by
    unfold untaggable
    dsimp only
    split <;> exact State.value_claim_of_settled h
  refine ⟨[], .nil _ _, Tree.every_singleton.2 ⟨fun side hne => ?_, Tree.every_nil,
    Tree.every_nil⟩⟩
  cases side with
  | above => exact absurd rfl hne
  | behind => exact absurd hpost hne

theorem leadingText_cases (t : Trivia) : t.leadingText = "" ∨
    ∃ c n, t.leading = some (c, n) ∧ n < 2 ∧ t.leadingText = c.commentText := by
  unfold Trivia.leadingText
  split
  · rename_i c n hc
    split
    · exact .inr ⟨c, n, hc, ‹_›, rfl⟩
    · exact .inl rfl
  · exact .inl rfl

/-- With its tags, a node takes the comment above it. -/
theorem take_dress {mid hi : Nat} {ts : List Tree} {t : Tree}
    (hts : Take source s.cursor.pos mid ts) (ht : Take source mid hi [t])
    (hlo : s.cursor.pos ≤ mid) (hhi : mid ≤ hi) (hb : s.Between source) (hs : s.cursor.Tiled)
    {first : Lexeme} (hword : s.cursor.lexeme? = some first)
    (hfirst : (dress s.cursor.trivia.leadingText ts t).firstStart = s.cursor.pos) :
    Take source s.cut hi [dress s.cursor.trivia.leadingText ts t] := by
  obtain ⟨new, hnew, habove⟩ : ∃ new, Takings s.cut s.cursor.pos new ∧
      (s.cursor.trivia.leadingText ≠ "" → ∃ c : Lexeme, ⟨t.id, .above, c⟩ ∈ new ∧
        (dress s.cursor.trivia.leadingText ts t).HasComment source .above c.toToken) := by
    rcases leadingText_cases s.cursor.trivia with hnone | ⟨c, n, hc, hn, htext⟩
    · exact ⟨[], .nil _ _, fun hne => absurd hnone hne⟩
    · obtain ⟨hle, hlt⟩ := State.leading_bounds hs hc
      obtain ⟨hkind, hheads⟩ := hb.heads hword hc hn
      obtain ⟨behind, hsplits⟩ := hb
      refine ⟨[⟨t.id, .above, c⟩], .singleton hle hlt, fun _ => ⟨c, List.mem_cons_self,
        hheads.mem, hkind, ?_, first.toToken, (hsplits.advance hword).1, ?_, hheads⟩⟩
      · cases t
        exact htext.symm
      · rw [hfirst, Cursor.pos, Cursor.span_of_lexeme hword]
        rfl
  obtain ⟨ks, htakings, hcovered⟩ := hts
  obtain ⟨ks', htakings', hcovered'⟩ := ht
  have hrest := htakings.append htakings' hlo hhi
  refine ⟨new ++ (ks ++ ks'), hnew.append hrest (State.cut_le_pos hs) (hlo.trans hhi), ?_⟩
  have hsub : ks ⊆ new ++ (ks ++ ks') :=
    List.Subset.trans (List.subset_append_left ks ks') (List.subset_append_right _ _)
  have hsub' : ks' ⊆ new ++ (ks ++ ks') :=
    List.Subset.trans (List.subset_append_right ks ks') (List.subset_append_right _ _)
  obtain ⟨hroot, -, hbelow⟩ := Tree.every_singleton.1 (Tree.every_covered_mono hcovered' hsub')
  cases t with
  | node id d us cs =>
    refine Tree.every_singleton.2 ⟨fun side hne => ?_, Tree.every_covered_mono hcovered hsub,
      hbelow⟩
    cases side with
    | above =>
      obtain ⟨c, hmem, hc⟩ := habove hne
      exact ⟨c, List.mem_append_left _ hmem, hc⟩
    | behind =>
      obtain ⟨c, hmem, hc⟩ := hroot .behind hne
      exact ⟨c, hmem, hc.mem, hc.kind, hc.text, hc.place⟩

theorem span_precede (sep : Option Separator) (t : Tree) :
    (precede sep t).data.span = t.data.span := by
  cases t
  rfl

theorem take_precede {lo hi : Nat} (sep : Option Separator) {t : Tree}
    (h : Take source lo hi [t]) : Take source lo hi [precede sep t] := by
  obtain ⟨ks, htakings, hcovered⟩ := h
  obtain ⟨hroot, hbelow⟩ := Tree.every_singleton.1 hcovered
  refine ⟨ks, htakings, ?_⟩
  cases t
  refine Tree.every_singleton.2 ⟨fun side hne => ?_, hbelow⟩
  obtain ⟨c, hmem, hc⟩ := hroot side hne
  refine ⟨c, hmem, hc.mem, hc.kind, ?_, ?_⟩
  · cases side <;> exact hc.text
  · cases side <;> exact hc.place

theorem firstFrom_of_separator {sep : Separator} {span : Span} {start : Nat}
    (hb : s.Between source) (hs : s.cursor.Tiled) (hsep : s.cursor.separator? = some sep)
    (hspan : span = s.spanFrom start) (hstart : start ≤ s.cursor.pos) :
    ∃ mark : Lexeme, s.cursor.lexeme? = some mark ∧ mark.symbol? = some sep.byte ∧
      Token.FirstFrom (Token.all source.bytes 0) span.stop mark.toToken := by
  obtain ⟨b, hsymbol, hbyte⟩ := Option.bind_eq_some_iff.1 hsep
  obtain ⟨mark, hmark, hmarkSymbol⟩ := Option.bind_eq_some_iff.1 hsymbol
  rw [Separator.ofByte?_eq_some hbyte] at hmarkSymbol
  obtain ⟨behind, hsplits⟩ := hb
  obtain ⟨-, ⟨rest, hall⟩, -⟩ := hsplits.advance hmark
  have hpos : mark.start = s.cursor.pos := by
    rw [Cursor.pos, Cursor.span_of_lexeme hmark]
    rfl
  refine ⟨mark, hmark, hmarkSymbol, (behind ++ s.cursor.gap).map Lexeme.toToken,
    rest.map Lexeme.toToken, ?_, ?_, ?_⟩
  · rw [← Parse.toToken_all, hall]
    simp
  · rw [hspan, hpos]
    exact Nat.max_le.2 ⟨hs.prevEnd_le_pos, hstart⟩
  · rw [List.forall_mem_map]
    intro l hl hcontent
    -- What is behind ends before the entry does, and the gap holds nothing but trivia.
    rcases List.mem_append.1 hl with hl | hl
    · rw [hspan]
      exact (hsplits.stop_le hl).trans (Nat.le_max_left _ _)
    · have htrivia : l.isTrivia = true := hsplits.isTrivia_of_mem_gap l hl
      rw [htrivia] at hcontent
      cases hcontent

theorem hasComment_followed {id : Nat} {d d' : NodeData} {us cs : List Tree} {side : Side}
    {c : Token} (h : (Tree.node id d us cs).HasComment source side c)
    (hnone : d.facets.followedBy = none) (hspan : d'.span = d.span)
    (hcomment : d'.comment side = d.comment side) :
    (Tree.node id d' us cs).HasComment source side c := by
  refine ⟨h.mem, h.kind, h.text.trans hcomment.symm, ?_⟩
  cases side with
  | above =>
    obtain ⟨first, hcontent, hstart, hheads⟩ := h.place
    exact ⟨first, hcontent, hstart.trans (Tree.firstStart_congr hspan.symm rfl), hheads⟩
  | behind =>
    rcases h.place with ⟨last, hcontent, hstop, htrails⟩ | ⟨sep, mark, hsep, -⟩
    · exact .inl ⟨last, hcontent, hstop.trans (congrArg Span.stop hspan.symm), htrails⟩
    · have hsome : d.facets.followedBy = some sep := hsep
      rw [hnone] at hsome
      cases hsome

/-- An entry that has no comment on its line takes the one behind the separator. -/
theorem take_follow {lo start : Nat} {sep : Separator} {t : Tree} (h : Take source lo s.cut [t])
    (hb : s.Between source) (hs : s.cursor.Tiled) (hsep : s.cursor.separator? = some sep)
    (hspan : t.data.span = s.spanFrom start) (hstart : start ≤ s.cursor.pos)
    (hnone : t.data.facets.followedBy = none) (hlo : lo ≤ s.cursor.pos) :
    Take source lo (follow sep t s).state.cut [(follow sep t s).value] := by
  obtain ⟨mark, hmark, hsymbol, hfirst⟩ := firstFrom_of_separator hb hs hsep hspan hstart
  obtain ⟨ks, htakings, hcovered⟩ := h
  obtain ⟨hroot, hbelow⟩ := Tree.every_singleton.1 hcovered
  have hon := State.onward_advance hs
  have hpos : s.cursor.pos ≤ s.advance.cut := by
    refine hon.cut_le hs (State.left_advance_lt ?_)
    rw [Cursor.lexeme?, Cursor.word?, Option.map_eq_some_iff] at hmark
    obtain ⟨w, hw, -⟩ := hmark
    cases hahead : s.cursor.ahead with
    | nil => simp [hahead] at hw
    | cons w ws => simp [Cursor.atEnd, hahead]
  have htakings' := htakings.mono (Nat.le_refl lo) ((State.cut_le_pos hs).trans hpos)
  cases t with
  | node id d us cs =>
    unfold follow
    dsimp only
    split
    · rcases s.advance.claim_cases with hempty | ⟨c, hc, hclaimed, hclaim⟩
      · refine ⟨ks, htakings'.mono (Nat.le_refl lo) (State.cut_le_claim hon.tiled),
          Tree.every_singleton.2 ⟨fun side hne => ?_, hbelow⟩⟩
        cases side with
        | above =>
          obtain ⟨c, hmem, hc⟩ := hroot .above hne
          exact ⟨c, hmem, hasComment_followed hc hnone rfl rfl⟩
        | behind => exact absurd hempty hne
      · obtain ⟨hle, hlt⟩ := State.cut_of_claim hon.tiled hc hclaimed
        obtain ⟨hkind, htrails⟩ := hb.trails_advance hmark hc
        rw [hclaim]
        have hnew : Takings s.advance.cut _ [⟨id, .behind, c⟩] := .singleton hle hlt
        refine ⟨ks ++ [⟨id, .behind, c⟩], htakings'.append hnew (hlo.trans hpos)
          (hle.trans hlt.le), Tree.every_singleton.2 ⟨fun side hne => ?_, ?_⟩⟩
        · cases side with
          | above =>
            obtain ⟨c', hmem, hc'⟩ := hroot .above hne
            exact ⟨c', List.mem_append_left _ hmem, hasComment_followed hc' hnone rfl rfl⟩
          | behind =>
            exact ⟨c, List.mem_append_right _ List.mem_cons_self, htrails.mem, hkind, rfl,
              .inr ⟨sep, mark.toToken, rfl, hsymbol, hfirst, htrails⟩⟩
        · have hsub := List.subset_append_left ks [⟨id, .behind, c⟩]
          exact ⟨Tree.every_covered_mono hbelow.1 hsub, Tree.every_covered_mono hbelow.2 hsub⟩
    · refine ⟨ks, htakings', Tree.every_singleton.2 ⟨fun side hne => ?_, hbelow⟩⟩
      have hcomment : ∀ facets, ({ d with facets } : NodeData).comment side = d.comment side := by
        intro facets
        cases side <;> rfl
      obtain ⟨c, hmem, hc⟩ := hroot side (hcomment _ ▸ hne)
      exact ⟨c, hmem, hasComment_followed hc hnone rfl (hcomment _)⟩

/-- Where the comments begin that a part may take. -/
def Part.low (s : State) : Part → Nat
  | .tag | .tags | .bracketed .. | .bare .. => s.cursor.pos
  | _ => s.cut

/-- What is known where a part begins: an entry is read only before the end, and behind tags no
comment on the line is left to take. -/
def Part.Ready (s : State) : Part → Prop
  | .bare _ ts => ts ≠ [] → s.Settled
  | .entry _ => s.cursor.atEnd = false
  | _ => True

/-- Whatever is read, its nodes take their comments in order, one after the other. -/
theorem Run.takings {n : Nat} {part : Part} {r : Read SetBody} (h : Run n part s r)
    (hb : s.Between source) (hs : s.cursor.Tiled) (hready : part.Ready s) :
    Take source (part.low s) r.state.cut r.value.children := by
  have hbetween := State.steps_between source
  induction h with
  | @namelessTag _ s hat hl =>
    have hon := State.onward_advance hs
    have hlt := hon.pos_lt_prevEnd hs (State.left_advance_lt (Cursor.atEnd_of_isAt hat))
    have hmark : (s.advance.alloc.state.report .missingTagName s.cursor.span
        s.advance.count).Between source := (hbetween.advance s hb).of_eq rfl
    exact take_close (.nil _ _) hmark hon.tiled hlt.le hlt.le _ _ _ _
  | @plainTag _ s l hat hl _ =>
    have hname := hbetween.behindLabel _ l (hbetween.advance s hb)
    have hadvance := State.onward_advance hs
    have hon := hadvance.trans (State.steps_onward.behindLabel _ l hadvance.tiled)
    have hlt := hon.pos_lt_prevEnd hs
      ((left_behindLabel hl).trans (State.left_advance_lt (Cursor.atEnd_of_isAt hat)))
    exact take_close (.nil _ _) hname hon.tiled hlt.le hlt.le _ _ _ _
  | @tagWithArguments _ s l r hat hl _ args ih =>
    have hname := hbetween.behindLabel _ l (hbetween.advance s hb)
    have hadvance := State.onward_advance hs
    have hon := hadvance.trans (State.steps_onward.behindLabel _ l hadvance.tiled)
    have hargs := hon.trans (args.onward hon.tiled)
    have hlt := hargs.pos_lt_prevEnd hs (args.progress.1.trans_lt
      ((left_behindLabel hl).trans (State.left_advance_lt (Cursor.atEnd_of_isAt hat))))
    have htake := (ih hname hon.tiled trivial).mono (hon.pos_le hs) (Nat.le_refl _)
    exact take_close htake (hbetween.run args hname) hargs.tiled hlt.le hlt.le _ _ _ _
  | tagsEnd _ | bracketedRefused _ | lineMissing _ | lineRefused _ | entriesEnd _ =>
    exact .nil _ _
  | @tagsCons _ s t ts hat first rest ihFirst ihRest =>
    have hon := first.onward hs
    have hrest := (ihRest (hbetween.run first hb) hon.tiled trivial).mono
      (State.cut_le_pos hon.tiled) (Nat.le_refl _)
    exact (ihFirst hb hs trivial).cons hrest (hon.cut_le hs (first.progress.2 trivial))
      (State.steps_cut.run rest hon.tiled).2
  | @bracketedClosed _ _ _ s r _ ho body _ ih =>
    have hon := State.onward_advance hs
    have hlow := hon.cut_le hs (State.left_advance_lt (Cursor.atEnd_of_opens ho))
    have hbody := body.onward hon.tiled
    exact (ih (hbetween.advance s hb) hon.tiled trivial).mono hlow
      (State.steps_cut.advance _ hbody.tiled).2
  | @bracketedOpen _ _ _ s r ho body _ ih =>
    have hon := State.onward_advance hs
    have hlow := hon.cut_le hs (State.left_advance_lt (Cursor.atEnd_of_opens ho))
    exact (ih (hbetween.advance s hb) hon.tiled trivial).mono hlow (Nat.le_refl _)
  | lineRead _ _ ih => exact ih hb hs trivial
  | @label _ _ _ s l hl _ =>
    have hon := State.steps_onward.behindLabel s l hs
    have hlt := hon.pos_lt_prevEnd hs (left_behindLabel hl)
    have hstart := Cursor.start_of_label hl
    exact take_close (.nil _ _) (hbetween.behindLabel s l hb) hon.tiled hlt.le
      (hstart ▸ hlt.le) _ _ _ _
  | @labeledSet _ _ _ s l _ r hl _ _ _ body ih =>
    have hset := hbetween.advance _ (hbetween.behindLabel s l hb)
    have hlabel := State.steps_onward.behindLabel s l hs
    have hmark := hlabel.trans (State.onward_advance hlabel.tiled)
    obtain ⟨hon, hleft⟩ := onward_of_label hl hs body
    have hlt := hon.pos_lt_prevEnd hs hleft
    have htake := (ih hset hmark.tiled trivial).mono (hmark.pos_le hs) (Nat.le_refl _)
    have hclose := take_close htake (hbetween.run body hset) hon.tiled hlt.le
      (Cursor.start_of_label hl ▸ hlt.le) s.count r.value.kind l.label
      { opened := r.value.opened, closed := r.value.closed, literal := some l.label.literal }
    simp only [Read.one_value, Read.one_state, reportCramped_value]
    refine hclose.mono (Nat.le_refl _) (Nat.le_of_eq ?_)
    unfold reportCramped
    split <;> rfl
  | @labeledLine _ _ _ s l r hl _ _ body ih =>
    have hset := hbetween.advance _ (hbetween.behindLabel s l hb)
    have hlabel := State.steps_onward.behindLabel s l hs
    have hmark := hlabel.trans (State.onward_advance hlabel.tiled)
    obtain ⟨hon, hleft⟩ := onward_of_label hl hs body
    have hlt := hon.pos_lt_prevEnd hs hleft
    have hlow := hmark.cut_le hs ((State.left_advance_le _).trans_lt (left_behindLabel hl))
    have htake := (ih hset hmark.tiled trivial).mono hlow (Nat.le_refl _)
    exact take_close htake (hbetween.run body hset) hon.tiled hlt.le
      (Cursor.start_of_label hl ▸ hlt.le) _ _ _ _
  | @unlabeled _ ctx ts s _ r _ _ body ih =>
    generalize hbegun : (if ctx = .line then
        s.alloc.state.report (.unlabeledSet (!ts.isEmpty)) s.cursor.span s.count
      else s.alloc.state) = begun at body ih
    have hcursor : begun.cursor = s.cursor := by rw [← hbegun]; split <;> rfl
    have hset : begun.Between source := hb.of_eq hcursor
    have htiled : begun.cursor.Tiled := hcursor ▸ hs
    have hon := body.onward htiled
    have hlt := hon.pos_lt_prevEnd htiled (body.progress.2 trivial)
    have htake := ih hset htiled trivial
    rw [Part.low, hcursor] at htake
    rw [hcursor] at hlt
    exact take_close htake (hbetween.run body hset) hon.tiled hlt.le hlt.le _ _ _ _
  | untaggable _ hne => exact take_untaggable _ _ (hready hne)
  | unexpected _ _ he => exact take_unexpected hb hs (Cursor.atEnd_of_atLineEnd he)
  | @node _ _ s ts t tags bare ihTags ihBare =>
    have hon := tags.onward hs
    have hnode := hon.trans (bare.onward hon.tiled)
    have hleft : t.state.left < s.left := (Run.node tags bare).progress.2 trivial
    obtain ⟨first, hword⟩ := Cursor.exists_lexeme (State.atEnd_of_left_lt hleft)
    have hfirst := ((Run.node tags bare).spanned hs _ List.mem_cons_self).1
    have htags := (ihTags hb hs trivial).mono (Nat.le_refl _)
      (Nat.le_max_right s.cursor.pos ts.state.cut)
    have hbare := (ihBare (hbetween.run tags hb) hon.tiled (tags.settled hs)).mono
      (Nat.max_le.2 ⟨hon.pos_le hs, State.cut_le_pos hon.tiled⟩) (Nat.le_refl _)
    refine take_dress htags hbare (Nat.le_max_left _ _) (Nat.max_le.2 ⟨?_, ?_⟩) hb hs hword hfirst
    · exact hnode.cut_le hs hleft
    · exact (State.steps_cut.run bare hon.tiled).2
  | entry _ ih => exact ih hb hs trivial
  | stray _ _ =>
    exact (take_unexpected hb hs hready).mono (State.cut_le_pos hs) (Nat.le_refl _)
  | @extraSeparator _ _ _ s r he _ rest ih =>
    have hend := State.atEnd_of_not_entriesEnd he
    have hon := State.steps_onward.unexpected s hs
    have hfirst := (take_unexpected hb hs hend).mono (State.cut_le_pos hs) (Nat.le_refl _)
    exact hfirst.cons (ih (hbetween.unexpected s hb) hon.tiled trivial)
      (State.steps_cut.unexpected s hs).2 (State.steps_cut.run rest hon.tiled).2
  | @separated _ _ pending s e sep r he _ first hsep rest ihFirst ihRest =>
    have hon := first.onward hs
    have hentry := hbetween.run first hb
    obtain ⟨-, start, hstart, hspan⟩ := first.spanned hs _ List.mem_cons_self
    have hnone := first.unfollowed e.value List.mem_cons_self
    have htake := take_precede pending (ihFirst hb hs (State.atEnd_of_not_entriesEnd he))
    have hfirst := take_follow htake hentry hon.tiled hsep ((span_precede ..).trans hspan) hstart
      ((followedBy_precede ..).trans hnone) ((State.cut_le_pos hs).trans (hon.pos_le hs))
    have hfollow := State.steps_onward.follow sep (precede pending e.value) _ hon.tiled
    have hcut := State.steps_cut.follow sep (precede pending e.value) _ hon.tiled
    exact hfirst.cons (ihRest (hbetween.follow sep _ _ hentry) hfollow.tiled trivial)
      ((State.steps_cut.run first hs).2.trans hcut.2) (State.steps_cut.run rest hfollow.tiled).2
  | @unseparated _ _ pending s e r he _ first _ rest ihFirst ihRest =>
    have hon := first.onward hs
    have hfirst := take_precede pending (ihFirst hb hs (State.atEnd_of_not_entriesEnd he))
    exact hfirst.cons (ihRest (hbetween.run first hb) hon.tiled trivial)
      (State.steps_cut.run first hs).2 (State.steps_cut.run rest hon.tiled).2
  | lineLast _ _ ih => exact ih hb hs trivial
  | lineCons first _ rest ihFirst ihRest =>
    have hon := first.onward hs
    exact (ihFirst hb hs trivial).cons (ihRest (hbetween.run first hb) hon.tiled trivial)
      (State.steps_cut.run first hs).2 (State.steps_cut.run rest hon.tiled).2

end Grammar

/-! ### Documents -/

namespace Parse

/-- Whether `comment` finds the comments of the nodes of a parse in the document, each of them for
one node only. -/
structure Comments (p : Parse) (comment : Tree → Side → Token) : Prop where
  /-- Where a node has a text, there is a comment with this text beside it. -/
  found : ∀ t ∈ p.nodes, ∀ side, t.data.comment side ≠ "" →
    t.HasComment p.source side (comment t side)
  /-- No comment is found twice. -/
  once : ∀ t ∈ p.nodes, ∀ side, t.data.comment side ≠ "" →
    ∀ u ∈ p.nodes, ∀ side', u.data.comment side' ≠ "" →
      comment t side = comment u side' → t = u ∧ side = side'
  /-- The nodes are told apart by their numbers. -/
  apart : (p.nodes.map Tree.id).Nodup

/-- The comments of the nodes of a document are comments beside these nodes, and none of them is
that of two nodes. -/
theorem document_comments (source : Source) :
    ∃ comment, (document source).Comments comment := by
  have hrun := Grammar.run_entries Grammar.maxDepth .top (State.begin source 0).alloc.state
  have hnodup : ((document source).nodes.map Tree.id).Nodup :=
    ((document_ids_perm source).nodup_iff.2 List.nodup_range).of_append_left
  obtain ⟨ks, htakings, hcovered⟩ := hrun.takings ((State.between_begin source).of_eq rfl)
    (Cursor.tiled_begin source 0) trivial
  have hall : ∀ t ∈ (document source).nodes, t.Covered source ks := by
    rw [document_of_run hrun]
    refine List.forall_mem_cons.2 ⟨fun side hne => ?_, hcovered⟩
    cases side <;> exact absurd rfl hne
  have hchoice : ∀ t side, ∃ c : Token, t ∈ (document source).nodes →
      t.data.comment side ≠ "" → t.HasComment source side c ∧
        ∃ l : Lexeme, l.toToken = c ∧ ⟨t.id, side, l⟩ ∈ ks := by
    intro t side
    by_cases h : t ∈ (document source).nodes ∧ t.data.comment side ≠ ""
    · obtain ⟨l, hmem, hl⟩ := hall t h.1 side h.2
      exact ⟨l.toToken, fun _ _ => ⟨hl, l, rfl, hmem⟩⟩
    · exact ⟨⟨.endOfInput, 0, [], none, none⟩, fun ht hne => absurd ⟨ht, hne⟩ h⟩
  choose comment hcomment using hchoice
  refine ⟨comment, fun t ht side hne => (hcomment t side ht hne).1, ?_, hnodup⟩
  intro t ht side hne u hu side' hne' heq
  obtain ⟨-, l, hl, hmem⟩ := hcomment t side ht hne
  obtain ⟨-, l', hl', hmem'⟩ := hcomment u side' hu hne'
  have hstart : l.start = l'.start := congrArg Token.start (hl.trans (heq.trans hl'.symm))
  have hsame := htakings.eq_of_start hmem hmem' hstart
  have hid : t.id = u.id := congrArg Taking.node hsame
  exact ⟨List.inj_on_of_nodup_map hnodup ht hu hid, congrArg Taking.side hsame⟩

end Parse

end Metadoc
