import Metadoc.Proofs.Document.Lexemes
import Metadoc.Proofs.Document.Transport

/-!
# Reading on behind a text

A text that is read without a report may stand inside another one.  Its entries are then read as
they are in the text alone, and reading goes on behind them.

* `Cursor.Before` says which lexemes are ahead;
* `Enclosure` is how the lexemes of a text are found inside another, and `Enclosure.like` says that
  the states before both look alike;
* `Grammar.Run.entry_in_context` : an entry of a whole document may stand in a set in brackets;
* `Grammar.Run.extends` : behind the entries of the first text, those of the second go on.
-/

namespace Metadoc

/-! ### What is ahead -/

namespace Word

theorem splitAfter_trivia {ls : List Lexeme} (h : ∀ l ∈ ls, l.isTrivia = true) :
    ∀ gap, splitAfter gap ls = ([], gap ++ ls) := by
  induction ls with
  | nil => intro gap; rw [List.append_nil]; rfl
  | cons l ls ih =>
    intro gap
    obtain ⟨hl, hls⟩ := List.forall_mem_cons.1 h
    rw [splitAfter, if_pos hl, ih hls, List.append_assoc, List.singleton_append]

theorem split_trivia_append {ls : List Lexeme} (h : ∀ l ∈ ls, l.isTrivia = true)
    (more : List Lexeme) : split (ls ++ more) = splitAfter ls more := by
  rw [split, splitAfter_append_list, splitAfter_trivia h]
  rfl

end Word

/-- Whether the lexemes `ls` are ahead. -/
structure Cursor.Before (ls : List Lexeme) (c : Cursor) : Prop where
  /-- The words ahead are those of the lexemes. -/
  ahead : c.ahead = (Word.split ls).1
  /-- So is the trivia after the last of them. -/
  tail : c.tail = (Word.split ls).2

namespace Cursor.Before

variable {c : Cursor} {ls : List Lexeme}

theorem stages (h : c.Before ls) : c.stages = Word.stages (Word.split ls).1 (Word.split ls).2 := by
  rw [Cursor.stages, h.ahead, h.tail]

theorem gap (h : c.Before ls) : c.gap = Word.gapBefore (Word.split ls).1 (Word.split ls).2 := by
  rw [gap_eq, h.ahead, h.tail]

variable {l : Lexeme}

theorem ahead_cons (h : c.Before (l :: ls)) (hl : l.isTrivia = false) :
    c.ahead = ⟨[], l⟩ :: (Word.split ls).1 ∧ c.tail = (Word.split ls).2 := by
  have hsplit : Word.split (l :: ls) = (⟨[], l⟩ :: (Word.split ls).1, (Word.split ls).2) := by
    rw [Word.split, Word.splitAfter, if_neg (by simp [hl])]
    rfl
  rw [h.ahead, h.tail, hsplit]
  exact ⟨rfl, rfl⟩

theorem lexeme? (h : c.Before (l :: ls)) (hl : l.isTrivia = false) :
    c.lexeme? = some l ∧ c.gap = [] := by
  obtain ⟨hahead, -⟩ := h.ahead_cons hl
  rw [Cursor.lexeme?, Cursor.word?, gap_eq, hahead]
  exact ⟨rfl, rfl⟩

theorem advance (h : c.Before (l :: ls)) (hl : l.isTrivia = false) : c.advance.Before ls := by
  obtain ⟨hahead, htail⟩ := h.ahead_cons hl
  simp only [Cursor.advance, hahead]
  exact ⟨rfl, htail⟩

end Cursor.Before

theorem State.before_begin (source : Source) :
    (begin source 0).cursor.Before (Lexeme.all source 0) := by
  rw [begin, cursor_ofLexemes]
  exact ⟨rfl, rfl⟩

theorem Cursor.label?_of_reserved {c : Cursor} {b : UInt8} (h : c.symbol? = some b)
    (hb : reservedSymbols.contains b = true) : c.label? = none := by
  obtain ⟨l, hl, hsymbol⟩ := Option.bind_eq_some_iff.1 h
  have hkind : l.kind = .symbol := by
    unfold Token.symbol? at hsymbol
    split at hsymbol
    · assumption
    · cases hsymbol
  have hlabel : l.isLabel = false := by
    simp only [Lexeme.isLabel, hkind, hsymbol, Option.any_some, hb, Bool.not_true]
  rw [label?, hl, Option.filter_some, if_neg (by simp [hlabel])]

theorem State.noEntry_of_closes {s : State} {d : Delimiter} (h : s.cursor.closes? = some d) :
    s.noEntry ∧ s.cursor.isAt tagMark = false := by
  obtain ⟨b, hb, hd⟩ := Option.bind_eq_some_iff.1 h
  obtain rfl := Delimiter.ofClose?_eq_some hd
  have hend : s.cursor.atLineEnd = true := by simp [Cursor.atLineEnd, h]
  have hreserved : reservedSymbols.contains d.closeByte = true := by cases d <;> decide
  refine ⟨⟨Cursor.label?_of_reserved hb hreserved, ?_, hend⟩, ?_⟩
  · rw [Cursor.opens?, hb]
    cases d <;> decide
  · rw [Cursor.isAt, hb]
    cases d <;> decide

/-! ### A text inside another -/

/-- Whether a lexeme is blanks without fault. -/
def Lexeme.Blank (l : Lexeme) : Prop := l.kind = .whitespace ∧ l.error = none

theorem Lexeme.Blank.isTrivia {l : Lexeme} (h : l.Blank) : l.isTrivia = true := by
  rw [Token.isTrivia, h.1]
  rfl

/-- A text without fault inside another one.  Its lexemes are `lead ++ core ++ trail`; those of the
other text begin with `lead' ++ core'`, and then come blanks that end the line. -/
structure Enclosure (ρ : Relocation) where
  /-- The blanks that the text begins with. -/
  lead : List Lexeme
  /-- The lexemes that are found in the other text. -/
  core : List Lexeme
  /-- The blanks that the text ends with. -/
  trail : List Lexeme
  /-- The blanks that the other text begins with. -/
  lead' : List Lexeme
  /-- The lexemes as they are found there. -/
  core' : List Lexeme
  /-- The blanks that follow. -/
  stop : Lexeme
  blank_lead : ∀ l ∈ lead, l.Blank
  blank_trail : ∀ l ∈ trail, l.Blank
  blank_lead' : ∀ l ∈ lead', l.Blank
  blank_stop : stop.Blank
  /-- The line ends. -/
  feeds : 0 < Bytes.lineFeeds stop.bytes
  found : List.Forall₂ (Lexeme.Like ρ) core core'
  quiet : ∀ l ∈ core, l.error = none

namespace Enclosure

variable {ρ : Relocation} (e : Enclosure ρ)

/-- The lexemes of the text. -/
def inner : List Lexeme := e.lead ++ (e.core ++ e.trail)

/-- The lexemes of the other text, which goes on with `more`. -/
def outer (more : List Lexeme) : List Lexeme := e.lead' ++ (e.core' ++ e.stop :: more)

/-- The words behind the text in the other one, which goes on with `more`. -/
def behind (more : List Lexeme) : List Word × List Lexeme :=
  Word.splitAfter ((Word.split e.core').2 ++ [e.stop]) more

theorem quiet_tail : ∀ l ∈ (Word.split e.core).2, l.error = none := by
  intro l hl
  refine e.quiet l ?_
  rw [Word.split_eq e.core]
  exact List.mem_append_right _ hl

theorem split_inner : Word.split (e.core ++ e.trail) =
    ((Word.split e.core).1, (Word.split e.core).2 ++ e.trail) := by
  rw [Word.split, Word.splitAfter_append_list,
    Word.splitAfter_trivia fun l hl => (e.blank_trail l hl).isTrivia, List.append_nil]
  rfl

/-- What comes behind the text. -/
def sequel (more : List Lexeme)
    (h : ∀ x ∈ (Word.stages (Word.split more).1 (Word.split more).2).head?,
      x.1.symbol?.bind Separator.ofByte? = none) : Sequel where
  lead := e.stop :: Word.gapBefore (Word.split more).1 (Word.split more).2
  stages := Word.stages (Word.split more).1 (Word.split more).2
  free := h

variable {e} {more : List Lexeme}
  {hfree : ∀ x ∈ (Word.stages (Word.split more).1 (Word.split more).2).head?,
    x.1.symbol?.bind Separator.ofByte? = none} {c c' : Cursor}

theorem stages_inner (hc : c.Before e.inner) :
    c.stages = Word.stages (Word.split e.core).1 ((Word.split e.core).2 ++ e.trail) := by
  rw [hc.stages, inner, Word.split_trivia_append fun l hl => (e.blank_lead l hl).isTrivia,
    (Word.splitAfter_gap (e.core ++ e.trail) e.lead).1, e.split_inner]

theorem gap_inner (hc : c.Before e.inner) :
    c.gap = e.lead ++ Word.gapBefore (Word.split e.core).1 ((Word.split e.core).2 ++ e.trail) := by
  rw [hc.gap, inner, Word.split_trivia_append fun l hl => (e.blank_lead l hl).isTrivia,
    (Word.splitAfter_gap (e.core ++ e.trail) e.lead).2, e.split_inner]

theorem split_outer : Word.split (e.core' ++ e.stop :: more) =
    ((Word.split e.core').1 ++ (e.behind more).1, (e.behind more).2) := by
  rw [Word.split, Word.splitAfter_append_list, Word.splitAfter, if_pos e.blank_stop.isTrivia]
  rfl

theorem stages_outer (hc : c.Before (e.outer more)) :
    c.stages = Word.stages ((Word.split e.core').1 ++ (e.behind more).1) (e.behind more).2 := by
  rw [hc.stages, outer, Word.split_trivia_append fun l hl => (e.blank_lead' l hl).isTrivia,
    (Word.splitAfter_gap (e.core' ++ e.stop :: more) e.lead').1, split_outer]

theorem gap_outer (hc : c.Before (e.outer more)) : c.gap = e.lead' ++
    Word.gapBefore ((Word.split e.core').1 ++ (e.behind more).1) (e.behind more).2 := by
  rw [hc.gap, outer, Word.split_trivia_append fun l hl => (e.blank_lead' l hl).isTrivia,
    (Word.splitAfter_gap (e.core' ++ e.stop :: more) e.lead').2, split_outer]

theorem between : Between ρ (some (e.sequel more hfree)) [] ((Word.split e.core).2 ++ e.trail)
    (Word.gapBefore (e.behind more).1 (e.behind more).2) := by
  obtain ⟨-, htail⟩ := Word.splitAfter_like e.found .nil
  have hgap := (Word.splitAfter_gap more ((Word.split e.core').2 ++ [e.stop])).2
  refine ⟨fun hk => hk.elim nofun (absurd rfl), fun q hq _ => ?_⟩
  cases hq
  rw [behind, hgap, List.append_assoc]
  exact Gap.seam_of_forall₂ htail e.quiet_tail e.blank_trail e.blank_stop.1 e.feeds

theorem ahead (hc : c.Before e.inner) (hc' : c'.Before (e.outer more)) :
    Ahead ρ (some (e.sequel more hfree)) c.stages c'.stages := by
  obtain ⟨hwords, -⟩ := Word.splitAfter_like e.found .nil
  rw [stages_inner hc, stages_outer hc']
  exact Word.ahead_stages hwords (Word.splitAfter_gap more _).1 between

/-- The gaps before the first word go on alike behind the blanks. -/
theorem gapBefore_like (hc : c.Before e.inner) (hend : c.atEnd = false) :
    List.Forall₂ (Lexeme.Like ρ)
      (Word.gapBefore (Word.split e.core).1 ((Word.split e.core).2 ++ e.trail))
      (Word.gapBefore ((Word.split e.core').1 ++ (e.behind more).1) (e.behind more).2) := by
  obtain ⟨hwords, -⟩ := Word.splitAfter_like e.found .nil
  have hne := Cursor.stages_ne_nil hend
  rw [stages_inner hc] at hne
  rw [Word.split, Word.split]
  rw [Word.split] at hne
  generalize (Word.splitAfter [] e.core).1 = ws at hwords hne
  generalize (Word.splitAfter [] e.core').1 = ws' at hwords
  cases hwords with
  | nil => exact absurd rfl hne
  | cons hw _ => exact hw.gap

theorem leadingText (hc : c.Before e.inner) (hc' : c'.Before (e.outer more))
    (hend : c.atEnd = false) (hs : c.started = false)
    (hs' : c'.started = true → 0 < (Trivia.ofGap true e.lead').newlines) :
    c'.trivia.leadingText = c.trivia.leadingText := by
  rw [Cursor.trivia, Cursor.trivia, hs, gap_inner hc, gap_outer hc', Trivia.ofGap, Trivia.ofGap,
    List.foldl_append, List.foldl_append]
  refine (Trivia.leads_foldl (gapBefore_like hc hend) ?_ fun hstarted => ?_).leadingText
  · rw [Trivia.leading_foldl_blanks (fun l hl => (e.blank_lead l hl).1) rfl,
      Trivia.leading_foldl_blanks (fun l hl => (e.blank_lead' l hl).1) rfl]
    exact Trivia.leads_none
  · rw [hstarted]
    exact hs' hstarted

/-- Before a text with a word, the states of both readings look alike. -/
theorem like {s s' : State} (hc : s.cursor.Before e.inner) (hc' : s'.cursor.Before (e.outer more))
    (hend : s.cursor.atEnd = false) (hs : s.cursor.started = false)
    (hs' : s'.cursor.started = true → 0 < (Trivia.ofGap true e.lead').newlines)
    (hbooked : State.Booked ρ s s') : State.Like ρ (some (e.sequel more hfree)) s s' where
  ahead := ahead hc hc'
  length := nofun
  leading _ := leadingText hc hc' hend hs hs'
  started h := absurd h (by simp [hs])
  prevEnd h := absurd h (by simp [hs])
  claimed h := absurd h (by simp [hs])
  gap h := absurd h (by simp [hs])
  booked _ := hbooked
  overrun h := absurd (.inr hend) h

end Enclosure

/-! ### Entries in another place -/

/-- The separator behind trees, when `pending` stands before them. -/
def Tree.separatorBehind (pending : Option Separator) (ts : List Tree) : Option Separator :=
  (ts.getLast?.map fun t => t.data.facets.followedBy).getD pending

theorem Tree.separatorBehind_cons (pending : Option Separator) (t : Tree) (ts : List Tree) :
    separatorBehind pending (t :: ts) = separatorBehind t.data.facets.followedBy ts := by
  cases ts with
  | nil => rfl
  | cons u us =>
    have hlast : (t :: u :: us).getLast? = (u :: us).getLast? := List.getLast?_cons_cons
    obtain ⟨x, hx⟩ : ∃ x, (u :: us).getLast? = some x :=
      Option.ne_none_iff_exists'.1 (by simp)
    rw [separatorBehind, separatorBehind, hlast, hx]
    rfl

namespace Grammar

open State (Like Inside)

variable {n : Nat} {s s' : State} {ctx : Context}

theorem followedBy_precede (sep : Option Separator) (t : Tree) :
    (precede sep t).data.facets.followedBy = t.data.facets.followedBy := by
  cases t
  rfl

theorem followedBy_follow (sep : Separator) (t : Tree) (s : State) :
    (follow sep t s).value.data.facets.followedBy = some sep := by
  cases t
  unfold follow
  dsimp only
  split <;> rfl

/-- What is an entry of a document is one in a set in brackets. -/
theorem Run.bare_in_context (hctx : ctx ≠ .line) {ts : List Tree} {r : Read SetBody}
    (h : Run n (.bare .top ts) s r) : Run n (.bare ctx ts) s r := by
  cases h with
  | label hl hp => exact .label hl hp
  | labeledSet hl hp ho hn body => exact .labeledSet hl hp ho hn body
  | labeledLine hl hp ho body => exact .labeledLine hl hp ho body
  | unlabeled hl ho body =>
    rw [if_neg (by decide)] at body
    exact .unlabeled hl ho (by rwa [if_neg hctx])
  | untaggable hs ht => exact .untaggable hs ht
  | unexpected hl ho he => exact .unexpected hl ho he

theorem Run.entry_in_context (hctx : ctx ≠ .line) {r : Read SetBody}
    (h : Run n (.entry .top) s r) : Run n (.entry ctx) s r := by
  cases h with
  | entry node =>
    generalize hr : Read.one _ = r at node
    cases node with
    | node tags bare => exact .entry (.node tags (bare.bare_in_context hctx))
  | stray hs hat => exact .stray hs hat

theorem Run.closes?_of_entry {r : Read SetBody} (h : Run n (.entry ctx) s r)
    (hq : r.state.reports = []) : s.cursor.closes? = none := by
  by_contra hne
  obtain ⟨d, hd⟩ := Option.ne_none_iff_exists'.1 hne
  obtain ⟨hs, hat⟩ := State.noEntry_of_closes hd
  cases h with
  | stray _ _ => exact reports_unexpected s hq
  | entry node =>
    -- No tag stands before the bracket, so that the entry begins with it.
    generalize hr : Read.one _ = r at node
    cases node with
    | @node _ _ _ ts t tags bare =>
      generalize hts : Read.many ts = r' at tags
      cases tags with
      | tagsCons hat' _ _ => simp [hat] at hat'
      | tagsEnd _ =>
        obtain ⟨hvalue, hstate⟩ : ts.value = [] ∧ ts.state = s := by
          cases ts
          cases hts
          exact ⟨rfl, rfl⟩
        rw [hvalue, hstate] at bare
        generalize hb : Read.one t = b at bare
        cases bare with
        | label hl _ | labeledSet hl _ _ _ _ | labeledLine hl _ _ _ => simp [hs.1] at hl
        | unlabeled _ ho _ => simp [hs.2.1] at ho
        | untaggable _ hne => exact hne rfl
        | unexpected _ _ he => simp [hs.2.2] at he

theorem Run.eq_nil_of_entriesEnd {pending : Option Separator} {r : Read (List Tree)}
    (h : Run n (.entries ctx pending) s r.many) (he : s.entriesEnd ctx) : r = ⟨[], s⟩ :=
  many_inj ((h.yields _ (Nat.le_refl _)).symm.trans
    ((Run.entriesEnd he).yields _ (Nat.le_refl _)))

/-- What is asked of the entries of a whole document to be read in another context `ctx` of another
text, where reading goes on behind them. -/
def Part.Extends (ρ : Relocation) (q : Sequel) (ctx : Context) (n : Nat) (s : State)
    (r : Read SetBody) : Part → Prop
  | .entries .top pending => r.state.reports = [] → ∀ {s' : State}, Like ρ (some q) s s' →
      ∃ t, Like ρ (some q) r.state t ∧ ∀ more : Read (List Tree),
        Run n (.entries ctx (Tree.separatorBehind pending r.value.children)) t more.many →
          Run n (.entries ctx pending) s'
            (Read.many ⟨ρ.trees r.value.children ++ more.value, more.state⟩)
  | _ => True

/-- An entry that is read without a report is read in the other context, too. -/
theorem Run.entry_extends {ρ : Relocation} {q : Sequel} (hctx : ctx ≠ .line) {e : Read Tree}
    (h : Run n (.entry .top) s e.one) (hs : Like ρ (some q) s s') (he : ¬s.entriesEnd .top)
    (hq : e.state.reports = []) :
    ∃ t, Run n (.entry ctx) s' (Read.one ⟨ρ.tree e.value, t⟩) ∧ ¬s'.entriesEnd ctx ∧
      Like ρ (some q) e.state t := by
  have hend := State.atEnd_of_not_entriesEnd he
  have hcloses := h.closes?_of_entry hq
  obtain ⟨t, hrun, ht⟩ := h.transport hs (.inr hq) hend
  refine ⟨t, Run.entry_in_context hctx hrun, ?_, ht⟩
  rw [hs.entriesEnd_iff (.inr hend), State.entriesEnd, hend, hcloses]
  simp

/-- Behind the entries of a text that is read without a report, those of another one go on. -/
theorem Run.extends {ρ : Relocation} {q : Sequel} (hctx : ctx ≠ .line) {part : Part}
    {r : Read SetBody} (h : Run n part s r) : part.Extends ρ q ctx n s r := by
  induction h with
  | @entriesEnd _ c pending s he =>
    cases c with
    | top => exact fun _ s' hs => ⟨s', hs, fun more hmore => hmore⟩
    | _ => trivial
  | @extraSeparator _ c pending s r he hsep rest ih =>
    cases c with
    | top =>
      intro hq
      exact absurd (rest.grows.reports_eq_nil hq) (reports_unexpected s)
    | _ => trivial
  | @separated _ c pending s e sep r he hnone first hsep rest _ ih =>
    cases c with
    | top =>
      intro hq s' hs
      have hquiet : e.state.reports = [] :=
        (grows_follow ..).reports_eq_nil (rest.grows.reports_eq_nil hq)
      obtain ⟨t, hfirst, hnoend, ht⟩ := first.entry_extends hctx hs he hquiet
      have hbehind : e.state.cursor.atEnd = false := by
        obtain ⟨b, hb, -⟩ := Option.bind_eq_some_iff.1 hsep
        exact Cursor.atEnd_of_symbol hb
      have hmoved := moved_follow ht hbehind sep (precede pending e.value)
      obtain ⟨t', ht', hmore⟩ := ih hq hmoved.state
      refine ⟨t', ht', fun more hrest => ?_⟩
      rw [Read.many_value, Tree.separatorBehind_cons, followedBy_follow] at hrest
      have hrest' := hmore more hrest
      rw [ρ.tree_precede] at hmoved hrest'
      have hread := @Run.separated _ ctx pending _ ⟨ρ.tree e.value, t⟩ sep _ hnoend
        (hs.separator?.trans hnone) hfirst (ht.separator?.trans hsep) hrest'
      rw [hmoved.value] at hread
      exact hread
    | _ => trivial
  | @unseparated _ c pending s e r he hnone first hsep rest _ ih =>
    cases c with
    | top =>
      intro hq s' hs
      obtain ⟨t, hfirst, hnoend, ht⟩ :=
        first.entry_extends hctx hs he (rest.grows.reports_eq_nil hq)
      obtain ⟨t', ht', hmore⟩ := ih hq ht
      refine ⟨t', ht', fun more hrest => ?_⟩
      have hnone' : (precede pending e.value).data.facets.followedBy = none := by
        have hunfollowed := first.unfollowed e.value List.mem_cons_self
        rwa [followedBy_precede]
      rw [Read.many_value, Tree.separatorBehind_cons, hnone'] at hrest
      have hread := @Run.unseparated _ ctx pending _ ⟨ρ.tree e.value, t⟩ _ hnoend
        (hs.separator?.trans hnone) hfirst (ht.separator?.trans hsep) (hmore more hrest)
      rw [← ρ.tree_precede] at hread
      exact hread
    | _ => trivial
  | _ => trivial

end Grammar

end Metadoc
