import Metadoc.Proofs.Document.Embedding

/-!
# Reading does not look back

What is read next depends on the words ahead, and hardly on what is behind.

* `State.above` puts stray nodes and reports before those of a state, and `Grammar.Run.above` says
  that what is read behind them is the same;
* `State.fresh` forgets what stands before the word ahead, and `Grammar.entry_fresh` says that an
  entry loses nothing but the comment above it;
* `Grammar.entry_renumbered` : an entry that is read from two states with the same words ahead is
  the same under other numbers.
-/

namespace Metadoc

/-! ### What has been found before -/

namespace State

/-- The state with the stray nodes and the reports of `base` before its own. -/
def above (s base : State) : State :=
  { s with strays := base.strays ++ s.strays, reports := base.reports ++ s.reports }

/-- The state with nothing found. -/
def blank (s : State) : State := { s with strays := [], reports := [] }

theorem blank_above (s : State) : s.blank.above s = s := by
  simp [blank, above]

end State

/-- What is read, with the stray nodes and the reports of `base` before its own. -/
def Read.above {α : Type} (r : Read α) (base : State) : Read α := ⟨r.value, r.state.above base⟩

namespace State

variable (s base : State)

@[simp] theorem cursor_above : (s.above base).cursor = s.cursor := rfl

@[simp] theorem count_above : (s.above base).count = s.count := rfl

@[simp] theorem left_above : (s.above base).left = s.left := rfl

@[simp] theorem alloc_above : (s.above base).alloc = s.alloc.above base := rfl

@[simp] theorem report_above (problem : Problem) (span : Span) (node : Nat) :
    (s.above base).report problem span node = (s.report problem span node).above base := by
  simp [above, report]

@[simp] theorem reportFault_above (l : Lexeme) (node : Nat) :
    (s.above base).reportFault l node = (s.reportFault l node).above base := by
  unfold reportFault
  split
  · rfl
  · exact report_above ..

theorem reportTrivium_above (l : Lexeme) :
    (s.above base).reportTrivium l = (s.reportTrivium l).above base := by
  unfold reportTrivium
  split
  · rfl
  · rw [← reportFault_above]
    simp [above, alloc]

theorem foldl_reportTrivium_above (ls : List Lexeme) :
    ls.foldl reportTrivium (s.above base) = (ls.foldl reportTrivium s).above base := by
  induction ls generalizing s with
  | nil => rfl
  | cons l ls ih => rw [List.foldl_cons, reportTrivium_above, ih, List.foldl_cons]

@[simp] theorem advance_above : (s.above base).advance = s.advance.above base := by
  unfold advance
  rw [cursor_above]
  split
  · rfl
  · exact foldl_reportTrivium_above { s with cursor := s.cursor.advance, claimed := false } base _

@[simp] theorem claim_above : (s.above base).claim = s.claim.above base := by
  unfold claim
  rw [cursor_above]
  split
  · show (if s.claimed = true then _ else _) = _
    split <;> rfl
  · rfl

@[simp] theorem reportLabel_above (l : Lexeme) (node : Nat) :
    (s.above base).reportLabel l node = (s.reportLabel l node).above base := by
  unfold reportLabel
  rw [reportFault_above]
  split
  · rfl
  · exact report_above ..

@[simp] theorem behindLabel_above (l : Lexeme) :
    (s.above base).behindLabel l = (s.behindLabel l).above base := by
  simp only [behindLabel, takeLabel, alloc_above, Read.above, advance_above, reportLabel_above,
    count_above]

end State

namespace Grammar

variable (s base : State)

@[simp] theorem close_above (id start : Nat) (kind : NodeKind) (label : Label) (facets : Facets)
    (children : List Tree) :
    close id start kind label facets children (s.above base) =
      (close id start kind label facets children s).above base := by
  simp only [close, State.claim_above]
  rfl

@[simp] theorem unexpected_above : unexpected (s.above base) = (unexpected s).above base := by
  unfold unexpected
  rw [State.cursor_above]
  split <;> simp [Read.above]

@[simp] theorem untaggable_above (ts : List Tree) :
    untaggable ts (s.above base) = (untaggable ts s).above base := by
  unfold untaggable
  split <;> simp [Read.above]

theorem skip_above (bracketed : Bool) (n depth : Nat) :
    skip bracketed n depth (s.above base) = (skip bracketed n depth s).above base := by
  induction n generalizing depth s with
  | zero => rfl
  | succ n ih =>
    unfold skip
    dsimp only
    rw [State.cursor_above, State.advance_above, State.cursor_above, ih]
    generalize (if s.cursor.opens?.isSome = true then depth + 1
      else if s.cursor.closes?.isSome = true then depth - 1 else depth) = next
    split
    · rfl
    · split
      · rfl
      · split <;> rfl

theorem labeledNode_above (id start : Nat) (label : Label) (r : Read SetBody) :
    labeledNode id start label (r.above base) = (labeledNode id start label r).above base :=
  close_above ..

theorem reportCramped_above (id : Nat) (r : Read Tree) :
    reportCramped id (r.above base) = (reportCramped id r).above base := by
  have hcursor : (r.above base).state.cursor = r.state.cursor := rfl
  unfold reportCramped
  rw [hcursor]
  split
  · exact congrArg (Read.mk r.value) (State.report_above ..)
  · rfl

theorem follow_above (sep : Separator) (t : Tree) :
    follow sep t (s.above base) = (follow sep t s).above base := by
  unfold follow
  dsimp only
  rw [State.advance_above, State.claim_above]
  split <;> rfl

variable {s}

/-- What is read does not depend on what has been found before. -/
theorem Run.above {n : Nat} {part : Part} {r : Read SetBody} (h : Run n part s r) :
    Run n part (s.above base) (r.above base) := by
  -- Each rule is applied to the states with `base` above them, and what it says of the state behind
  -- is put in order by the lemma for the step that led there.
  induction h with
  | @namelessTag n s hat hl =>
    have hrun := @Run.namelessTag n (s.above base) hat (by rwa [State.advance_above])
    rwa [State.advance_above, State.alloc_above, Read.above, State.report_above, close_above]
      at hrun
  | @plainTag n s l hat hl hargs =>
    have hrun := @Run.plainTag n (s.above base) l hat (by rwa [State.advance_above])
      (by rwa [State.advance_above, State.behindLabel_above])
    rwa [State.advance_above, State.behindLabel_above, close_above] at hrun
  | @tagWithArguments n s l r hat hl hargs _ ih =>
    have hrun := @Run.tagWithArguments n (s.above base) l (r.above base) hat
      (by rwa [State.advance_above]) (by rwa [State.advance_above, State.behindLabel_above])
      (by rwa [State.advance_above, State.behindLabel_above])
    rwa [State.advance_above, Read.above, close_above] at hrun
  | tagsEnd hat => exact .tagsEnd hat
  | @tagsCons _ _ t ts hat _ _ ihFirst ihRest =>
    exact @Run.tagsCons _ _ (t.above base) (ts.above base) hat ihFirst ihRest
  | @bracketedRefused id opened s ho =>
    have hrun := @Run.bracketedRefused id opened (s.above base) ho
    rwa [State.advance_above, State.report_above, skip_above] at hrun
  | @bracketedClosed n id opened s r closed ho _ hc ih =>
    have hrun := @Run.bracketedClosed n id opened (s.above base) (r.above base) closed ho
      (by rwa [State.advance_above]) hc
    rwa [Read.above, State.advance_above] at hrun
  | @bracketedOpen n id opened s r ho _ hc ih =>
    have hrun := @Run.bracketedOpen n id opened (s.above base) (r.above base) ho
      (by rwa [State.advance_above]) hc
    rwa [Read.above, State.report_above] at hrun
  | @lineMissing n id label s hm =>
    have hrun := @Run.lineMissing n id label (s.above base) hm
    rwa [State.report_above] at hrun
  | @lineRefused id label s hm =>
    have hrun := @Run.lineRefused id label (s.above base) hm
    rwa [State.report_above, skip_above] at hrun
  | @lineRead _ _ _ _ r hm _ ih => exact @Run.lineRead _ _ _ _ (r.above base) hm ih
  | @label n ctx ts s l hl hp =>
    have hrun := @Run.label n ctx ts (s.above base) l hl (by rwa [State.behindLabel_above])
    rwa [State.behindLabel_above, show (⟨{}, (s.behindLabel l).above base⟩ : Read SetBody) =
      Read.above ⟨{}, s.behindLabel l⟩ base from rfl, labeledNode_above] at hrun
  | @labeledSet n ctx ts s l opened r hl hp ho hn _ ih =>
    have hrun := @Run.labeledSet n ctx ts (s.above base) l opened (r.above base) hl
      (by rwa [State.behindLabel_above]) (by rwa [State.behindLabel_above, State.advance_above])
      (by rwa [State.behindLabel_above, State.advance_above])
      (by rwa [State.behindLabel_above, State.advance_above])
    rwa [labeledNode_above, reportCramped_above] at hrun
  | @labeledLine n ctx ts s l r hl hp ho _ ih =>
    have hrun := @Run.labeledLine n ctx ts (s.above base) l (r.above base) hl
      (by rwa [State.behindLabel_above]) (by rwa [State.behindLabel_above, State.advance_above])
      (by rwa [State.behindLabel_above, State.advance_above])
    rwa [labeledNode_above] at hrun
  | @unlabeled n ctx ts s opened r hl ho _ ih =>
    have hbody : Run n (.bracketed s.count opened)
        (if ctx = .line then
          (s.above base).alloc.state.report (.unlabeledSet (!ts.isEmpty)) s.cursor.span s.count
        else (s.above base).alloc.state) (r.above base) := by
      split at ih
      · rwa [if_pos ‹_›, State.alloc_above, Read.above, State.report_above]
      · rwa [if_neg ‹_›]
    have hrun := @Run.unlabeled n ctx ts (s.above base) opened (r.above base) hl ho hbody
    rwa [Read.above, close_above] at hrun
  | @untaggable n ctx ts s hs ht =>
    have hrun := @Run.untaggable n ctx ts (s.above base) hs ht
    rwa [untaggable_above] at hrun
  | @unexpected n ctx ts s hl ho he =>
    have hrun := @Run.unexpected n ctx ts (s.above base) hl ho he
    rwa [unexpected_above] at hrun
  | @node _ _ _ ts t _ _ ihTags ihBare =>
    exact @Run.node _ _ _ (ts.above base) (t.above base) ihTags ihBare
  | @entry _ _ _ r _ ih => exact @Run.entry _ _ _ (r.above base) ih
  | @stray n ctx s hs hat =>
    have hrun := @Run.stray n ctx (s.above base) hs hat
    rwa [unexpected_above] at hrun
  | entriesEnd he => exact .entriesEnd he
  | @extraSeparator n ctx pending s r he hs _ ih =>
    have hrun := @Run.extraSeparator n ctx pending (s.above base) (r.above base) he hs
      (by rwa [unexpected_above])
    rwa [unexpected_above] at hrun
  | @separated n ctx pending s e sep r he hs _ hsep _ ihFirst ihRest =>
    have hrun := @Run.separated n ctx pending (s.above base) (e.above base) sep (r.above base) he hs
      ihFirst hsep (by rwa [Read.above, follow_above])
    rwa [Read.above, follow_above] at hrun
  | @unseparated _ _ _ _ e r he hs _ hsep _ ihFirst ihRest =>
    exact @Run.unseparated _ _ _ _ (e.above base) (r.above base) he hs ihFirst hsep ihRest
  | @lineLast _ _ r _ he ih => exact @Run.lineLast _ _ (r.above base) ih he
  | @lineCons _ _ r rs _ he _ ihFirst ihRest =>
    exact @Run.lineCons _ _ (r.above base) (rs.above base) ihFirst he ihRest

/-- An entry is read as it is where nothing has been found. -/
theorem entry_blank (n : Nat) (ctx : Context) (s : State) :
    entry (levels n) ctx s = (entry (levels n) ctx s.blank).above s := by
  have hrun := (run_entry (soundBelow n) ctx s.blank).above s
  rw [State.blank_above] at hrun
  exact one_inj hrun.yields

end Grammar

/-! ### Nothing behind -/

/-- The cursor as it is when reading begins at the word ahead: nothing stands before that. -/
def Cursor.fresh (c : Cursor) : Cursor :=
  match c.ahead with
  | [] => { c with tail := [], prevEnd := c.pos, started := false }
  | w :: ws => { c with ahead := ⟨[], w.lexeme⟩ :: ws, prevEnd := c.pos, started := false }

namespace Cursor

variable (c : Cursor)

@[simp] theorem lexeme?_fresh : c.fresh.lexeme? = c.lexeme? := by
  unfold fresh lexeme? word?
  cases c.ahead <;> rfl

@[simp] theorem atEnd_fresh : c.fresh.atEnd = c.atEnd := by
  unfold fresh atEnd
  cases c.ahead <;> rfl

@[simp] theorem span_fresh : c.fresh.span = c.span := by
  unfold fresh span
  cases c.ahead <;> rfl

@[simp] theorem pos_fresh : c.fresh.pos = c.pos := congrArg Span.start c.span_fresh

@[simp] theorem symbol?_fresh : c.fresh.symbol? = c.symbol? := by
  rw [symbol?, lexeme?_fresh, symbol?]

@[simp] theorem label?_fresh : c.fresh.label? = c.label? := by
  rw [label?, lexeme?_fresh, label?]

@[simp] theorem opens?_fresh : c.fresh.opens? = c.opens? := by
  rw [opens?, symbol?_fresh, opens?]

@[simp] theorem isAt_fresh (b : UInt8) : c.fresh.isAt b = c.isAt b := by
  rw [isAt, symbol?_fresh, isAt]

@[simp] theorem atLineEnd_fresh : c.fresh.atLineEnd = c.atLineEnd := by
  simp [atLineEnd, closes?, separator?]

/-- No comment stands above the word ahead. -/
@[simp] theorem leadingText_fresh : c.fresh.trivia.leadingText = "" := by
  unfold fresh trivia gap
  cases c.ahead <;> rfl

/-- The words ahead are the same. -/
@[simp] theorem stages_fresh : c.fresh.stages = c.stages := by
  unfold fresh stages
  cases c.ahead <;> rfl

@[simp] theorem length_fresh : c.fresh.length = c.length := by
  unfold fresh
  cases c.ahead <;> rfl

@[simp] theorem length_ahead_fresh : c.fresh.ahead.length = c.ahead.length := by
  unfold fresh
  cases c.ahead <;> rfl

variable {c}

theorem advance_fresh (h : c.atEnd = false) : c.fresh.advance = c.advance := by
  unfold atEnd at h
  unfold fresh advance
  cases hc : c.ahead with
  | nil => simp [hc] at h
  | cons w ws => rfl

end Cursor

/-- The state as it is when reading begins at the word ahead. -/
def State.fresh (s : State) : State := { s with cursor := s.cursor.fresh, claimed := false }

namespace State

variable (s : State)

@[simp] theorem cursor_fresh : s.fresh.cursor = s.cursor.fresh := rfl

@[simp] theorem count_fresh : s.fresh.count = s.count := rfl

@[simp] theorem left_fresh : s.fresh.left = s.left := s.cursor.length_ahead_fresh

@[simp] theorem alloc_fresh : s.fresh.alloc = ⟨s.count, s.alloc.state.fresh⟩ := rfl

@[simp] theorem report_fresh (problem : Problem) (span : Span) (node : Nat) :
    s.fresh.report problem span node = (s.report problem span node).fresh := rfl

variable {s}

theorem advance_fresh (h : s.cursor.atEnd = false) : s.fresh.advance = s.advance := by
  have hend : s.fresh.cursor.atEnd = false := s.cursor.atEnd_fresh.trans h
  rw [advance, if_neg (Bool.eq_false_iff.1 hend), advance, if_neg (Bool.eq_false_iff.1 h)]
  have hcursor : s.fresh.cursor.advance = s.cursor.advance := Cursor.advance_fresh h
  rw [hcursor]
  rfl

end State

/-- A tree without the comment above it. -/
def Tree.dropPre (t : Tree) : Tree := t.withData { t.data with pre := "" }

namespace Grammar

variable (inner : Option Levels) {s : State} (h : s.cursor.atEnd = false)

@[simp] theorem dropPre_dress (pre : String) (ts : List Tree) (t : Tree) :
    (dress pre ts t).dropPre = dress "" ts t := by
  cases t
  rfl

theorem dropPre_unexpected (s : State) : (unexpected s).value.dropPre = (unexpected s).value := by
  unfold unexpected
  dsimp only
  split <;> rfl

include h

theorem unexpected_fresh : unexpected s.fresh = unexpected s := by
  have hadvance : s.alloc.state.fresh.advance = s.alloc.state.advance := State.advance_fresh h
  unfold unexpected
  simp only [State.cursor_fresh, Cursor.lexeme?_fresh, Cursor.span_fresh, Cursor.pos_fresh,
    State.alloc_fresh, hadvance]
  rfl

theorem bracketedSet_fresh (id : Nat) (opened : Delimiter) :
    bracketedSet inner id opened s.fresh = bracketedSet inner id opened s := by
  simp only [bracketedSet, State.advance_fresh h, State.cursor_fresh, Cursor.span_fresh]

theorem tag_fresh : tag inner s.fresh = tag inner s := by
  simp only [tag, State.advance_fresh h, State.cursor_fresh, Cursor.span_fresh]

/-- At signs are read in the same way, whatever stands before them. -/
theorem tags_fresh (hat : s.cursor.isAt tagMark = true) : tags inner s.fresh = tags inner s := by
  have hat' : s.fresh.cursor.isAt tagMark = true := (s.cursor.isAt_fresh tagMark).trans hat
  obtain ⟨k, hk⟩ := exists_left_eq_succ h (Nat.le_refl _)
  unfold tags
  rw [State.left_fresh, hk]
  simp only [many, hat, hat', if_true, tag_fresh inner h]

theorem labeled_fresh (l : Lexeme) : labeled inner l s.fresh = labeled inner l s := by
  have hadvance : s.alloc.state.fresh.advance = s.alloc.state.advance := State.advance_fresh h
  simp only [labeled, State.takeLabel, State.alloc_fresh, hadvance]
  rfl

theorem unlabeled_fresh (ctx : Context) (tagged : Bool) (opened : Delimiter) :
    unlabeled inner ctx tagged opened s.fresh = unlabeled inner ctx tagged opened s := by
  unfold unlabeled
  simp only [State.cursor_fresh, Cursor.span_fresh, Cursor.pos_fresh, State.alloc_fresh,
    State.report_fresh]
  split
  · rw [bracketedSet_fresh inner (s := s.alloc.state.report _ _ _) h]
    rfl
  · rw [bracketedSet_fresh inner (s := s.alloc.state) h]
    rfl

theorem bareNode_fresh (ctx : Context) :
    bareNode inner ctx [] s.fresh = bareNode inner ctx [] s := by
  simp only [bareNode, State.cursor_fresh, Cursor.label?_fresh, Cursor.opens?_fresh,
    Cursor.atLineEnd_fresh, labeled_fresh inner h, unlabeled_fresh inner h, unexpected_fresh h]
  rfl

/-- Of what stands before an entry, only the comment above it is read. -/
theorem node_fresh (ctx : Context) :
    node inner ctx s.fresh = (node inner ctx s).map fun r => ⟨r.value.dropPre, r.state⟩ := by
  have hpre : s.fresh.cursor.trivia.leadingText = "" := s.cursor.leadingText_fresh
  -- The first word is an at sign or belongs to the bare node: either way it is stepped over first.
  obtain ⟨htags, hbare⟩ : (tags inner s.fresh).value = (tags inner s).value ∧
      bareNode inner ctx (tags inner s.fresh).value (tags inner s.fresh).state =
        bareNode inner ctx (tags inner s).value (tags inner s).state := by
    cases hat : s.cursor.isAt tagMark with
    | true => rw [tags_fresh inner h hat]; exact ⟨rfl, rfl⟩
    | false =>
      rw [tags_of_not_isAt inner hat,
        tags_of_not_isAt inner ((s.cursor.isAt_fresh tagMark).trans hat)]
      exact ⟨rfl, bareNode_fresh inner h ctx⟩
  simp only [node, hpre, Option.map_map, Function.comp_def, dropPre_dress]
  rw [hbare, htags]

theorem entry_fresh (ctx : Context) :
    entry inner ctx s.fresh =
      ⟨(entry inner ctx s).value.dropPre, (entry inner ctx s).state⟩ := by
  unfold entry
  rw [node_fresh inner h]
  cases node inner ctx s with
  | none =>
    simp only [Option.map_none, Option.getD_none, unexpected_fresh h, dropPre_unexpected]
  | some r => rfl

end Grammar

/-! ### Other numbers -/

section Renumbered

variable (number : Nat → Nat)

theorem Gap.like_renumbered (gap : List Lexeme) : Gap.Like (.shift 0 number) gap gap where
  newlines := rfl
  trailing := rfl
  leading := rfl
  isEmpty := rfl
  faults := (List.map_id' _).symm
  rigid l _ _ := Relocation.rigid_shift 0 number l

theorem Between.renumbered (ahead : List (Lexeme × List Lexeme)) (gap : List Lexeme) :
    Between (.shift 0 number) none ahead gap gap :=
  .of_like (Gap.like_renumbered number gap)

theorem Ahead.renumbered (ls : List (Lexeme × List Lexeme)) :
    Ahead (.shift 0 number) none ls ls := by
  induction ls with
  | nil => exact .nil
  | cons x ls ih =>
    exact .cons (Relocation.rigid_shift 0 number x.1) (.renumbered number ls x.2) ih

variable {number} {s s' : State}

/-- Before the first word, only the numbers to come may tell two states apart in which nothing has
been found. -/
theorem State.like_renumbered (hstarted : s.cursor.started = false)
    (hstages : s'.cursor.stages = s.cursor.stages) (hlength : s'.cursor.length = s.cursor.length)
    (hleading : s'.cursor.trivia.leadingText = s.cursor.trivia.leadingText)
    (hbooked : Booked (.shift 0 number) s s') : Like (.shift 0 number) none s s' := by
  refine ⟨hstages ▸ Ahead.renumbered number _, fun _ => hlength, fun _ => hleading, ?_, ?_, ?_, ?_,
    fun _ => hbooked, fun h => absurd (.inl rfl) h⟩
  all_goals
    intro h
    rw [hstarted] at h
    cases h

/-- An entry is read alike wherever the same words are ahead, under other numbers. -/
theorem Grammar.entry_renumbered (n : Nat) (ctx : Context) (hstarted : s.cursor.started = false)
    (hstages : s'.cursor.stages = s.cursor.stages) (hlength : s'.cursor.length = s.cursor.length)
    (hleading : s'.cursor.trivia.leadingText = s.cursor.trivia.leadingText)
    (hcount : ∀ j, number (s.count + j) = s'.count + j) (hend : s.cursor.atEnd = false) :
    let ρ := Relocation.shift 0 number
    let r := entry (levels n) ctx s
    let r' := entry (levels n) ctx s'
    r'.value = ρ.tree r.value ∧ r'.state.cursor.pos = r.state.cursor.pos ∧
      ∃ added, r.state.reports = s.reports ++ added ∧
        r'.state.reports = s'.reports ++ added.map ρ.report := by
  intro ρ r r'
  -- Reports made before may differ, so both are read where nothing has been found.
  have hlike : State.Like ρ none s.blank s'.blank :=
    State.like_renumbered hstarted hstages hlength hleading ⟨hcount, rfl, rfl⟩
  obtain ⟨t, hrun, ht⟩ := (run_entry (soundBelow n) ctx s.blank).transport hlike (.inl rfl) hend
  have hblank : entry (levels n) ctx s'.blank = ⟨ρ.tree (entry (levels n) ctx s.blank).value, t⟩ :=
    one_inj (Run.yields hrun)
  have hr : r = (entry (levels n) ctx s.blank).above s := entry_blank n ctx s
  have hr' : r' = Read.above ⟨ρ.tree (entry (levels n) ctx s.blank).value, t⟩ s' :=
    (entry_blank n ctx s').trans (by rw [hblank])
  rw [hr, hr']
  exact ⟨rfl, ht.pos (.inl rfl), _, rfl, congrArg (s'.reports ++ ·) (ht.booked (.inl rfl)).reports⟩

end Renumbered

end Metadoc
