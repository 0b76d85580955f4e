import Metadoc.Proofs.Document.Adequacy

/-!
# Reading only adds

Whatever is read, it is read by stepping over words, handing out numbers, reporting problems and
claiming comments.  What holds of each of these steps holds of all that is read.

* `State.Steps` says that a relation between states holds along such steps, and `State.Steps.run`
  that it then holds between the states before and behind a part of the grammar;
* `State.Grows s s'` says that `s'` has what `s` has, and perhaps more: numbers that have been
  handed out, stray nodes and reports stay as they are while reading goes on;
* `State.Moves s s'` says that a word is behind as soon as one has been read.
-/

namespace Metadoc

/-! ### Steps -/

/-- Whether a relation holds along whatever reading can do to a state. -/
structure State.Steps (R : State → State → Prop) : Prop where
  /-- Nothing need be done. -/
  refl : ∀ s, R s s
  /-- One step may follow another. -/
  trans : ∀ {s s' s''}, R s s' → R s' s'' → R s s''
  /-- A word may be stepped over. -/
  advance : ∀ s, R s s.advance
  /-- A number may be handed out. -/
  alloc : ∀ s, R s s.alloc.state
  /-- A problem may be reported. -/
  report : ∀ s problem span node, R s (s.report problem span node)
  /-- A comment may be claimed. -/
  claim : ∀ s, R s s.claim.state

namespace State.Steps

open Grammar

variable {R : State → State → Prop} (h : Steps R)
include h

theorem reportFault (s : State) (l : Lexeme) (node : Nat) : R s (s.reportFault l node) := by
  unfold State.reportFault
  split
  · exact h.refl s
  · exact h.report ..

theorem reportLabel (s : State) (l : Lexeme) (node : Nat) : R s (s.reportLabel l node) := by
  unfold State.reportLabel
  dsimp only
  split
  · exact h.reportFault ..
  · exact h.trans (h.reportFault ..) (h.report ..)

theorem behindLabel (s : State) (l : Lexeme) : R s (s.behindLabel l) :=
  h.trans (h.trans (h.alloc s) (h.advance _)) (h.reportLabel ..)

theorem unexpected (s : State) : R s (unexpected s).state := by
  have hbehind : R s s.alloc.state.advance := h.trans (h.alloc s) (h.advance _)
  unfold Grammar.unexpected
  dsimp only
  split <;> exact h.trans (h.trans hbehind (h.report ..)) (h.claim _)

theorem untaggable (ts : List Tree) (s : State) : R s (untaggable ts s).state := by
  unfold Grammar.untaggable
  dsimp only
  refine h.trans (h.trans (h.alloc s) ?_) (h.claim _)
  split
  · exact h.report ..
  · exact h.refl _

theorem reportCramped (id : Nat) (r : Read Tree) : R r.state (reportCramped id r).state := by
  unfold Grammar.reportCramped
  split
  · exact h.report ..
  · exact h.refl _

theorem skip (bracketed : Bool) (n depth : Nat) (s : State) : R s (skip bracketed n depth s) :=
  skip_of_advance h.refl h.trans h.advance bracketed n depth s

theorem follow (sep : Separator) (t : Tree) (s : State) : R s (follow sep t s).state := by
  unfold Grammar.follow
  dsimp only
  split
  · exact h.trans (h.advance s) (h.claim _)
  · exact h.advance s

/-- What holds along the steps of reading holds between the states before and behind what is
read. -/
theorem run {n : Nat} {part : Part} {s : State} {r : Read SetBody} (hr : Run n part s r) :
    R s r.state := by
  induction hr with
  | @namelessTag _ s _ _ =>
    exact h.trans (h.trans (h.trans (h.advance s) (h.alloc _)) (h.report ..)) (h.claim _)
  | @plainTag _ s l _ _ _ =>
    exact h.trans (h.trans (h.advance s) (h.behindLabel _ l)) (h.claim _)
  | @tagWithArguments _ s l _ _ _ _ _ ih =>
    exact h.trans (h.trans (h.trans (h.advance s) (h.behindLabel _ l)) ih) (h.claim _)
  | tagsEnd _ => exact h.refl _
  | tagsCons _ _ _ ihFirst ihRest => exact h.trans ihFirst ihRest
  | bracketedRefused _ => exact h.trans (h.trans (h.advance _) (h.report ..)) (h.skip ..)
  | bracketedClosed _ _ _ ih => exact h.trans (h.trans (h.advance _) ih) (h.advance _)
  | bracketedOpen _ _ _ ih => exact h.trans (h.trans (h.advance _) ih) (h.report ..)
  | lineMissing _ => exact h.report ..
  | lineRefused _ => exact h.trans (h.report ..) (h.skip ..)
  | lineRead _ _ ih => exact ih
  | label _ _ => exact h.trans (h.behindLabel ..) (h.claim _)
  | labeledSet _ _ _ _ _ ih =>
    refine h.trans ?_ (h.reportCramped ..)
    exact h.trans (h.trans (h.trans (h.behindLabel ..) (h.advance _)) ih) (h.claim _)
  | labeledLine _ _ _ _ ih =>
    exact h.trans (h.trans (h.trans (h.behindLabel ..) (h.advance _)) ih) (h.claim _)
  | @unlabeled _ _ _ s _ _ _ _ _ ih =>
    refine h.trans (h.trans (h.alloc s) ?_) (h.claim _)
    refine h.trans ?_ ih
    split
    · exact h.report ..
    · exact h.refl _
  | untaggable _ _ => exact h.untaggable ..
  | unexpected _ _ _ => exact h.unexpected _
  | node _ _ ihTags ihBare => exact h.trans ihTags ihBare
  | entry _ ih => exact ih
  | stray _ _ => exact h.unexpected _
  | entriesEnd _ => exact h.refl _
  | extraSeparator _ _ _ ih => exact h.trans (h.unexpected _) ih
  | separated _ _ _ _ _ ihFirst ihRest => exact h.trans (h.trans ihFirst (h.follow ..)) ihRest
  | unseparated _ _ _ _ _ ihFirst ihRest => exact h.trans ihFirst ihRest
  | lineLast _ _ ih => exact ih
  | lineCons _ _ _ ihFirst ihRest => exact h.trans ihFirst ihRest

end State.Steps

/-! ### Growing -/

namespace State

/-- What has been handed out, put aside and reported in `s` is still there in `s'`. -/
structure Grows (s s' : State) : Prop where
  /-- Reports stay, in their order. -/
  reports : s.reports <+: s'.reports
  /-- Stray nodes stay, in their order. -/
  strays : s.strays <+: s'.strays
  /-- Numbers are handed out in order. -/
  count : s.count ≤ s'.count
  /-- Each new stray node comes with a report. -/
  paired : s'.strays.length + s.reports.length ≤ s.strays.length + s'.reports.length

namespace Grows

theorem refl (s : State) : Grows s s :=
  ⟨List.prefix_rfl, List.prefix_rfl, Nat.le_refl _, Nat.le_refl _⟩

theorem trans {s s' s'' : State} (h : Grows s s') (h' : Grows s' s'') : Grows s s'' :=
  ⟨h.reports.trans h'.reports, h.strays.trans h'.strays, h.count.trans h'.count, by
    have := h.paired
    have := h'.paired
    omega⟩

/-- What touches neither the reports nor the stray nodes may hand out numbers. -/
theorem of_eq {s s' : State} (hr : s'.reports = s.reports) (hs : s'.strays = s.strays)
    (hc : s.count ≤ s'.count) : Grows s s' :=
  ⟨hr ▸ List.prefix_rfl, hs ▸ List.prefix_rfl, hc, by rw [hr, hs]⟩

/-- What never appears among the reports has not appeared before either. -/
theorem forall_reports {s s' : State} (h : Grows s s') {P : Report → Prop}
    (hP : ∀ x ∈ s'.reports, P x) : ∀ x ∈ s.reports, P x :=
  fun x hx => hP x (h.reports.subset hx)

/-- Where nothing is reported in the end, nothing was reported before. -/
theorem reports_eq_nil {s s' : State} (h : Grows s s') (h' : s'.reports = []) : s.reports = [] :=
  List.prefix_nil.1 (h' ▸ h.reports)

end Grows

theorem grows_report (s : State) (problem : Problem) (span : Span) (node : Nat) :
    Grows s (s.report problem span node) :=
  ⟨List.prefix_append _ _, List.prefix_rfl, Nat.le_refl _, by simp [report]⟩

theorem grows_alloc (s : State) : Grows s s.alloc.state := .of_eq rfl rfl (Nat.le_succ _)

theorem grows_reportTrivium (s : State) (l : Lexeme) : Grows s (s.reportTrivium l) := by
  unfold reportTrivium
  split
  · exact .refl s
  · rename_i e he
    simp only [reportFault, he]
    refine ⟨List.prefix_append _ _, List.prefix_append _ _, Nat.le_succ _, ?_⟩
    simp [report, alloc]
    omega

theorem grows_foldl_reportTrivium (ls : List Lexeme) (s : State) :
    Grows s (ls.foldl reportTrivium s) := by
  induction ls generalizing s with
  | nil => exact .refl s
  | cons l ls ih => exact (grows_reportTrivium s l).trans (ih _)

theorem grows_reportGap (s : State) : Grows s s.reportGap := grows_foldl_reportTrivium _ _

theorem grows_advance (s : State) : Grows s s.advance := by
  unfold advance
  split
  · exact .refl s
  · refine Grows.trans ?_ (grows_reportGap _)
    exact .of_eq rfl rfl (Nat.le_refl _)

theorem grows_claim (s : State) : Grows s s.claim.state := by
  unfold claim
  split
  · split <;> exact .of_eq rfl rfl (Nat.le_refl _)
  · exact .refl s

theorem steps_grows : Steps Grows where
  refl := .refl
  trans := .trans
  advance := grows_advance
  alloc := grows_alloc
  report := grows_report
  claim := grows_claim

theorem grows_reportLabel (s : State) (l : Lexeme) (node : Nat) :
    Grows s (s.reportLabel l node) := steps_grows.reportLabel s l node

theorem grows_behindLabel (s : State) (l : Lexeme) : Grows s (s.behindLabel l) :=
  steps_grows.behindLabel s l

/-! ### Moving -/

/-- Whether a word is behind, or none has been stepped over. -/
def Moves (s s' : State) : Prop := s'.cursor = s.cursor ∨ s'.cursor.started = true

theorem started_advance {s : State} (h : s.cursor.atEnd = false) :
    s.advance.cursor.started = true := by
  rw [cursor_advance]
  unfold Cursor.atEnd at h
  unfold Cursor.advance
  cases hc : s.cursor.ahead with
  | nil => simp [hc] at h
  | cons w ws => rfl

theorem moves_advance (s : State) : Moves s s.advance := by
  cases h : s.cursor.atEnd with
  | true => exact .inl (by rw [advance, if_pos h])
  | false => exact .inr (started_advance h)

theorem Moves.trans {s s' s'' : State} (h : Moves s s') (h' : Moves s' s'') : Moves s s'' := by
  rcases h' with h' | h'
  · rwa [Moves, h']
  · exact .inr h'

theorem steps_moves : Steps Moves where
  refl _ := .inl rfl
  trans := .trans
  advance := moves_advance
  alloc _ := .inl rfl
  report _ _ _ _ := .inl rfl
  claim s := .inl (cursor_claim s)

/-- Where a word is behind, one stays behind. -/
theorem Moves.started {s s' : State} (h : Moves s s') (hs : s.cursor.started = true) :
    s'.cursor.started = true := by
  rcases h with h | h
  · rw [h, hs]
  · exact h

/-- Where a word has been read, it is behind. -/
theorem Moves.started_of_left_lt {s s' : State} (h : Moves s s') (hlt : s'.left < s.left) :
    s'.cursor.started = true := by
  rcases h with h | h
  · rw [left, left, h] at hlt
    exact absurd hlt (Nat.lt_irrefl _)
  · exact h

theorem steps_reaches : Steps Reaches where
  refl := .refl
  trans := .trans
  advance := reaches_advance
  alloc _ := .of_cursor_eq rfl
  report _ _ _ _ := .of_cursor_eq rfl
  claim s := .of_cursor_eq (cursor_claim s)

end State

namespace Grammar

open State (Grows)

theorem grows_reportCramped (id : Nat) (r : Read Tree) :
    Grows r.state (reportCramped id r).state := State.steps_grows.reportCramped id r

theorem grows_skip (bracketed : Bool) (n depth : Nat) (s : State) :
    Grows s (skip bracketed n depth s) := State.steps_grows.skip bracketed n depth s

theorem grows_follow (sep : Separator) (t : Tree) (s : State) : Grows s (follow sep t s).state :=
  State.steps_grows.follow sep t s

/-- Reading only adds. -/
theorem Run.grows {n : Nat} {part : Part} {s : State} {r : Read SetBody} (h : Run n part s r) :
    Grows s r.state := State.steps_grows.run h

theorem Run.reaches {n : Nat} {part : Part} {s : State} {r : Read SetBody} (h : Run n part s r) :
    State.Reaches s r.state := State.steps_reaches.run h

theorem Run.moves {n : Nat} {part : Part} {s : State} {r : Read SetBody} (h : Run n part s r) :
    State.Moves s r.state := State.steps_moves.run h

end Grammar

end Metadoc
