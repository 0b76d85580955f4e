import Metadoc.Document.Grammar

/-!
# Reading goes forward

Whatever is read, the words ahead afterwards are the last of those that were ahead before.

* `State.Reaches s s'` says that `s'` is reached from `s` by stepping over words;
* `Grammar.entry_reaches` says that of an entry, for any number of levels of sets.
-/

namespace Metadoc

namespace State

/-- The words ahead of `s'` are the last of those ahead of `s`, in a document of the same length. -/
structure Reaches (s s' : State) : Prop where
  /-- Only words at the front are gone. -/
  suffix : s'.cursor.ahead <:+ s.cursor.ahead
  /-- The document has kept its length. -/
  length : s'.cursor.length = s.cursor.length

theorem Reaches.refl (s : State) : Reaches s s := ⟨List.suffix_rfl, rfl⟩

theorem Reaches.trans {s s' s'' : State} (h : Reaches s s') (h' : Reaches s' s'') :
    Reaches s s'' := ⟨h'.suffix.trans h.suffix, h'.length.trans h.length⟩

theorem Reaches.of_cursor_eq {s s' : State} (h : s'.cursor = s.cursor) : Reaches s s' :=
  ⟨h ▸ List.suffix_rfl, h ▸ rfl⟩

/-! ### Steps of the state -/

@[simp] theorem cursor_report (s : State) (problem : Problem) (span : Span) (node : Nat) :
    (s.report problem span node).cursor = s.cursor := rfl

@[simp] theorem cursor_alloc (s : State) : s.alloc.state.cursor = s.cursor := rfl

@[simp] theorem cursor_reportFault (s : State) (l : Lexeme) (node : Nat) :
    (s.reportFault l node).cursor = s.cursor := by
  unfold reportFault; split <;> rfl

@[simp] theorem cursor_reportTrivium (s : State) (l : Lexeme) :
    (s.reportTrivium l).cursor = s.cursor := by
  unfold reportTrivium; split <;> simp

theorem cursor_foldl_reportTrivium (ls : List Lexeme) (s : State) :
    (ls.foldl reportTrivium s).cursor = s.cursor := by
  induction ls generalizing s with
  | nil => rfl
  | cons l ls ih => rw [List.foldl_cons, ih, cursor_reportTrivium]

@[simp] theorem cursor_reportGap (s : State) : s.reportGap.cursor = s.cursor :=
  cursor_foldl_reportTrivium _ _

@[simp] theorem cursor_ofLexemes (length pos : Nat) (lexemes : List Lexeme) :
    (ofLexemes length pos lexemes).cursor = Cursor.ofLexemes length pos lexemes :=
  cursor_reportGap _

@[simp] theorem cursor_claim (s : State) : s.claim.state.cursor = s.cursor := by
  unfold claim; split
  · split <;> rfl
  · rfl

@[simp] theorem cursor_reportLabel (s : State) (l : Lexeme) (node : Nat) :
    (s.reportLabel l node).cursor = s.cursor := by
  unfold reportLabel; split <;> simp

theorem reaches_advance (s : State) : Reaches s s.advance := by
  unfold advance
  split
  · exact .refl s
  · refine ⟨?_, ?_⟩ <;> rw [cursor_reportGap] <;> simp only [Cursor.advance] <;> split
    · exact List.suffix_rfl
    · rename_i h
      exact h ▸ List.suffix_cons _ _
    · rfl
    · rfl

theorem reaches_takeLabel (s : State) (l : Lexeme) (node : Nat) :
    Reaches s (s.takeLabel l node).state :=
  (reaches_advance s).trans (.of_cursor_eq (cursor_reportLabel _ _ _))

end State

namespace Grammar

open State (Reaches)

/-! ### Productions -/

@[simp] theorem cursor_close (id start : Nat) (kind : NodeKind) (label : Label) (facets : Facets)
    (children : List Tree) (s : State) :
    (close id start kind label facets children s).state.cursor = s.cursor := State.cursor_claim s

theorem many_reaches {α : Type} {step : State → Option (Read α)}
    (h : ∀ s r, step s = some r → Reaches s r.state) (n : Nat) (s : State) :
    Reaches s (many step n s).state := by
  induction n generalizing s with
  | zero => exact .refl s
  | succ n ih =>
    unfold many
    split
    · exact .refl s
    · rename_i r hr
      exact (h s r hr).trans (ih r.state)

theorem unexpected_reaches (s : State) : Reaches s (unexpected s).state := by
  have h : Reaches s s.alloc.state.advance :=
    (Reaches.of_cursor_eq (State.cursor_alloc s)).trans (State.reaches_advance _)
  unfold unexpected
  dsimp only
  split <;> exact h.trans (.of_cursor_eq (by simp))

/-- Skipping is nothing but stepping over words. -/
theorem skip_of_advance {R : State → State → Prop} (refl : ∀ s, R s s)
    (trans : ∀ {s s' s''}, R s s' → R s' s'' → R s s'') (advance : ∀ s, R s s.advance)
    (bracketed : Bool) (n depth : Nat) (s : State) : R s (skip bracketed n depth s) := by
  induction n generalizing depth s with
  | zero => exact refl s
  | succ n ih =>
    unfold skip
    split
    · exact refl s
    · split
      · exact refl s
      · dsimp only
        generalize (if s.cursor.opens?.isSome = true then depth + 1
          else if s.cursor.closes?.isSome = true then depth - 1 else depth) = next
        split
        · exact advance s
        · exact trans (advance s) (ih _ _)

theorem skip_reaches (bracketed : Bool) (n depth : Nat) (s : State) :
    Reaches s (skip bracketed n depth s) :=
  skip_of_advance .refl .trans State.reaches_advance bracketed n depth s

/-- Reading the contents of sets goes forward. -/
def Forward (inner : Option Levels) : Prop :=
  ∀ levels ∈ inner,
    (∀ s, Reaches s (levels.bracketed s).state) ∧ ∀ s, Reaches s (levels.line s).state

variable {inner : Option Levels}

theorem bracketedSet_reaches (h : Forward inner) (id : Nat) (opened : Delimiter) (s : State) :
    Reaches s (bracketedSet inner id opened s).state := by
  unfold bracketedSet
  dsimp only
  split
  · exact ((State.reaches_advance s).trans (.of_cursor_eq (State.cursor_report ..))).trans
      (skip_reaches ..)
  · rename_i levels
    have hr := (State.reaches_advance s).trans ((h levels rfl).1 s.advance)
    split
    · exact hr.trans (State.reaches_advance _)
    · exact hr.trans (.of_cursor_eq (State.cursor_report ..))

theorem lineSet_reaches (h : Forward inner) (id : Nat) (label : Span) (s : State) :
    Reaches s (lineSet inner id label s).state := by
  unfold lineSet
  split
  · exact .of_cursor_eq (State.cursor_report ..)
  · split
    · exact (Reaches.of_cursor_eq (State.cursor_report ..)).trans (skip_reaches ..)
    · rename_i levels
      exact (h levels rfl).2 s

theorem tag_reaches (h : Forward inner) (s : State) : Reaches s (tag inner s).state := by
  have ha : Reaches s s.advance.alloc.state :=
    (State.reaches_advance s).trans (.of_cursor_eq (State.cursor_alloc _))
  unfold tag
  dsimp only
  split
  · exact ha.trans (.of_cursor_eq (by simp))
  · rename_i l _
    have hl := ha.trans (State.reaches_takeLabel _ l s.advance.alloc.value)
    refine Reaches.trans ?_ (.of_cursor_eq (cursor_close ..))
    split
    · exact hl.trans (bracketedSet_reaches h ..)
    · exact hl

theorem tags_reaches (h : Forward inner) (s : State) : Reaches s (tags inner s).state := by
  refine many_reaches (fun s r hr => ?_) _ s
  split at hr
  · cases hr; exact tag_reaches h s
  · cases hr

theorem labeledNode_reaches {s : State} (id start : Nat) (label : Label) {set : Read SetBody}
    (h : Reaches s set.state) : Reaches s (labeledNode id start label set).state :=
  h.trans (.of_cursor_eq (cursor_close ..))

theorem labeled_reaches (h : Forward inner) (l : Lexeme) (s : State) :
    Reaches s (labeled inner l s).state := by
  have hl : Reaches s (s.alloc.state.takeLabel l s.alloc.value).state :=
    (Reaches.of_cursor_eq (State.cursor_alloc s)).trans (State.reaches_takeLabel ..)
  have ha := hl.trans (State.reaches_advance _)
  unfold labeled
  dsimp only
  split
  · split
    · rename_i opened _
      split
      · have hn := labeledNode_reaches s.alloc.value l.start
          (s.alloc.state.takeLabel l s.alloc.value).value
          (ha.trans (bracketedSet_reaches h s.alloc.value opened _))
        split
        · exact hn.trans (.of_cursor_eq (State.cursor_report ..))
        · exact hn
      · exact labeledNode_reaches _ _ _ (ha.trans (lineSet_reaches h ..))
    · exact labeledNode_reaches _ _ _ (ha.trans (lineSet_reaches h ..))
  · exact labeledNode_reaches _ _ _ hl

theorem unlabeled_reaches (h : Forward inner) (ctx : Context) (tagged : Bool) (opened : Delimiter)
    (s : State) : Reaches s (unlabeled inner ctx tagged opened s).state := by
  unfold unlabeled
  dsimp only
  refine Reaches.trans (.trans (.of_cursor_eq ?_) (bracketedSet_reaches h ..))
    (.of_cursor_eq (cursor_close ..))
  split <;> rfl

theorem untaggable_reaches (tags : List Tree) (s : State) :
    Reaches s (untaggable tags s).state := by
  refine .of_cursor_eq ?_
  unfold untaggable
  dsimp only
  rw [cursor_close]
  split <;> rfl

theorem bareNode_reaches (h : Forward inner) (ctx : Context) (tags : List Tree) (s : State)
    {r : Read Tree} (hr : bareNode inner ctx tags s = some r) : Reaches s r.state := by
  unfold bareNode at hr
  split at hr
  · cases hr; exact labeled_reaches h _ s
  · split at hr
    · cases hr; exact unlabeled_reaches h _ _ _ s
    · split at hr
      · split at hr
        · cases hr
        · cases hr; exact untaggable_reaches tags s
      · cases hr; exact unexpected_reaches s

theorem node_reaches (h : Forward inner) (ctx : Context) (s : State) {r : Read Tree}
    (hr : node inner ctx s = some r) : Reaches s r.state := by
  obtain ⟨b, hb, rfl⟩ := Option.map_eq_some_iff.1 hr
  have hr := bareNode_reaches h ctx _ _ hb
  exact (tags_reaches h s).trans hr

/-- An entry is read by stepping over words. -/
theorem entry_reaches (h : Forward inner) (ctx : Context) (s : State) :
    Reaches s (entry inner ctx s).state := by
  unfold entry
  cases hn : node inner ctx s with
  | none => exact unexpected_reaches s
  | some r => exact node_reaches h ctx s hn

theorem follow_reaches (sep : Separator) (t : Tree) (s : State) :
    Reaches s (follow sep t s).state := by
  unfold follow
  dsimp only
  split
  · exact (State.reaches_advance s).trans (.of_cursor_eq (State.cursor_claim _))
  · exact State.reaches_advance s

theorem entriesFrom_reaches (h : Forward inner) (ctx : Context) (n : Nat)
    (pending : Option Separator) (s : State) :
    Reaches s (entriesFrom inner ctx n pending s).state := by
  induction n generalizing pending s with
  | zero => exact .refl s
  | succ n ih =>
    unfold entriesFrom
    split
    · exact .refl s
    · split
      · exact (unexpected_reaches s).trans (ih _ _)
      · have he := entry_reaches h ctx s
        dsimp only
        split
        · exact (he.trans (follow_reaches ..)).trans (ih _ _)
        · exact he.trans (ih _ _)

theorem lineEntriesFrom_reaches (h : Forward inner) (n : Nat) (s : State) :
    Reaches s (lineEntriesFrom inner n s).state := by
  induction n generalizing s with
  | zero => exact .refl s
  | succ n ih =>
    unfold lineEntriesFrom
    split
    · exact .refl s
    · rename_i r hr
      have hn := node_reaches h .line s hr
      split
      · exact hn
      · exact hn.trans (ih _)

theorem levels_forward (n : Nat) : Forward (levels n) := by
  induction n with
  | zero => intro levels h; cases h
  | succ n ih =>
    intro levels h
    cases h
    exact ⟨fun s => entriesFrom_reaches ih .bracketed _ none s,
      fun s => lineEntriesFrom_reaches ih _ s⟩

end Grammar

end Metadoc
