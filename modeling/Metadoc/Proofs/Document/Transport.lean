import Metadoc.Proofs.Document.Alike

/-!
# Reading in another place

What is read from a state is read from every state that looks alike, and found where it has been
moved to.  Where the second text goes on behind the first, this holds of whatever is read without a
report.

* `State.Like.promisesSet_iff`, `State.Like.takesArguments_iff`, … : the grammar asks the same
  questions in both places and gets the same answers;
* `Grammar.Moved` compares what a production yields in both places, and `Grammar.moved_close`, … say
  it of the productions;
* `Grammar.Transports` says that a run is found in every such place, and
  `Grammar.transports_labeledSet`, … that this is handed on from the parts of a production to it;
* `Grammar.Run.transport` : so it holds of every run.
-/

namespace Metadoc

open Grammar

namespace State

variable {ρ : Relocation} {k : Option Sequel} {s s' : State}

theorem inside_of_label {l : Lexeme} (h : s.cursor.label? = some l) : Inside k s :=
  .inr (Cursor.atEnd_of_label h)

theorem inside_of_opens {d : Delimiter} (h : s.cursor.opens? = some d) : Inside k s :=
  .inr (Cursor.atEnd_of_opens h)

theorem inside_of_closes {d : Delimiter} (h : s.cursor.closes? = some d) : Inside k s := by
  obtain ⟨b, hb, -⟩ := Option.bind_eq_some_iff.1 h
  exact .inr (Cursor.atEnd_of_symbol hb)

theorem left_of_atEnd (h : s.cursor.atEnd = true) : s.left = 0 := by
  rw [left, List.isEmpty_iff.1 h]
  rfl

theorem atEnd_of_not_contentMissing (h : ¬s.contentMissing) : s.cursor.atEnd = false :=
  Cursor.atEnd_of_atLineEnd (Bool.eq_false_iff.2 fun hend => h (.inr hend))

theorem inside_of_isAt {b : UInt8} (h : s.cursor.isAt b = true) : Inside k s :=
  .inr (Cursor.atEnd_of_isAt h)

theorem started_behindLabel {l : Lexeme} (hl : s.cursor.label? = some l) :
    (s.behindLabel l).cursor.started = true := by
  rw [cursor_behindLabel, ← cursor_advance]
  exact started_advance (Cursor.atEnd_of_label hl)

namespace Like

/-! ### The questions of the grammar -/

theorem atEnd_of_not_inside (hi : ¬Inside k s) : s.cursor.atEnd = true := by
  simpa using (not_or.1 hi).2

theorem symbol?_of_not_inside (hi : ¬Inside k s) : s.cursor.symbol? = none := by
  rw [Cursor.symbol?, Cursor.lexeme?_eq_stages, Cursor.stages_eq_nil (atEnd_of_not_inside hi)]
  rfl

theorem promisesSet_iff (h : Like ρ k s s') (hs : s.cursor.started = true) :
    s'.promisesSet ↔ s.promisesSet := by
  by_cases hi : Inside k s
  · have hn := h.newlines hs hi
    have hzero : s'.cursor.newlines = 0 ↔ s.cursor.newlines = 0 := by omega
    rw [promisesSet, promisesSet, h.isAt hi, hzero]
  · have hpos := h.newlines_pos hs hi
    have hat : s.cursor.isAt labelMark = false := by
      simp [Cursor.isAt, symbol?_of_not_inside hi]
    simp [promisesSet, hat, Nat.ne_of_gt hpos]

theorem takesArguments_iff (h : Like ρ k s s') (hs : s.cursor.started = true) :
    s'.takesArguments ↔ s.takesArguments := by
  by_cases hi : Inside k s
  · rw [takesArguments, takesArguments, h.isAt hi, h.adjacent hs hi]
  · have hat : s.cursor.isAt Delimiter.paren.openByte = false := by
      simp [Cursor.isAt, symbol?_of_not_inside hi]
    simp [takesArguments, hat, h.not_adjacent hs hi]

theorem contentMissing_iff (h : Like ρ k s s') (hs : s.cursor.started = true)
    (hi : Inside k s) : s'.contentMissing ↔ s.contentMissing := by
  have hn := h.newlines hs hi
  have htwo : 2 ≤ s'.cursor.newlines ↔ 2 ≤ s.cursor.newlines := by omega
  rw [contentMissing, contentMissing, htwo, h.atLineEnd hi]

theorem lineEnds_iff (h : Like ρ k s s') (hs : s.cursor.started = true) :
    s'.lineEnds ↔ s.lineEnds := by
  by_cases hi : Inside k s
  · have hn := h.newlines hs hi
    have hpos : 0 < s'.cursor.newlines ↔ 0 < s.cursor.newlines := by omega
    rw [lineEnds, lineEnds, hpos, h.atLineEnd hi]
  · have hpos := h.newlines_pos hs hi
    have hend : s.cursor.atLineEnd = true := by simp [Cursor.atLineEnd, atEnd_of_not_inside hi]
    simp [lineEnds, hpos, hend]

theorem noEntry_iff (h : Like ρ k s s') (hi : Inside k s) : s'.noEntry ↔ s.noEntry := by
  rw [noEntry, noEntry, h.label? hi, h.opens? hi, h.atLineEnd hi, Option.map_eq_none_iff]

theorem entriesEnd_iff (h : Like ρ k s s') (hi : Inside k s) (ctx : Context) :
    s'.entriesEnd ctx ↔ s.entriesEnd ctx := by
  rw [entriesEnd, entriesEnd, h.atEnd hi, h.closes? hi]

theorem cramped_iff (h : Like ρ k s s') (hs : s.cursor.started = true) :
    (s'.cursor.adjacent = true ∧ s'.cursor.atNodeStart = true) ↔
      (s.cursor.adjacent = true ∧ s.cursor.atNodeStart = true) := by
  by_cases hi : Inside k s
  · rw [h.adjacent hs hi, h.atNodeStart hi]
  · have hsymbol := symbol?_of_not_inside hi
    have hlexeme : s.cursor.lexeme? = none := by
      rw [Cursor.lexeme?_eq_stages, Cursor.stages_eq_nil (atEnd_of_not_inside hi)]
      rfl
    have hstart : s.cursor.atNodeStart = false := by
      simp [Cursor.atNodeStart, Cursor.label?, Cursor.opens?, Cursor.isAt, hlexeme, hsymbol]
    simp [hstart, h.not_adjacent hs hi]

/-! ### Labels -/

theorem reportLabel (h : Like ρ k s s') {l : Lexeme} (hl : ρ.Rigid l) (node : Nat)
    (hq : k = none ∨ (s.reportLabel l node).reports = []) :
    Like ρ k (s.reportLabel l node) (s'.reportLabel (ρ.lexeme l) (ρ.number node)) := by
  have herror : (ρ.lexeme l).error = l.error := rfl
  rcases hq with rfl | hquiet
  · have hfault : Like ρ none (s.reportFault l node)
        (s'.reportFault (ρ.lexeme l) (ρ.number node)) := by
      unfold reportFault
      rw [herror]
      cases l.error with
      | none => exact h
      | some e =>
        dsimp only
        rw [hl.faultSpan]
        exact h.report (.inl rfl) ..
    unfold State.reportLabel
    rw [hl.invalidSpan?]
    cases l.invalidSpan? with
    | none => exact hfault
    | some span => exact hfault.report (.inl rfl) ..
  · -- Where nothing is reported, nothing changes.
    have hclean := clean_of_reports_reportLabel hquiet
    unfold State.reportLabel at hquiet ⊢
    rw [hl.invalidSpan?]
    cases hspan : l.invalidSpan? with
    | none => simpa [reportFault, herror, hclean.error] using h
    | some span =>
      rw [hspan] at hquiet
      exact absurd hquiet (reports_report _ _ span node)

theorem behindLabel (h : Like ρ k s s') {l : Lexeme} (hl : s.cursor.label? = some l)
    (hq : k = none ∨ (s.behindLabel l).reports = []) :
    Like ρ k (s.behindLabel l) (s'.behindLabel (ρ.lexeme l)) := by
  have hi : Inside k s := inside_of_label hl
  have hbehind := (h.alloc hi).advance (hi.of_cursor_eq (cursor_alloc s))
  rw [State.behindLabel, State.behindLabel, takeLabel, takeLabel, h.count hi]
  exact hbehind.reportLabel (h.rigid (Option.filter_eq_some_iff.1 hl).1) _ hq

theorem promise (h : Like ρ k s s') {l : Lexeme} (hl : s.cursor.label? = some l)
    (hp : (s.behindLabel l).promisesSet)
    (hq : k = none ∨ (s.behindLabel l).advance.reports = []) :
    s'.cursor.label? = some (ρ.lexeme l) ∧ (s'.behindLabel (ρ.lexeme l)).promisesSet ∧
      Like ρ k (s.behindLabel l).advance (s'.behindLabel (ρ.lexeme l)).advance ∧
      (s.behindLabel l).advance.cursor.started = true := by
  have hi : Inside k s := inside_of_label hl
  have hstarted := started_behindLabel hl
  have hlabel := h.behindLabel hl (hq.imp_right (grows_advance _).reports_eq_nil)
  have hcolon : Inside k (s.behindLabel l) := inside_of_isAt hp.1
  refine ⟨?_, (hlabel.promisesSet_iff hstarted).2 hp, hlabel.advance hcolon,
    (moves_advance _).started hstarted⟩
  rw [h.label? hi, hl]
  rfl

theorem tagName (h : Like ρ k s s') {l : Lexeme} (hat : s.cursor.isAt tagMark = true)
    (hl : s.advance.cursor.label? = some l)
    (hq : k = none ∨ (s.advance.behindLabel l).reports = []) :
    s'.cursor.isAt tagMark = true ∧ s'.advance.cursor.label? = some (ρ.lexeme l) ∧
      s'.advance.count = ρ.number s.advance.count ∧
      Like ρ k (s.advance.behindLabel l) (s'.advance.behindLabel (ρ.lexeme l)) ∧
      (s.advance.behindLabel l).cursor.started = true := by
  have hi : Inside k s := inside_of_isAt hat
  have hi' : Inside k s.advance := inside_of_label hl
  have hmark := h.advance hi
  refine ⟨(h.isAt hi _).trans hat, ?_, hmark.count hi', hmark.behindLabel hl hq,
    started_behindLabel hl⟩
  rw [hmark.label? hi', hl]
  rfl

end Like

end State

namespace Grammar

open State (Like Inside)

/-! ### Productions -/

/-- Whether a tree that is read in one place is found in the other, and the states behind it are
alike. -/
structure Moved (ρ : Relocation) (k : Option Sequel) (r r' : Read Tree) : Prop where
  /-- The tree is found. -/
  value : r'.value = ρ.tree r.value
  /-- The states behind it are alike. -/
  state : Like ρ k r.state r'.state

variable {ρ : Relocation} {k : Option Sequel} {s s' : State}

theorem moved_close (h : Like ρ k s s') (hs : s.cursor.started = true) (id start : Nat)
    (kind : NodeKind) (label : Label) (facets : Facets) (children : List Tree) :
    Moved ρ k (close id start kind label facets children s)
      (close (ρ.number id) (ρ.place start) kind label facets (ρ.trees children) s') := by
  obtain ⟨hpost, hstate⟩ := h.claim hs
  refine ⟨?_, hstate⟩
  simp only [close, Relocation.tree, Relocation.data, Relocation.span, State.spanFrom, hpost,
    ρ.mono.map_max, h.prevEnd hs, Relocation.trees_nil]

theorem moved_unexpected (h : Like ρ none s s') (hs : s.advance.cursor.started = true) :
    Moved ρ none (unexpected s) (unexpected s') := by
  have hi : Inside none s := .inl rfl
  have hbehind := (h.alloc hi).advance (.inl rfl)
  have hstarted : s.alloc.state.advance.cursor.started = true := by simpa using hs
  have hvalue : s'.alloc.value = ρ.number s.alloc.value := h.count hi
  unfold unexpected
  dsimp only
  rw [h.lexeme? hi, hvalue, h.pos hi, h.span hi]
  cases s.cursor.lexeme? with
  | none => exact moved_close (hbehind.report (.inl rfl) ..) hstarted ..
  | some l => exact moved_close (hbehind.report (.inl rfl) ..) hstarted ..

theorem moved_untaggable (h : Like ρ k s s') (hi : Inside k s) (hs : s.cursor.started = true)
    (ts : List Tree) : Moved ρ k (untaggable ts s) (untaggable (ρ.trees ts) s') := by
  have hany : ((ρ.trees ts).any fun t => t.data.kind = .tag) =
      ts.any fun t => t.data.kind = .tag :=
    ρ.any_trees (fun t => by rw [ρ.data_tree]; rfl) ts
  have hvalue : s'.alloc.value = ρ.number s.alloc.value := h.count hi
  have halloc := h.alloc hi
  unfold untaggable
  dsimp only
  rw [hany, hvalue, h.span hi]
  split
  · have hreport := halloc.report (hi.of_cursor_eq rfl) .missingTagged s.cursor.span s.alloc.value
    rw [hreport.pos (hi.of_cursor_eq rfl)]
    exact moved_close hreport hs ..
  · rw [halloc.pos (hi.of_cursor_eq rfl)]
    exact moved_close halloc hs ..

theorem moved_labeledNode {r : Read SetBody} {t : State} (h : Like ρ k r.state t)
    (hs : r.state.cursor.started = true) (id start : Nat) (label : Label) :
    Moved ρ k (labeledNode id start label r)
      (labeledNode (ρ.number id) (ρ.place start) label ⟨ρ.body r.value, t⟩) :=
  moved_close h hs ..

theorem moved_reportCramped {r r' : Read Tree} (h : Moved ρ k r r')
    (hs : r.state.cursor.started = true) (id : Nat) :
    Moved ρ k (reportCramped id r) (reportCramped (ρ.number id) r') := by
  have hiff := h.state.cramped_iff hs
  unfold reportCramped
  by_cases hc : r.state.cursor.adjacent = true ∧ r.state.cursor.atNodeStart = true
  · have hi : Inside k r.state := by
      by_contra hi
      have hadjacent := h.state.not_adjacent hs hi
      rw [(hiff.2 hc).1] at hadjacent
      cases hadjacent
    rw [if_pos hc, if_pos (hiff.2 hc), h.state.span hi]
    exact ⟨h.value, h.state.report hi ..⟩
  · rw [if_neg hc, if_neg (hc ∘ hiff.1)]
    exact h

theorem moved_follow (h : Like ρ k s s') (hend : s.cursor.atEnd = false) (sep : Separator)
    (t : Tree) : Moved ρ k (follow sep t s) (follow sep (ρ.tree t) s') := by
  have hadvance := h.advance (.inr hend)
  obtain ⟨hpost, hstate⟩ := hadvance.claim (State.started_advance hend)
  have hdata : (ρ.tree t).data = ρ.data t.data := ρ.data_tree t
  unfold follow
  dsimp only
  have hp : (ρ.tree t).data.post = t.data.post := by rw [hdata]; rfl
  rw [hp]
  split
  · refine ⟨?_, hstate⟩
    rw [ρ.tree_withData, hpost, hdata]
    rfl
  · refine ⟨?_, hadvance⟩
    rw [ρ.tree_withData, hdata]
    rfl

/-! ### Skipping -/

theorem left_eq (h : Like ρ none s s') : s'.left = s.left := by
  have hlength {ls ls'} (h : Ahead ρ none ls ls') : ls'.length = ls.length := by
    induction h with
    | nil => rfl
    | cons _ _ _ ih => rw [List.length_cons, List.length_cons, ih]
  have hleft (s : State) : s.cursor.stages.length = s.left := by
    unfold Cursor.stages State.left
    induction s.cursor.ahead with
    | nil => rfl
    | cons w ws ih => rw [Word.stages, List.length_cons, List.length_cons, ih]
  rw [← hleft, ← hleft, hlength h.ahead]

theorem like_skip (bracketed : Bool) (n depth : Nat) (h : Like ρ none s s') :
    Like ρ none (skip bracketed n depth s) (skip bracketed n depth s') := by
  induction n generalizing depth s s' with
  | zero => exact h
  | succ n ih =>
    have hi : Inside none s := .inl rfl
    unfold skip
    rw [h.atEnd hi, h.atLineEnd hi, h.opens? hi, h.closes? hi]
    dsimp only
    split
    · exact h
    · rename_i hend
      have hadvance := h.advance hi
      have hstarted := State.started_advance (Bool.not_eq_true _ ▸ hend)
      have hn := hadvance.newlines hstarted (.inl rfl)
      have hpos : 0 < s'.advance.cursor.newlines ↔ 0 < s.advance.cursor.newlines := by omega
      generalize (if s.cursor.opens?.isSome = true then depth + 1
        else if s.cursor.closes?.isSome = true then depth - 1 else depth) = next
      simp only [hpos]
      split
      · exact h
      · split
        · exact hadvance
        · exact ih next hadvance

/-! ### Runs -/

/-- Whether nothing has been reported, if a sequel follows. -/
def Quiet (k : Option Sequel) (s : State) : Prop := k = none ∨ s.reports = []

theorem Quiet.before (h : Quiet k s') (hg : State.Grows s s') : Quiet k s :=
  h.imp_right hg.reports_eq_nil

/-- Before a sequel nothing is reported. -/
theorem Quiet.eq_none (h : Quiet k s) (hr : s.reports ≠ []) : k = none := h.resolve_right hr

theorem Run.kind_of_tags {n : Nat} {part : Part} {r : Read SetBody} (h : Run n part s r)
    (hq : r.state.reports = []) :
    part = .tag ∨ part = .tags → ∀ t ∈ r.value.children, t.data.kind = .tag := by
  induction h with
  | namelessTag _ _ =>
    exact absurd ((State.grows_claim _).reports_eq_nil hq) (reports_report _ _ _ _)
  | plainTag _ _ _ | tagWithArguments _ _ _ _ _ =>
    intro _ t ht
    cases List.mem_singleton.1 ht
    rfl
  | tagsEnd _ =>
    intro _ t ht
    cases ht
  | tagsCons _ _ rest ihFirst ihRest =>
    intro _ t ht
    rcases List.mem_cons.1 ht with rfl | ht
    · exact ihFirst (rest.grows.reports_eq_nil hq) (.inl rfl) _ List.mem_cons_self
    · exact ihRest hq (.inr rfl) t ht
  | _ => simp

theorem Run.inside_of_bare {n : Nat} {ctx : Context} {ts : List Tree} {r : Read SetBody}
    (h : Run n (.bare ctx ts) s r) (hq : Quiet k r.state)
    (hts : k = none ∨ ∀ t ∈ ts, t.data.kind = .tag) : Inside k s := by
  cases h with
  | label hl _ | labeledSet hl _ _ _ _ | labeledLine hl _ _ _ => exact State.inside_of_label hl
  | unlabeled _ ho _ => exact State.inside_of_opens ho
  | untaggable _ hne =>
    rcases hts with rfl | hts
    · exact .inl rfl
    · exact .inl (hq.eq_none (reports_untaggable s hne hts))
  | unexpected _ _ he => exact .inr (Cursor.atEnd_of_atLineEnd he)

theorem Run.inside_of_line {n id : Nat} {label : Span} {r : Read SetBody}
    (h : Run n (.line id label) s r) (hq : Quiet k r.state) : Inside k s := by
  cases h with
  | lineMissing _ => exact .inl (hq.eq_none (reports_report _ _ _ _))
  | lineRefused hm | lineRead hm _ => exact .inr (State.atEnd_of_not_contentMissing hm)

/-- What is asked of the states before and behind a part of the grammar, for it to be read in the
other place. -/
def Part.Fits (k : Option Sequel) (s s' : State) : Part → Prop
  | .bare _ ts => Inside k s ∧ (ts ≠ [] → s.cursor.started = true)
  | .entry _ => s.cursor.atEnd = false
  | .line .. => s.cursor.started = true
  | .tags | .entries .. => Inside k s'
  | .tag | .bracketed .. | .node _ | .lineEntries => True

theorem exists_of_moved {n : Nat} {part : Part} {r r' : Read Tree} (hm : Moved ρ k r r')
    (hr : Run n part s' r'.one) :
    ∃ t, Run n part s' ⟨ρ.body r.one.value, t⟩ ∧ Like ρ k r.one.state t := by
  refine ⟨r'.state, ?_, hm.state⟩
  have hone : r'.one = ⟨ρ.body r.one.value, r'.state⟩ := by
    rw [Read.one, hm.value]
    rfl
  rwa [← hone]

/-- Whether a run of a part of the grammar, up to where a sequel begins, is found wherever a state
looks alike. -/
def Transports (ρ : Relocation) (k : Option Sequel) (n : Nat) (part : Part) (s : State)
    (r : Read SetBody) : Prop :=
  ∀ ⦃s' : State⦄, Like ρ k s s' → Quiet k r.state → part.Fits k s r.state →
    ∃ t, Run n (ρ.part part) s' ⟨ρ.body r.value, t⟩ ∧ Like ρ k r.state t

section Productions

variable {n : Nat} {ctx : Context} {tags : List Tree} {l : Lexeme} {opened closed : Delimiter}
  {r : Read SetBody} {e : Read Tree} {es : Read (List Tree)}

/-! #### Tags -/

theorem transports_namelessTag (hat : s.cursor.isAt tagMark = true)
    (hl : s.advance.cursor.label? = none) :
    Transports ρ k n .tag s
      (close s.advance.count s.cursor.pos .error (plainLabel "@" [tagMark]) {} []
        (s.advance.alloc.state.report .missingTagName s.cursor.span s.advance.count)).one := by
  intro s' hs hq _
  obtain rfl := (hq.before (State.grows_claim _)).eq_none (reports_report _ _ _ _)
  have hadvance := hs.advance (.inl rfl)
  have hreport := (hadvance.alloc (.inl rfl)).report (.inl rfl) .missingTagName s.cursor.span
    s.advance.count
  have hstarted := State.started_advance (Cursor.atEnd_of_isAt hat)
  refine exists_of_moved (moved_close hreport hstarted ..) ?_
  rw [← hs.span (.inl rfl), ← hs.pos (.inl rfl), ← hadvance.count (.inl rfl)]
  refine .namelessTag ((hs.isAt (.inl rfl) _).trans hat) ?_
  rw [hadvance.label? (.inl rfl), hl]
  rfl

theorem transports_plainTag (hat : s.cursor.isAt tagMark = true)
    (hl : s.advance.cursor.label? = some l)
    (hargs : ¬(s.advance.behindLabel l).takesArguments) :
    Transports ρ k n .tag s (close s.advance.count s.cursor.pos .tag l.label
      { literal := some l.label.literal } [] (s.advance.behindLabel l)).one := by
  intro s' hs hq _
  obtain ⟨hat', hl', hcount, hname, hstarted⟩ :=
    hs.tagName hat hl (hq.before (State.grows_claim _))
  refine exists_of_moved (moved_close hname hstarted ..) ?_
  rw [← hs.pos (State.inside_of_isAt hat), ← hcount]
  exact .plainTag hat' hl' (hargs ∘ (hname.takesArguments_iff hstarted).1)

theorem transports_tagWithArguments (hat : s.cursor.isAt tagMark = true)
    (hl : s.advance.cursor.label? = some l)
    (hargs : (s.advance.behindLabel l).takesArguments)
    (args : Run n (.bracketed s.advance.count .paren) (s.advance.behindLabel l) r)
    (ih : Transports ρ k n (.bracketed s.advance.count .paren) (s.advance.behindLabel l) r) :
    Transports ρ k n .tag s (close s.advance.count s.cursor.pos .tag l.label
      { opened := r.value.opened, closed := r.value.closed, literal := some l.label.literal }
      r.value.children r.state).one := by
  intro s' hs hq _
  have hbehind := hq.before (State.grows_claim _)
  obtain ⟨hat', hl', hcount, hname, hstarted⟩ :=
    hs.tagName hat hl (hbehind.before args.grows)
  obtain ⟨t, hrun, ht⟩ := ih hname hbehind trivial
  refine exists_of_moved (moved_close ht (args.moves.started hstarted) ..) ?_
  have hargs' := (hname.takesArguments_iff hstarted).2 hargs
  have hread := @Run.tagWithArguments _ _ _ ⟨ρ.body r.value, t⟩ hat' hl' hargs'
    (by rw [hcount]; exact hrun)
  rwa [hcount, hs.pos (State.inside_of_isAt hat)] at hread

/-! #### Sets -/

theorem transports_bracketedClosed {id : Nat} (ho : s.cursor.opens? = some opened)
    (hc : es.state.cursor.closes? = some closed)
    (ih : Transports ρ k n (.entries .bracketed none) s.advance (Read.many es)) :
    Transports ρ k (n + 1) (.bracketed id opened) s
      ⟨{ opened := some opened, closed := some closed, children := es.value },
        es.state.advance⟩ := by
  intro s' hs hq _
  have hi : Inside k s := State.inside_of_opens ho
  have hclosed : Inside k es.state := State.inside_of_closes hc
  obtain ⟨t, hbody, ht⟩ := ih (hs.advance hi) (hq.before (State.grows_advance _)) hclosed
  exact ⟨t.advance, @Run.bracketedClosed _ _ _ _ ⟨ρ.trees es.value, t⟩ _
    ((hs.opens? hi).trans ho) hbody ((ht.closes? hclosed).trans hc), ht.advance hclosed⟩

theorem transports_bracketedOpen {id : Nat} (ho : s.cursor.opens? = some opened)
    (hc : es.state.cursor.closes? = none)
    (ih : Transports ρ k n (.entries .bracketed none) s.advance (Read.many es)) :
    Transports ρ k (n + 1) (.bracketed id opened) s
      ⟨{ opened := some opened, children := es.value },
        es.state.report .unterminatedSet s.cursor.span id⟩ := by
  intro s' hs hq _
  obtain rfl := hq.eq_none (reports_report _ _ _ _)
  obtain ⟨t, hbody, ht⟩ := ih (hs.advance (.inl rfl)) (.inl rfl) (.inl rfl)
  refine ⟨_, ?_, ht.report (.inl rfl) ..⟩
  rw [← hs.span (.inl rfl)]
  exact @Run.bracketedOpen _ _ _ _ ⟨ρ.trees es.value, t⟩ ((hs.opens? (.inl rfl)).trans ho) hbody
    ((ht.closes? (.inl rfl)).trans hc)

/-! #### Entries without tags -/

theorem transports_label (hl : s.cursor.label? = some l) (hp : ¬(s.behindLabel l).promisesSet) :
    Transports ρ k n (.bare ctx tags) s
      (labeledNode s.count l.start l.label ⟨{}, s.behindLabel l⟩).one := by
  intro s' hs hq _
  have hlabel := hs.behindLabel hl (hq.before (State.grows_claim _))
  have hstarted := State.started_behindLabel hl
  refine exists_of_moved (moved_labeledNode (r := ⟨{}, _⟩) hlabel hstarted ..) ?_
  have hi : Inside k s := State.inside_of_label hl
  rw [← hs.count hi]
  exact .label (by rw [hs.label? hi, hl]; rfl) (hp ∘ (hlabel.promisesSet_iff hstarted).1)

/-- A label with a set in brackets. -/
theorem transports_labeledSet (hl : s.cursor.label? = some l) (hp : (s.behindLabel l).promisesSet)
    (ho : (s.behindLabel l).advance.cursor.opens? = some opened)
    (hn : (s.behindLabel l).advance.cursor.newlines < 2)
    (body : Run n (.bracketed s.count opened) (s.behindLabel l).advance r)
    (ih : Transports ρ k n (.bracketed s.count opened) (s.behindLabel l).advance r) :
    Transports ρ k n (.bare ctx tags) s
      (reportCramped s.count (labeledNode s.count l.start l.label r)).one := by
  intro s' hs hq _
  have hbody := (hq.before (grows_reportCramped ..)).before (State.grows_claim _)
  obtain ⟨hl', hp', hlabel, hstarted⟩ := hs.promise hl hp (hbody.before body.grows)
  have hi : Inside k s := State.inside_of_label hl
  have hi' : Inside k (s.behindLabel l).advance := State.inside_of_opens ho
  obtain ⟨t, hrun, ht⟩ := ih hlabel hbody trivial
  have hbehind := body.moves.started hstarted
  have hmoved := moved_labeledNode ht hbehind s.count l.start l.label
  refine exists_of_moved (moved_reportCramped hmoved (by simpa using hbehind) _) ?_
  have hn' := hlabel.newlines hstarted hi'
  have hcount := hs.count hi
  have hread := @Run.labeledSet _ ctx (ρ.trees tags) _ _ _ ⟨ρ.body r.value, t⟩ hl' hp'
    ((hlabel.opens? hi').trans ho) (by omega) (by rw [hcount]; exact hrun)
  rwa [hcount] at hread

theorem transports_labeledLine (hl : s.cursor.label? = some l)
    (hp : (s.behindLabel l).promisesSet)
    (ho : (s.behindLabel l).advance.cursor.opens? = none ∨
      2 ≤ (s.behindLabel l).advance.cursor.newlines)
    (body : Run n (.line s.count l.span) (s.behindLabel l).advance r)
    (ih : Transports ρ k n (.line s.count l.span) (s.behindLabel l).advance r) :
    Transports ρ k n (.bare ctx tags) s (labeledNode s.count l.start l.label r).one := by
  intro s' hs hq _
  have hbody := hq.before (State.grows_claim _)
  obtain ⟨hl', hp', hlabel, hstarted⟩ := hs.promise hl hp (hbody.before body.grows)
  have hi : Inside k s := State.inside_of_label hl
  have hi' : Inside k (s.behindLabel l).advance := body.inside_of_line hbody
  obtain ⟨t, hrun, ht⟩ := ih hlabel hbody hstarted
  refine exists_of_moved (moved_labeledNode ht (body.moves.started hstarted) ..) ?_
  have hn' := hlabel.newlines hstarted hi'
  have hcount := hs.count hi
  have ho' : (s'.behindLabel (ρ.lexeme l)).advance.cursor.opens? = none ∨
      2 ≤ (s'.behindLabel (ρ.lexeme l)).advance.cursor.newlines :=
    ho.imp (hlabel.opens? hi').trans fun htwo => by omega
  have hspan : (ρ.lexeme l).span = ρ.span l.span :=
    (hs.rigid (Option.filter_eq_some_iff.1 hl).1).span
  have hread := @Run.labeledLine _ ctx (ρ.trees tags) _ _ ⟨ρ.body r.value, t⟩ hl' hp' ho'
    (by rw [hcount, hspan]; exact hrun)
  rwa [hcount] at hread

theorem transports_unlabeled (hl : s.cursor.label? = none) (ho : s.cursor.opens? = some opened)
    (body : Run n (.bracketed s.count opened)
      (if ctx = .line then
        s.alloc.state.report (.unlabeledSet (!tags.isEmpty)) s.cursor.span s.count
      else s.alloc.state) r)
    (ih : Transports ρ k n (.bracketed s.count opened)
      (if ctx = .line then
        s.alloc.state.report (.unlabeledSet (!tags.isEmpty)) s.cursor.span s.count
      else s.alloc.state) r) :
    Transports ρ k n (.bare ctx tags) s
      (close s.count s.cursor.pos r.value.kind noLabel
        { opened := r.value.opened, closed := r.value.closed } r.value.children r.state).one := by
  intro s' hs hq _
  have hi : Inside k s := State.inside_of_opens ho
  have hl' : s'.cursor.label? = none := by rw [hs.label? hi, hl]; rfl
  -- In the rest of a line the set is reported in both places.
  have hbegin : Like ρ k
      (if ctx = .line then
        s.alloc.state.report (.unlabeledSet (!tags.isEmpty)) s.cursor.span s.count
      else s.alloc.state)
      (if ctx = .line then
        s'.alloc.state.report (.unlabeledSet (!(ρ.trees tags).isEmpty)) s'.cursor.span s'.count
      else s'.alloc.state) := by
    rw [ρ.isEmpty_trees, hs.span hi, hs.count hi]
    split
    · exact (hs.alloc hi).report (hi.of_cursor_eq rfl) ..
    · exact hs.alloc hi
  have hlt := body.progress.2 trivial
  obtain ⟨t, hrun, ht⟩ := ih hbegin (hq.before (State.grows_claim _)) trivial
  refine exists_of_moved (moved_close ht (body.moves.started_of_left_lt hlt) ..) ?_
  have hcount := hs.count hi
  have hread := @Run.unlabeled _ ctx (ρ.trees tags) _ _ ⟨ρ.body r.value, t⟩ hl'
    ((hs.opens? hi).trans ho) (by rw [hcount]; rw [hcount] at hrun; exact hrun)
  rwa [hcount, hs.pos hi] at hread

theorem transports_unexpected (hl : s.cursor.label? = none) (ho : s.cursor.opens? = none)
    (he : s.cursor.atLineEnd = false) :
    Transports ρ k n (.bare ctx tags) s (unexpected s).one := by
  intro s' hs hq _
  obtain rfl := hq.eq_none (reports_unexpected s)
  have hi : Inside none s := .inl rfl
  have hstarted := State.started_advance (Cursor.atEnd_of_atLineEnd he)
  refine exists_of_moved (moved_unexpected hs hstarted) (.unexpected ?_ ?_ ?_)
  · rw [hs.label? hi, hl]
    rfl
  · rw [hs.opens? hi, ho]
  · rw [hs.atLineEnd hi, he]

/-! #### Entries -/

theorem transports_node {ts : Read (List Tree)} (tags : Run n .tags s (Read.many ts))
    (bare : Run n (.bare ctx ts.value) ts.state (Read.one e))
    (ihTags : Transports ρ k n .tags s (Read.many ts))
    (ihBare : Transports ρ k n (.bare ctx ts.value) ts.state (Read.one e)) :
    Transports ρ k n (.node ctx) s
      (Read.one ⟨dress s.cursor.trivia.leadingText ts.value e.value, e.state⟩) := by
  intro s' hs hq _
  have hend : s.cursor.atEnd = false := by
    have hlt := (Run.node tags bare).progress.2 trivial
    rw [Bool.eq_false_iff]
    intro hend
    rw [State.left_of_atEnd hend] at hlt
    cases hlt
  have hquiet := hq.before bare.grows
  have hi : Inside k ts.state := bare.inside_of_bare hq
    (hquiet.imp_right fun hquiet => tags.kind_of_tags hquiet (.inr rfl))
  obtain ⟨t, htags, ht⟩ := ihTags hs hquiet hi
  have hstarted : ts.value ≠ [] → ts.state.cursor.started = true := fun hne =>
    tags.moves.started_of_left_lt (tags.progress.2 hne)
  obtain ⟨t', hbare, ht'⟩ := ihBare ht hq ⟨hi, hstarted⟩
  have hmoved : Moved ρ k ⟨dress s.cursor.trivia.leadingText ts.value e.value, e.state⟩
      ⟨dress s'.cursor.trivia.leadingText (ρ.trees ts.value) (ρ.tree e.value), t'⟩ := by
    refine ⟨?_, ht'⟩
    rw [ρ.tree_dress, hs.leading (.inr hend)]
  exact exists_of_moved hmoved
    (@Run.node _ ctx _ ⟨ρ.trees ts.value, t⟩ ⟨ρ.tree e.value, t'⟩ htags hbare)

theorem transports_extraSeparator {pending : Option Separator} (he : ¬s.entriesEnd ctx)
    (hsep : s.cursor.separator?.isSome = true)
    (rest : Run n (.entries ctx pending) (unexpected s).state (Read.many es))
    (ih : Transports ρ k n (.entries ctx pending) (unexpected s).state (Read.many es)) :
    Transports ρ k n (.entries ctx pending) s
      (Read.many ⟨(unexpected s).value :: es.value, es.state⟩) := by
  intro s' hs hq _
  obtain rfl := (hq.before rest.grows).eq_none (reports_unexpected s)
  have hend := State.atEnd_of_not_entriesEnd he
  have hmoved := moved_unexpected hs (State.started_advance hend)
  obtain ⟨t, hrest, ht⟩ := ih hmoved.state (.inl rfl) (.inl rfl)
  have hread := @Run.extraSeparator _ ctx pending _ ⟨ρ.trees es.value, t⟩
    (he ∘ (hs.entriesEnd_iff (.inl rfl) ctx).1) (by rw [hs.separator?, hsep]) hrest
  rw [hmoved.value] at hread
  exact ⟨t, hread, ht⟩

theorem transports_separated {pending : Option Separator} {sep : Separator}
    (he : ¬s.entriesEnd ctx) (hnone : s.cursor.separator? = none)
    (hsep : e.state.cursor.separator? = some sep)
    (rest : Run n (.entries ctx (some sep)) (follow sep (precede pending e.value) e.state).state
      (Read.many es))
    (ihFirst : Transports ρ k n (.entry ctx) s (Read.one e))
    (ihRest : Transports ρ k n (.entries ctx (some sep))
      (follow sep (precede pending e.value) e.state).state (Read.many es)) :
    Transports ρ k n (.entries ctx pending) s
      (Read.many ⟨(follow sep (precede pending e.value) e.state).value :: es.value,
        es.state⟩) := by
  intro s' hs hq hi
  have hend := State.atEnd_of_not_entriesEnd he
  have hquiet := (hq.before rest.grows).before (grows_follow ..)
  obtain ⟨t, hfirst, ht⟩ := ihFirst hs hquiet hend
  have hbehind : e.state.cursor.atEnd = false := by
    obtain ⟨b, hb, -⟩ := Option.bind_eq_some_iff.1 hsep
    exact Cursor.atEnd_of_symbol hb
  have hmoved := moved_follow ht hbehind sep (precede pending e.value)
  obtain ⟨t', hrest, ht'⟩ := ihRest hmoved.state hq hi
  rw [ρ.tree_precede] at hmoved hrest
  have hread := @Run.separated _ ctx pending _ ⟨ρ.tree e.value, t⟩ sep ⟨ρ.trees es.value, t'⟩
    (he ∘ (hs.entriesEnd_iff (.inr hend) ctx).1) (hs.separator?.trans hnone) hfirst
    (ht.separator?.trans hsep) hrest
  rw [hmoved.value] at hread
  exact ⟨t', hread, ht'⟩

theorem transports_unseparated {pending : Option Separator} (he : ¬s.entriesEnd ctx)
    (hnone : s.cursor.separator? = none) (hsep : e.state.cursor.separator? = none)
    (rest : Run n (.entries ctx none) e.state (Read.many es))
    (ihFirst : Transports ρ k n (.entry ctx) s (Read.one e))
    (ihRest : Transports ρ k n (.entries ctx none) e.state (Read.many es)) :
    Transports ρ k n (.entries ctx pending) s
      (Read.many ⟨precede pending e.value :: es.value, es.state⟩) := by
  intro s' hs hq hi
  have hend := State.atEnd_of_not_entriesEnd he
  obtain ⟨t, hfirst, ht⟩ := ihFirst hs (hq.before rest.grows) hend
  obtain ⟨t', hrest, ht'⟩ := ihRest ht hq hi
  have hread := @Run.unseparated _ ctx pending _ ⟨ρ.tree e.value, t⟩ ⟨ρ.trees es.value, t'⟩
    (he ∘ (hs.entriesEnd_iff (.inr hend) ctx).1) (hs.separator?.trans hnone) hfirst
    (ht.separator?.trans hsep) hrest
  rw [← ρ.tree_precede] at hread
  exact ⟨t', hread, ht'⟩

end Productions

/-- What is read in one place is read in the other, up to where a sequel begins. -/
theorem Run.transport {n : Nat} {part : Part} {r : Read SetBody} (h : Run n part s r) :
    Transports ρ k n part s r := by
  induction h with
  | namelessTag hat hl => exact transports_namelessTag hat hl
  | plainTag hat hl hargs => exact transports_plainTag hat hl hargs
  | tagWithArguments hat hl hargs args ih => exact transports_tagWithArguments hat hl hargs args ih
  | tagsEnd hat =>
    intro s' hs _ hi
    exact ⟨s', .tagsEnd ((hs.isAt hi _).trans hat), hs⟩
  | @tagsCons _ s e es hat first rest ihFirst ihRest =>
    intro s' hs hq hi
    obtain ⟨t, hfirst, ht⟩ := ihFirst hs (hq.before rest.grows) trivial
    obtain ⟨t', hrest, ht'⟩ := ihRest ht hq hi
    have hat' := (hs.isAt (State.inside_of_isAt hat) _).trans hat
    exact ⟨t', @Run.tagsCons _ _ ⟨ρ.tree e.value, t⟩ ⟨ρ.trees es.value, t'⟩ hat' hfirst hrest, ht'⟩
  | @bracketedRefused id opened s ho =>
    intro s' hs hq _
    obtain rfl := (hq.before (grows_skip ..)).eq_none (reports_report _ _ _ _)
    have hreport := (hs.advance (.inl rfl)).report (.inl rfl) .tooDeep s.cursor.span id
    refine ⟨_, ?_, like_skip true _ _ hreport⟩
    rw [← hs.span (.inl rfl), ← left_eq (hs.advance (.inl rfl))]
    exact .bracketedRefused ((hs.opens? (.inl rfl)).trans ho)
  | bracketedClosed ho body hc ih => exact transports_bracketedClosed ho hc ih
  | bracketedOpen ho body hc ih => exact transports_bracketedOpen ho hc ih
  | @lineMissing _ id label s hm =>
    intro s' hs hq hstarted
    obtain rfl := hq.eq_none (reports_report _ _ _ _)
    exact ⟨_, .lineMissing ((hs.contentMissing_iff hstarted (.inl rfl)).2 hm),
      hs.report (.inl rfl) ..⟩
  | @lineRefused id label s hm =>
    intro s' hs hq hstarted
    obtain rfl := (hq.before (grows_skip ..)).eq_none (reports_report _ _ _ _)
    refine ⟨_, ?_, like_skip false _ _ (hs.report (.inl rfl) .tooDeep label id)⟩
    rw [← left_eq hs]
    exact .lineRefused (hm ∘ (hs.contentMissing_iff hstarted (.inl rfl)).1)
  | @lineRead _ id label s r hm body ih =>
    intro s' hs hq hstarted
    obtain ⟨t, hbody, ht⟩ := ih hs hq trivial
    have hi : Inside k s := .inr (State.atEnd_of_not_contentMissing hm)
    exact ⟨t, @Run.lineRead _ _ _ _ ⟨ρ.trees r.value, t⟩
      (hm ∘ (hs.contentMissing_iff hstarted hi).1) hbody, ht⟩
  | label hl hp => exact transports_label hl hp
  | labeledSet hl hp ho hn body ih => exact transports_labeledSet hl hp ho hn body ih
  | labeledLine hl hp ho body ih => exact transports_labeledLine hl hp ho body ih
  | unlabeled hl ho body ih => exact transports_unlabeled hl ho body ih
  | @untaggable _ ctx tags s hnone hne =>
    intro s' hs hq hfits
    obtain ⟨hi, hstarted⟩ := hfits
    have hmoved := moved_untaggable hs hi (hstarted hne) tags
    exact exists_of_moved hmoved
      (.untaggable ((hs.noEntry_iff hi).2 hnone) ((ρ.trees_eq_nil).not.2 hne))
  | unexpected hl ho he => exact transports_unexpected hl ho he
  | node tags bare ihTags ihBare => exact transports_node tags bare ihTags ihBare
  | @entry _ ctx s e node ih =>
    intro s' hs hq _
    obtain ⟨t, hnode, ht⟩ := ih hs hq trivial
    exact ⟨t, @Run.entry _ ctx _ ⟨ρ.tree e.value, t⟩ hnode, ht⟩
  | @stray _ ctx s hnone hat =>
    intro s' hs hq hend
    obtain rfl := hq.eq_none (reports_unexpected s)
    have hi : Inside none s := .inl rfl
    refine exists_of_moved (moved_unexpected hs (State.started_advance hend)) (.stray ?_ ?_)
    · exact (hs.noEntry_iff hi).2 hnone
    · rw [hs.isAt hi, hat]
  | @entriesEnd _ ctx pending s he =>
    intro s' hs _ hi
    exact ⟨s', .entriesEnd ((hs.entriesEnd_iff hi ctx).2 he), hs⟩
  | extraSeparator he hsep rest ih => exact transports_extraSeparator he hsep rest ih
  | separated he hnone first hsep rest ihFirst ihRest =>
    exact transports_separated he hnone hsep rest ihFirst ihRest
  | unseparated he hnone first hsep rest ihFirst ihRest =>
    exact transports_unseparated he hnone hsep rest ihFirst ihRest
  | @lineLast _ s e first he ih =>
    intro s' hs hq _
    obtain ⟨t, hfirst, ht⟩ := ih hs hq trivial
    have hstarted := first.moves.started_of_left_lt (first.progress.2 trivial)
    exact ⟨t, @Run.lineLast _ _ ⟨ρ.tree e.value, t⟩ hfirst ((ht.lineEnds_iff hstarted).2 he), ht⟩
  | @lineCons _ s e r first he rest ihFirst ihRest =>
    intro s' hs hq _
    obtain ⟨t, hfirst, ht⟩ := ihFirst hs (hq.before rest.grows) trivial
    obtain ⟨t', hrest, ht'⟩ := ihRest ht hq trivial
    have hstarted := first.moves.started_of_left_lt (first.progress.2 trivial)
    exact ⟨t', @Run.lineCons _ _ ⟨ρ.tree e.value, t⟩ ⟨ρ.trees r.value, t'⟩ hfirst
      (he ∘ (ht.lineEnds_iff hstarted).1) hrest, ht'⟩

end Grammar

end Metadoc
