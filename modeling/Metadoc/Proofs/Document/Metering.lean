import Metadoc.Proofs.Document.Meter
import Metadoc.Proofs.Document.Stepwise

/-!
# Counting levels

What is read along with a meter is what the grammar reads with the number of levels handed down.

* `Meter.Keeps` says what a meter has to keep: it shows what it showed before, within its limits,
  each recorded call has read a word, and no bound has been reached;
* `Metered.Agrees` says that a part of the grammar yields the same along with a meter, which keeps
  what it has to, and `Metered.agrees_node`, `Metered.agrees_entriesFrom`, … that all of them do;
* `Metered.document_fst`, `Metered.oneNode_fst` : so documents are read alike in both ways.
-/

namespace Metadoc

open Grammar (maxDepth)

/-! ### What is reported to be too deep -/

namespace State

/-- The nodes whose sets are reported to be too deep. -/
def tooDeep (s : State) : List Nat :=
  (s.reports.filter (·.problem = .tooDeep)).map Report.node

variable (s : State)

@[simp] theorem tooDeep_report (problem : Problem) (span : Span) (node : Nat) :
    (s.report problem span node).tooDeep =
      if problem = .tooDeep then s.tooDeep ++ [node] else s.tooDeep := by
  by_cases h : problem = .tooDeep <;> simp [tooDeep, report, h]

@[simp] theorem tooDeep_alloc : s.alloc.state.tooDeep = s.tooDeep := rfl

@[simp] theorem tooDeep_claim : s.claim.state.tooDeep = s.tooDeep := by
  unfold claim
  split
  · split <;> rfl
  · rfl

@[simp] theorem tooDeep_reportFault (l : Lexeme) (node : Nat) :
    (s.reportFault l node).tooDeep = s.tooDeep := by
  unfold reportFault
  split <;> simp

theorem tooDeep_reportGap : s.reportGap.tooDeep = s.tooDeep := by
  suffices h : ∀ (ls : List Lexeme) (s : State), (ls.foldl reportTrivium s).tooDeep = s.tooDeep
    from h _ s
  intro ls
  induction ls with
  | nil => exact fun _ => rfl
  | cons l ls ih =>
    intro s
    rw [List.foldl_cons, ih, reportTrivium]
    split
    · rfl
    · exact tooDeep_reportFault _ _ _

@[simp] theorem tooDeep_advance : s.advance.tooDeep = s.tooDeep := by
  unfold advance
  split
  · rfl
  · exact tooDeep_reportGap _

@[simp] theorem tooDeep_takeLabel (l : Lexeme) (node : Nat) :
    (s.takeLabel l node).state.tooDeep = s.tooDeep := by
  simp only [takeLabel, reportLabel]
  split <;> simp

end State

namespace Grammar

variable (s : State)

@[simp] theorem tooDeep_close (id start : Nat) (kind : NodeKind) (label : Label) (facets : Facets)
    (children : List Tree) :
    (close id start kind label facets children s).state.tooDeep = s.tooDeep :=
  State.tooDeep_claim s

@[simp] theorem tooDeep_unexpected : (unexpected s).state.tooDeep = s.tooDeep := by
  unfold unexpected
  dsimp only
  split <;> simp

@[simp] theorem tooDeep_untaggable (ts : List Tree) :
    (untaggable ts s).state.tooDeep = s.tooDeep := by
  unfold untaggable
  dsimp only
  split <;> simp

@[simp] theorem tooDeep_reportCramped (id : Nat) (r : Read Tree) :
    (reportCramped id r).state.tooDeep = r.state.tooDeep := by
  unfold reportCramped
  split <;> simp

@[simp] theorem tooDeep_follow (sep : Separator) (t : Tree) :
    (follow sep t s).state.tooDeep = s.tooDeep := by
  unfold follow
  dsimp only
  split <;> simp

@[simp] theorem tooDeep_skip (bracketed : Bool) (n depth : Nat) :
    (skip bracketed n depth s).tooDeep = s.tooDeep :=
  skip_of_advance (R := fun s s' => s'.tooDeep = s.tooDeep) (fun _ => rfl)
    (fun h h' => h'.trans h) State.tooDeep_advance bracketed n depth s

end Grammar

/-! ### What a meter keeps -/

namespace Meter

variable {m m' m'' : Meter} {s s' s'' : State} {n : Nat}

/-- Whether `n` more sets may be entered. -/
structure HasLeft (m : Meter) (n : Nat) : Prop where
  /-- No more sets have been left than entered. -/
  nonneg : 0 ≤ m.depth
  /-- So many may still be entered. -/
  left : m.depth + n = maxDepth

theorem HasLeft.enter?_eq_none (h : m.HasLeft 0) : m.enter? = none :=
  if_pos (by have := h.left; omega)

theorem HasLeft.enter?_eq_some (h : m.HasLeft (n + 1)) :
    m.enter? = some (m.count (m.depth + 1)) :=
  if_neg (by have := h.left; omega)

theorem HasLeft.enter (h : m.HasLeft (n + 1)) : (m.count (m.depth + 1)).HasLeft n := by
  have hnonneg := h.nonneg
  have hleft := h.left
  exact ⟨by simp only [count]; omega, by simp only [count]; omega⟩

theorem HasLeft.begin : ({} : Meter).HasLeft maxDepth := ⟨by decide, by decide⟩

/-- What is kept between two states with their meters. -/
structure Keeps (s : State) (m : Meter) (s' : State) (m' : Meter) : Prop where
  /-- As many sets have been left as entered. -/
  depth : m'.depth = m.depth
  /-- The number of sets entered has stayed within its limits. -/
  depths : ∀ d ∈ m'.depths, d ∈ m.depths ∨ 0 ≤ d ∧ d ≤ maxDepth
  /-- The calls that have to read a word have read one. -/
  calls : ∀ c ∈ m'.calls, c ∈ m.calls ∨ c.2 < c.1
  /-- The sets that are refused are those that are reported to be too deep. -/
  refused : m.refused = s.tooDeep → m'.refused = s'.tooDeep
  /-- No bound has been reached. -/
  exhausted : m'.exhausted = m.exhausted

namespace Keeps

theorem of_eq (h : s'.tooDeep = s.tooDeep) : Keeps s m s' m :=
  ⟨rfl, fun _ => .inl, fun _ => .inl, fun hm => hm.trans h.symm, rfl⟩

theorem trans (h : Keeps s m s' m') (h' : Keeps s' m' s'' m'') : Keeps s m s'' m'' where
  depth := h'.depth.trans h.depth
  depths d hd := (h'.depths d hd).elim (h.depths d) .inr
  calls c hc := (h'.calls c hc).elim (h.calls c) .inr
  refused hm := h'.refused (h.refused hm)
  exhausted := h'.exhausted.trans h.exhausted

/-- Steps that count nothing may come before. -/
theorem after (h : Keeps s' m s'' m') (heq : s'.tooDeep = s.tooDeep) : Keeps s m s'' m' :=
  (of_eq heq).trans h

/-- Steps that count nothing may come after. -/
theorem before (h : Keeps s m s' m') (heq : s''.tooDeep = s'.tooDeep) : Keeps s m s'' m' :=
  h.trans (of_eq heq)

theorem hasLeft (h : Keeps s m s' m') (hm : m.HasLeft n) : m'.HasLeft n :=
  ⟨h.depth ▸ hm.nonneg, h.depth ▸ hm.left⟩

/-- A call that reads a word may be recorded. -/
theorem call (h : Keeps s m s' m') {before behind : State} (hlt : behind.left < before.left) :
    Keeps s m s' (m'.call before behind) := by
  refine ⟨h.depth, h.depths, fun c hc => ?_, h.refused, h.exhausted⟩
  rcases List.mem_append.1 hc with hc | hc
  · exact h.calls c hc
  · obtain rfl := List.mem_singleton.1 hc
    exact .inr hlt

/-- A set that is entered is left behind its entries. -/
theorem leave (h : Keeps s (m.count (m.depth + 1)) s' m') (hm : m.HasLeft (n + 1)) :
    Keeps s m s' m'.leave := by
  have hnonneg := hm.nonneg
  have hleft := hm.left
  have hdepth : m'.depth = m.depth + 1 := h.depth
  refine ⟨by simp only [Meter.leave, count]; omega, fun d hd => ?_, h.calls, h.refused,
    h.exhausted⟩
  rcases List.mem_append.1 hd with hd | hd
  · rcases h.depths d hd with hd | hd
    · rcases List.mem_append.1 hd with hd | hd
      · exact .inl hd
      · exact .inr (by rw [List.mem_singleton.1 hd]; omega)
    · exact .inr hd
  · exact .inr (by rw [List.mem_singleton.1 hd]; omega)

/-- A set that is refused is reported. -/
theorem refuse {id : Nat} (h : s'.tooDeep = s.tooDeep ++ [id]) : Keeps s m s' (m.refuse id) :=
  ⟨rfl, fun _ => .inl, fun _ => .inl, fun hm => by rw [h, ← hm]; rfl, rfl⟩

end Keeps

end Meter

/-! ### Agreement -/

namespace Metered

open Meter (Keeps)
open Grammar (close noLabel labeledNode reportCramped)

variable {α : Type} {m : Meter} {s : State} {n : Nat}

/-- Whether what is read along with a meter is what the grammar reads, and the meter keeps what it
has to. -/
structure Agrees (m : Meter) (s : State) (g : Metered α) (r : Read α) : Prop where
  /-- The same is read. -/
  read : g.toRead = r
  /-- The meter keeps what it has to. -/
  keeps : Keeps s m r.state g.meter

/-- Whether the contents of sets are read alike, one level further down. -/
def Levels.Agree (inner : Levels) (n : Nat) : Prop :=
  ∀ k, n = k + 1 → ∀ m s, m.HasLeft k →
    Agrees m s (inner.bracketed m s) (Grammar.entries (Grammar.levels k) .bracketed s) ∧
      Agrees m s (inner.line m s) (Grammar.lineEntries (Grammar.levels k) s)

variable {inner : Levels}

theorem agrees_unexpected (m : Meter) (hend : s.cursor.atEnd = false) :
    Agrees m s (unexpected m s) (Grammar.unexpected s) :=
  ⟨rfl, (Keeps.of_eq (Grammar.tooDeep_unexpected s)).call (Grammar.left_unexpected_lt hend)⟩

/-- A loop with more rounds than words ahead is not ended by its bound. -/
theorem skip_eq (bracketed : Bool) {k j : Nat} (depth : Nat) (m : Meter) {s : State}
    (hk : s.left < k) (hj : s.left ≤ j) :
    skip bracketed k depth m s = ⟨⟨(), Grammar.skip bracketed j depth s⟩, m⟩ := by
  induction k generalizing j depth s with
  | zero => exact absurd hk (Nat.not_lt_zero _)
  | succ k ih =>
    unfold skip
    cases hend : s.cursor.atEnd with
    | true => rw [Grammar.skip_of_atEnd _ _ _ hend, if_pos rfl]
    | false =>
      have hlt := State.left_advance_lt hend
      obtain ⟨j, rfl, hj'⟩ := Grammar.exists_left_advance_le hend hj
      simp only [Grammar.skip, hend, ih _ (j := j) (show s.advance.left < k by omega) hj']
      simp only [Bool.false_eq_true, if_false]
      generalize (if s.cursor.opens?.isSome = true then _ else _ : Nat) = behind
      split_ifs <;> rfl

theorem agrees_bracketedSet (h : inner.Agree n) (hm : m.HasLeft n) (id : Nat)
    (opened : Delimiter) (s : State) :
    Agrees m s (bracketedSet inner id opened m s)
      (Grammar.bracketedSet (Grammar.levels n) id opened s) := by
  cases n with
  | zero =>
    simp only [bracketedSet, hm.enter?_eq_none, Grammar.bracketedSet, Grammar.levels,
      skip_eq true 1 _ (Nat.lt_succ_self _) (Nat.le_refl _)]
    exact ⟨rfl, .refuse (by simp)⟩
  | succ k =>
    obtain ⟨hread, hkeeps⟩ := (h k rfl _ s.advance hm.enter).1
    simp only [bracketedSet, hm.enter?_eq_some, Grammar.bracketedSet, Grammar.levels, hread]
    have hleave := (hkeeps.leave hm).after (State.tooDeep_advance s)
    cases hc : (Grammar.entries (Grammar.levels k) .bracketed s.advance).state.cursor.closes? with
    | some closed => exact ⟨rfl, hleave.before (State.tooDeep_advance _)⟩
    | none => exact ⟨rfl, hleave.before (by simp)⟩

theorem agrees_lineSet (h : inner.Agree n) (hm : m.HasLeft n) (id : Nat) (label : Span)
    (s : State) :
    Agrees m s (lineSet inner id label m s) (Grammar.lineSet (Grammar.levels n) id label s) := by
  unfold lineSet Grammar.lineSet
  split
  · exact ⟨rfl, .of_eq (by simp)⟩
  · cases n with
    | zero =>
      simp only [hm.enter?_eq_none, Grammar.levels,
        skip_eq false 0 _ (Nat.lt_succ_self _) (Nat.le_refl _)]
      exact ⟨rfl, .refuse (by simp)⟩
    | succ k =>
      obtain ⟨hread, hkeeps⟩ := (h k rfl _ s hm.enter).2
      simp only [hm.enter?_eq_some, Grammar.levels, hread]
      exact ⟨rfl, hkeeps.leave hm⟩

theorem agrees_tag (h : inner.Agree n) (hm : m.HasLeft n) (s : State) :
    Agrees m s (tag inner m s) (Grammar.tag (Grammar.levels n) s) := by
  cases hl : s.advance.cursor.label? with
  | none =>
    simp only [tag, Grammar.tag, State.cursor_alloc, hl]
    exact ⟨rfl, .of_eq (by simp)⟩
  | some l =>
    simp only [tag, Grammar.tag, State.cursor_alloc, hl]
    split
    · obtain ⟨hread, hkeeps⟩ := agrees_bracketedSet h hm s.advance.alloc.value .paren
        (s.advance.alloc.state.takeLabel l s.advance.alloc.value).state
      simp only [hread]
      exact ⟨rfl, (hkeeps.after (by simp)).before (by simp)⟩
    · exact ⟨rfl, .of_eq (by simp)⟩

theorem agrees_tagsFrom (h : inner.Agree n) {k j : Nat} (hm : m.HasLeft n) (hk : s.left < k)
    (hj : s.left ≤ j) :
    Agrees m s (tagsFrom inner k m s) (Grammar.many (fun s =>
      if s.cursor.isAt tagMark then some (Grammar.tag (Grammar.levels n) s) else none) j s) := by
  induction k generalizing j m s with
  | zero => exact absurd hk (Nat.not_lt_zero _)
  | succ k ih =>
    cases hat : s.cursor.isAt tagMark with
    | false =>
      have hend : Grammar.many (fun s =>
          if s.cursor.isAt tagMark then some (Grammar.tag (Grammar.levels n) s) else none) j s =
          ⟨[], s⟩ := by
        cases j <;> simp [Grammar.many, hat]
      rw [hend, tagsFrom, if_neg (by simp [hat])]
      exact ⟨rfl, .of_eq rfl⟩
    | true =>
      obtain ⟨j, rfl⟩ := Grammar.exists_left_eq_succ (Cursor.atEnd_of_isAt hat) hj
      have hlt : (Grammar.tag (Grammar.levels n) s).state.left < s.left :=
        (Grammar.run_tag (Grammar.soundBelow n) hat).progress.2 trivial
      obtain ⟨hread, hkeeps⟩ := agrees_tag h hm s
      obtain ⟨hrest, hkeeps'⟩ := ih (hkeeps.hasLeft hm) (hlt.trans_le (Nat.le_of_lt_succ hk))
        (Nat.le_of_lt_succ (hlt.trans_le hj))
      simp only [tagsFrom, Grammar.many, hat, if_true, hread, hrest]
      exact ⟨rfl, hkeeps.trans hkeeps'⟩

theorem agrees_tags (h : inner.Agree n) (hm : m.HasLeft n) (s : State) :
    Agrees m s (tags inner m s) (Grammar.tags (Grammar.levels n) s) :=
  agrees_tagsFrom h hm (Nat.lt_succ_self _) (Nat.le_refl _)

theorem labeled_eq_of_promisesSet (inner : Levels) (m : Meter) {l : Lexeme} {s : State}
    (hp : (s.behindLabel l).promisesSet) :
    labeled inner l m s =
      match (s.behindLabel l).advance.cursor.opens? with
      | some opened =>
        if (s.behindLabel l).advance.cursor.newlines < 2 then
          let set := bracketedSet inner s.count opened m (s.behindLabel l).advance
          ⟨reportCramped s.count (labeledNode s.count l.start l.label set.toRead),
            set.meter⟩
        else
          let set := lineSet inner s.count l.span m (s.behindLabel l).advance
          ⟨labeledNode s.count l.start l.label set.toRead, set.meter⟩
      | none =>
        let set := lineSet inner s.count l.span m (s.behindLabel l).advance
        ⟨labeledNode s.count l.start l.label set.toRead, set.meter⟩ :=
  if_pos hp

theorem agrees_labeled (h : inner.Agree n) (hm : m.HasLeft n) (l : Lexeme) (s : State) :
    Agrees m s (labeled inner l m s) (Grammar.labeled (Grammar.levels n) l s) := by
  have hbehind : (s.behindLabel l).tooDeep = s.tooDeep := State.tooDeep_takeLabel _ l s.count
  have hmark : (s.behindLabel l).advance.tooDeep = s.tooDeep := by simp [hbehind]
  -- Both kinds of sets end in a node of the label.
  have hnode {set : Metered SetBody} {r : Read SetBody}
      (hset : Agrees m (s.behindLabel l).advance set r) :
      Agrees m s ⟨labeledNode s.count l.start l.label set.toRead, set.meter⟩
        (labeledNode s.count l.start l.label r) := by
    rw [hset.read]
    exact ⟨rfl, (hset.keeps.after hmark).before (Grammar.tooDeep_close ..)⟩
  have hline := hnode (agrees_lineSet h hm s.count l.span (s.behindLabel l).advance)
  by_cases hp : (s.behindLabel l).promisesSet
  · rw [labeled_eq_of_promisesSet inner m hp, Grammar.labeled_eq_of_promisesSet _ hp]
    cases (s.behindLabel l).advance.cursor.opens? with
    | none => exact hline
    | some opened =>
      by_cases hn : (s.behindLabel l).advance.cursor.newlines < 2
      · have hset := hnode (agrees_bracketedSet h hm s.count opened (s.behindLabel l).advance)
        simp only [if_pos hn]
        exact ⟨congrArg (reportCramped s.count) hset.read,
          hset.keeps.before (Grammar.tooDeep_reportCramped ..)⟩
      · simp only [if_neg hn]
        exact hline
  · rw [Grammar.labeled_eq_of_not_promisesSet _ hp, labeled, if_neg (by exact hp)]
    exact ⟨rfl, .of_eq ((Grammar.tooDeep_close ..).trans hbehind)⟩

theorem agrees_unlabeled (h : inner.Agree n) (hm : m.HasLeft n) (ctx : Context) (tagged : Bool)
    (opened : Delimiter) (s : State) :
    Agrees m s (unlabeled inner ctx tagged opened m s)
      (Grammar.unlabeled (Grammar.levels n) ctx tagged opened s) := by
  let begun := if ctx = .line then
    s.alloc.state.report (.unlabeledSet tagged) s.cursor.span s.count else s.alloc.state
  have hbegun : begun.tooDeep = s.tooDeep := by
    simp only [begun]
    split <;> simp
  obtain ⟨hread, hkeeps⟩ := agrees_bracketedSet h hm s.count opened begun
  refine ⟨congrArg (fun r : Read SetBody =>
    close s.count s.cursor.pos r.value.kind Grammar.noLabel
      { opened := r.value.opened, closed := r.value.closed } r.value.children r.state) hread, ?_⟩
  exact (hkeeps.after hbegun).before (Grammar.tooDeep_close ..)

theorem agrees_bareNode (h : inner.Agree n) (hm : m.HasLeft n) (ctx : Context) (ts : List Tree)
    (s : State) :
    Option.Rel (Agrees m s) (bareNode inner ctx ts m s)
      (Grammar.bareNode (Grammar.levels n) ctx ts s) := by
  unfold bareNode Grammar.bareNode
  cases s.cursor.label? with
  | some l => exact .some (agrees_labeled h hm l s)
  | none =>
    cases s.cursor.opens? with
    | some opened => exact .some (agrees_unlabeled h hm ctx _ opened s)
    | none =>
      cases hend : s.cursor.atLineEnd with
      | true =>
        cases ts with
        | nil => exact .none
        | cons t ts => exact .some ⟨rfl, .of_eq (Grammar.tooDeep_untaggable ..)⟩
      | false => exact .some (agrees_unexpected m (Cursor.atEnd_of_atLineEnd hend))

theorem agrees_node (h : inner.Agree n) (hm : m.HasLeft n) (ctx : Context) (s : State) :
    Option.Rel (Agrees m s) (node inner ctx m s) (Grammar.node (Grammar.levels n) ctx s) := by
  obtain ⟨hread, htags⟩ := agrees_tags h hm s
  have hbare := agrees_bareNode h (htags.hasLeft hm) ctx (Grammar.tags (Grammar.levels n) s).value
    (Grammar.tags (Grammar.levels n) s).state
  have hreads : ∀ r, Grammar.node (Grammar.levels n) ctx s = some r → r.state.left < s.left :=
    fun r hr => (Grammar.run_node (Grammar.soundBelow n) hr).progress.2 trivial
  simp only [node, hread]
  simp only [Grammar.node] at hreads ⊢
  revert hbare hreads
  generalize Grammar.bareNode (Grammar.levels n) ctx _ _ = r
  generalize bareNode inner ctx _ _ _ = g
  intro hbare hreads
  cases hbare with
  | none => exact .none
  | some hg =>
    refine .some ⟨?_, ?_⟩
    · simp [hg.read]
    · refine (htags.trans hg.keeps).call ?_
      simpa [hg.read] using hreads _ rfl

theorem agrees_entry (h : inner.Agree n) (hm : m.HasLeft n) (ctx : Context)
    (hend : s.cursor.atEnd = false) :
    Agrees m s (entry inner ctx m s) (Grammar.entry (Grammar.levels n) ctx s) := by
  have hnode := agrees_node h hm ctx s
  unfold entry Grammar.entry
  generalize Grammar.node (Grammar.levels n) ctx s = r at hnode
  generalize node inner ctx m s = g at hnode
  cases hnode with
  | none => exact agrees_unexpected m hend
  | some hg => exact hg

section EntriesFrom

variable (inner : Levels) {ctx : Context} (k : Nat) (pending : Option Separator) (m : Meter)

theorem entriesFrom_of_entriesEnd (he : s.entriesEnd ctx) :
    entriesFrom inner ctx (k + 1) pending m s = ⟨⟨[], s⟩, m⟩ := if_pos he

theorem entriesFrom_of_separator (he : ¬s.entriesEnd ctx)
    (hs : s.cursor.separator?.isSome = true) :
    entriesFrom inner ctx (k + 1) pending m s =
      let e := unexpected m s
      let rest := entriesFrom inner ctx k pending e.meter e.state
      ⟨⟨e.value :: rest.value, rest.state⟩, rest.meter⟩ :=
  (if_neg he).trans (if_pos hs)

theorem entriesFrom_of_entry (he : ¬s.entriesEnd ctx) (hs : s.cursor.separator? = none) :
    entriesFrom inner ctx (k + 1) pending m s =
      let e := entry inner ctx m s
      let t := Grammar.precede pending e.value
      match e.state.cursor.separator? with
      | some sep =>
        let f := Grammar.follow sep t e.state
        let rest := entriesFrom inner ctx k (some sep) e.meter f.state
        ⟨⟨f.value :: rest.value, rest.state⟩, rest.meter⟩
      | none =>
        let rest := entriesFrom inner ctx k none e.meter e.state
        ⟨⟨t :: rest.value, rest.state⟩, rest.meter⟩ :=
  (if_neg he).trans (if_neg (by simp [hs]))

end EntriesFrom

theorem agrees_entriesFrom (h : inner.Agree n) {k j : Nat} (ctx : Context)
    (pending : Option Separator) (hm : m.HasLeft n) (hk : s.left < k) (hj : s.left ≤ j) :
    Agrees m s (entriesFrom inner ctx k pending m s)
      (Grammar.entriesFrom (Grammar.levels n) ctx j pending s) := by
  induction k generalizing j pending m s with
  | zero => exact absurd hk (Nat.not_lt_zero _)
  | succ k ih =>
    by_cases he : s.entriesEnd ctx
    · have hend : Grammar.entriesFrom (Grammar.levels n) ctx j pending s = ⟨[], s⟩ := by
        cases j with
        | zero => rfl
        | succ j => exact if_pos he
      rw [hend, entriesFrom_of_entriesEnd _ _ _ _ he]
      exact ⟨rfl, .of_eq rfl⟩
    have hend := State.atEnd_of_not_entriesEnd he
    obtain ⟨j, rfl⟩ := Grammar.exists_left_eq_succ hend hj
    -- One word less is ahead in each round.
    have hrounds {s' : State} (hlt : s'.left < s.left) : s'.left < k ∧ s'.left ≤ j :=
      ⟨hlt.trans_le (Nat.le_of_lt_succ hk), Nat.le_of_lt_succ (hlt.trans_le hj)⟩
    cases hs : s.cursor.separator? with
    | some sep =>
      have hsome : s.cursor.separator?.isSome = true := by rw [hs]; rfl
      rw [Grammar.entriesFrom_of_separator _ _ _ _ he hsome,
        entriesFrom_of_separator _ _ _ _ he hsome]
      obtain ⟨hread, hfirst⟩ := agrees_unexpected m hend
      obtain ⟨hk', hj'⟩ := hrounds (Grammar.left_unexpected_lt hend)
      obtain ⟨hreads, hrest⟩ := ih pending (hfirst.hasLeft hm) hk' hj'
      simp only [hread, hreads]
      exact ⟨rfl, hfirst.trans hrest⟩
    | none =>
      rw [Grammar.entriesFrom_of_entry _ _ _ _ he hs, entriesFrom_of_entry _ _ _ _ he hs]
      obtain ⟨hread, hfirst⟩ := agrees_entry h hm ctx hend
      have hlt : (Grammar.entry (Grammar.levels n) ctx s).state.left < s.left :=
        (Grammar.run_entry (Grammar.soundBelow n) ctx s).progress.2 hend
      simp only [hread]
      generalize Grammar.entry (Grammar.levels n) ctx s = e at hfirst hlt ⊢
      cases e.state.cursor.separator? with
      | none =>
        obtain ⟨hk', hj'⟩ := hrounds hlt
        obtain ⟨hreads, hrest⟩ := ih none (hfirst.hasLeft hm) hk' hj'
        simp only [hreads]
        exact ⟨rfl, hfirst.trans hrest⟩
      | some sep =>
        let f := Grammar.follow sep (Grammar.precede pending e.value) e.state
        have hfollow : Keeps s m f.state (entry inner ctx m s).meter :=
          hfirst.before (Grammar.tooDeep_follow ..)
        have hless : f.state.left < s.left :=
          (State.steps_reaches.follow ..).left_le.trans_lt hlt
        obtain ⟨hk', hj'⟩ := hrounds hless
        obtain ⟨hreads, hrest⟩ := ih (some sep) (hfollow.hasLeft hm) hk' hj'
        simp only [f] at hreads
        simp only [hreads]
        exact ⟨rfl, hfollow.trans hrest⟩

theorem agrees_lineEntriesFrom (h : inner.Agree n) {k j : Nat} (hm : m.HasLeft n)
    (hk : s.left < k) (hj : s.left ≤ j) :
    Agrees m s (lineEntriesFrom inner k m s)
      (Grammar.lineEntriesFrom (Grammar.levels n) j s) := by
  induction k generalizing j m s with
  | zero => exact absurd hk (Nat.not_lt_zero _)
  | succ k ih =>
    have hnode := agrees_node h hm .line s
    rw [lineEntriesFrom]
    generalize node inner .line m s = g at hnode
    cases hr : Grammar.node (Grammar.levels n) .line s with
    | none =>
      have hend : Grammar.lineEntriesFrom (Grammar.levels n) j s = ⟨[], s⟩ := by
        cases j with
        | zero => rfl
        | succ j => rw [Grammar.lineEntriesFrom, hr]
      rw [hr] at hnode
      cases hnode
      rw [hend]
      exact ⟨rfl, .of_eq rfl⟩
    | some r =>
      have hlt : r.state.left < s.left :=
        (Grammar.run_node (Grammar.soundBelow n) hr).progress.2 trivial
      obtain ⟨j, rfl⟩ : ∃ i, j = i + 1 := Nat.exists_eq_succ_of_ne_zero (by omega)
      rw [hr] at hnode
      cases hnode with | @some g _ hg =>
      obtain ⟨hread, hfirst⟩ := hg
      simp only [Grammar.lineEntriesFrom, hr, hread]
      split
      · exact ⟨rfl, hfirst⟩
      · obtain ⟨hreads, hrest⟩ := ih (j := j) (s := r.state) (hfirst.hasLeft hm) (by omega)
          (by omega)
        simp only [hreads]
        exact ⟨rfl, hfirst.trans hrest⟩

/-- However many levels are left, they are read alike, if the recursion is bounded by as many. -/
theorem agree_levels {k : Nat} (h : n ≤ k) : (levels k).Agree n := by
  induction n generalizing k with
  | zero => exact fun k hk => nomatch hk
  | succ n ih =>
    intro j hj m s hm
    obtain rfl : n = j := by omega
    obtain ⟨k, rfl⟩ : ∃ j, k = j + 1 := Nat.exists_eq_succ_of_ne_zero (by omega)
    have hinner := ih (Nat.le_of_succ_le_succ h)
    exact ⟨agrees_entriesFrom hinner .bracketed none hm (Nat.lt_succ_self _) (Nat.le_refl _),
      agrees_lineEntriesFrom hinner hm (Nat.lt_succ_self _) (Nat.le_refl _)⟩

/-- Reading a whole document begins with an empty meter. -/
theorem agrees_document (source : Source) :
    Agrees {} (State.begin source 0).alloc.state
      (entries (levels maxDepth) .top {} (State.begin source 0).alloc.state)
      (Grammar.entries (Grammar.levels maxDepth) .top (State.begin source 0).alloc.state) :=
  agrees_entriesFrom (agree_levels le_rfl) .top none .begin (Nat.lt_succ_self _) le_rfl

theorem document_fst (source : Source) : (document source).1 = Parse.document source := by
  simp only [document, (agrees_document source).read]
  rfl

section OneNode

variable {text : Bytes} {pos : Nat}

theorem oneNode_of_atEnd (hend : (State.begin ⟨Parse.anonymous, text⟩ pos).cursor.atEnd = true) :
    oneNode text pos = (.ofState ⟨Parse.anonymous, text⟩ none
      (State.begin ⟨Parse.anonymous, text⟩ pos), {}) := if_pos hend

theorem oneNode_of_not_atEnd
    (hend : (State.begin ⟨Parse.anonymous, text⟩ pos).cursor.atEnd = false) :
    oneNode text pos =
      let r := entry (levels maxDepth) .top {} (State.begin ⟨Parse.anonymous, text⟩ pos)
      (.ofState ⟨Parse.anonymous, text⟩ (some r.value) r.state, r.meter) :=
  if_neg (Bool.eq_false_iff.1 hend)

/-- Reading the first node of a text begins with an empty meter. -/
theorem agrees_oneNode (hend : (State.begin ⟨Parse.anonymous, text⟩ pos).cursor.atEnd = false) :
    Agrees {} (State.begin ⟨Parse.anonymous, text⟩ pos)
      (entry (levels maxDepth) .top {} (State.begin ⟨Parse.anonymous, text⟩ pos))
      (Grammar.entry (Grammar.levels maxDepth) .top (State.begin ⟨Parse.anonymous, text⟩ pos)) :=
  agrees_entry (agree_levels le_rfl) .begin .top hend

end OneNode

theorem oneNode_fst (text : Bytes) (pos : Nat) :
    (oneNode text pos).1 = Parse.oneNode text pos := by
  cases hend : (State.begin ⟨Parse.anonymous, text⟩ pos).cursor.atEnd with
  | true => rw [oneNode_of_atEnd hend, Parse.oneNode_of_atEnd hend]
  | false =>
    rw [oneNode_of_not_atEnd hend, Parse.oneNode_of_not_atEnd hend]
    simp only [(agrees_oneNode hend).read]

end Metered

end Metadoc
