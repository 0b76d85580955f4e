import Metadoc.Proofs.Document.Alike
import Metadoc.Proofs.Document.Balance
import Mathlib.Data.Nat.PSub

/-!
# Skipping sets that are too deep

A set that is too deep is skipped by a loop that counts brackets.  A set in brackets is left where
it would be left if it were read.  A set without brackets is left where a line ends outside all
brackets, which may be before its entries end.

* `Grammar.skip_of_balanced` : the loop steps over words and sets, with the count unchanged;
* `Grammar.skipChecked_eq` : the count is never to be lowered where it is zero;
* `Grammar.Run.balanced` : what is read steps over words and sets as well, for any number of levels;
* `State.Passes` : what is skipped adds nothing but the faults of the trivia in it.
-/

namespace Metadoc

open Cursor (Balanced BehindSet Item FirstLineEnd)

namespace Grammar

variable {s : State}

/-! ### The loop -/

theorem skip_of_atEnd (bracketed : Bool) (n depth : Nat) (h : s.cursor.atEnd = true) :
    skip bracketed n depth s = s := by
  cases n with
  | zero => rfl
  | succ n => rw [skip, if_pos h]

theorem skip_of_atLineEnd (bracketed : Bool) (n : Nat) (h : s.cursor.atLineEnd = true) :
    skip bracketed n 0 s = s := by
  cases n with
  | zero => rfl
  | succ n => simp [skip, h]

/-- A loop that is long enough for the words ahead is long enough for one step. -/
theorem exists_left_advance_le {n : Nat} (hend : s.cursor.atEnd = false) (hn : s.left ≤ n) :
    ∃ k, n = k + 1 ∧ s.advance.left ≤ k := by
  obtain ⟨k, rfl⟩ := exists_left_eq_succ hend hn
  exact ⟨k, rfl, Nat.le_of_lt_succ ((State.left_advance_lt hend).trans_le hn)⟩

theorem skip_word (bracketed : Bool) (n depth : Nat) (hb : ¬s.cursor.Blocked)
    (ho : s.cursor.opens? = none) :
    skip bracketed (n + 1) (depth + 1) s = skip bracketed n (depth + 1) s.advance := by
  simp [skip, Cursor.atEnd_of_not_blocked hb, Cursor.closes?_of_not_blocked hb, ho]

theorem skip_open (bracketed : Bool) (n depth : Nat) (ho : s.cursor.opens?.isSome = true) :
    skip bracketed (n + 1) (depth + 1) s = skip bracketed n (depth + 2) s.advance := by
  simp [skip, Cursor.atEnd_of_not_blocked (Cursor.not_blocked_of_opens ho), ho]

theorem skip_close (bracketed : Bool) (n depth : Nat) (hc : s.cursor.closes?.isSome = true)
    (hend : s.cursor.atEnd = false) :
    skip bracketed (n + 1) (depth + 2) s = skip bracketed n (depth + 1) s.advance := by
  simp [skip, hend, hc, Cursor.opens?_of_closes hc]

/-- Inside brackets, words and whole sets are stepped over with the count unchanged. -/
theorem skip_of_balanced {c c' : Cursor} (h : Balanced c c') (bracketed : Bool) (depth : Nat)
    {n : Nat} (hs : s.cursor = c) (hn : s.left ≤ n) :
    ∃ s' n', s'.cursor = c' ∧ s'.left ≤ n' ∧
      skip bracketed n (depth + 1) s = skip bracketed n' (depth + 1) s' := by
  -- On the way over words and sets, for any count: inside a set it is one higher.
  induction h generalizing s n depth with
  | refl => exact ⟨s, n, hs, hn, rfl⟩
  | word hb ho _ ih =>
    subst hs
    obtain ⟨k, rfl, hk⟩ := exists_left_advance_le (Cursor.atEnd_of_not_blocked hb) hn
    rw [skip_word bracketed k depth hb ho]
    exact ih depth (State.cursor_advance s) hk
  | @set _ m _ ho _ hm rest ihInside ihRest =>
    -- The loop is followed over the opening bracket, what is inside and the closing bracket.
    subst hs
    have hend := Cursor.atEnd_of_not_blocked (Cursor.not_blocked_of_opens ho)
    obtain ⟨k, rfl, hk⟩ := exists_left_advance_le hend hn
    rw [skip_open bracketed k depth ho]
    obtain ⟨s', n', hs', hn', heq⟩ := ihInside (depth + 1) (State.cursor_advance s) hk
    rw [heq]
    subst hs'
    cases hend' : s'.cursor.atEnd with
    | true =>
      -- The document ends inside the set.
      rw [Cursor.advance_of_atEnd hend'] at rest
      refine ⟨s', n', (rest.eq_of_blocked hm).symm, hn', ?_⟩
      rw [skip_of_atEnd _ _ _ hend', skip_of_atEnd _ _ _ hend']
    | false =>
      have hc : s'.cursor.closes?.isSome = true := hm.resolve_left (by simp [hend'])
      obtain ⟨k', rfl, hk'⟩ := exists_left_advance_le hend' hn'
      rw [skip_close bracketed k' depth hc hend']
      exact ihRest depth (State.cursor_advance s') hk'

/-- With one bracket open, the loop gets behind the set. -/
theorem exists_skip_one {c c' : Cursor} (h : BehindSet c c') (hs : s.cursor = c.advance)
    (bracketed : Bool) {n : Nat} (hn : s.left ≤ n) :
    ∃ s' n', s'.cursor = c' ∧ s'.left ≤ n' ∧
      skip bracketed n 1 s =
        if bracketed ∨ s'.cursor.LineEnds then s' else skip bracketed n' 0 s' := by
  obtain ⟨m, inside, hm, rfl⟩ := h
  obtain ⟨s', n', hs', hn', heq⟩ := skip_of_balanced inside bracketed 0 hs hn
  rw [heq]
  subst hs'
  cases hend : s'.cursor.atEnd with
  | true =>
    refine ⟨s', n', (Cursor.advance_of_atEnd hend).symm, hn', ?_⟩
    rw [skip_of_atEnd _ _ _ hend, if_pos (.inr (Cursor.lineEnds_of_atEnd hend))]
  | false =>
    have hc : s'.cursor.closes?.isSome = true := hm.resolve_left (by simp [hend])
    obtain ⟨k, rfl, hk⟩ := exists_left_advance_le hend hn'
    refine ⟨s'.advance, k, State.cursor_advance s', hk, ?_⟩
    have hlast : skip bracketed (k + 1) 1 s' =
        if bracketed ∨ 0 < s'.advance.cursor.newlines then s'.advance
        else skip bracketed k 0 s'.advance := by
      simp [skip, hend, hc, Cursor.opens?_of_closes hc]
    rw [hlast]
    cases hline : s'.advance.cursor.atLineEnd with
    | true => rw [skip_of_atLineEnd _ _ hline, ite_self, if_pos (.inr (.inr hline))]
    | false => simp only [Cursor.LineEnds, hline, Bool.false_eq_true, or_false]

theorem behindSet_skip {c : Cursor} (hs : s.cursor = c.advance) {n : Nat} (hn : s.left ≤ n) :
    BehindSet c (skip true n 1 s).cursor := by
  obtain ⟨c', hset⟩ := Cursor.exists_behindSet c
  obtain ⟨s', n', hs', -, heq⟩ := exists_skip_one hset hs true hn
  rwa [heq, if_pos (.inl rfl), hs']

/-- Outside all brackets the loop steps over a word or a set, and goes on if no line ends there. -/
theorem exists_skip_item {n : Nat} (hn : s.left ≤ n) (he : s.cursor.atLineEnd = false) :
    ∃ s' n', Item s.cursor s'.cursor ∧ s'.left ≤ n' ∧
      skip false n 0 s = if s'.cursor.LineEnds then s' else skip false n' 0 s' := by
  have hb := Cursor.not_blocked_of_atLineEnd he
  have hend := Cursor.atEnd_of_not_blocked hb
  obtain ⟨k, rfl, hk⟩ := exists_left_advance_le hend hn
  cases ho : s.cursor.opens? with
  | none =>
    refine ⟨s.advance, k, ?_, hk, ?_⟩
    · rw [State.cursor_advance]
      exact .of_plain ⟨hb, ho⟩
    · have hstep : skip false (k + 1) 0 s =
          if 0 < s.advance.cursor.newlines then s.advance else skip false k 0 s.advance := by
        simp [skip, hend, he, ho, Cursor.closes?_of_not_blocked hb]
      rw [hstep]
      cases hline : s.advance.cursor.atLineEnd with
      | true => rw [skip_of_atLineEnd _ _ hline, ite_self, if_pos (.inr hline)]
      | false => simp only [Cursor.LineEnds, hline, Bool.false_eq_true, or_false]
  | some opened =>
    have hopens : s.cursor.opens?.isSome = true := by rw [ho]; rfl
    obtain ⟨c', hset⟩ := Cursor.exists_behindSet s.cursor
    obtain ⟨s', n', rfl, hn', heq⟩ := exists_skip_one hset (State.cursor_advance s) false hk
    refine ⟨s', n', .of_set hopens hset, hn', ?_⟩
    have hstep : skip false (k + 1) 0 s = skip false k 1 s.advance := by
      simp [skip, hend, he, ho]
    rw [hstep, heq]
    simp only [Bool.false_eq_true, false_or]

/-- A set without brackets is skipped up to the first place behind where a line ends. -/
theorem firstLineEnd_skip {n : Nat} (hn : s.left ≤ n) (he : s.cursor.atLineEnd = false) :
    FirstLineEnd s.cursor (skip false n 0 s).cursor := by
  -- A set takes many rounds of the loop, so the induction is on the words left.
  induction hk : s.left using Nat.strong_induction_on generalizing s n with
  | _ k ih =>
    obtain ⟨s', n', hitem, hn', heq⟩ := exists_skip_item hn he
    rw [heq]
    split
    · rename_i hends
      exact .of_item hitem hends
    · rename_i hends
      have he' : s'.cursor.atLineEnd = false := Bool.eq_false_iff.2 fun h => hends (.inr h)
      exact .cons hitem hends (ih _ (hk ▸ hitem.length_lt) hn' he' rfl)

/-- Number of open brackets behind the word ahead, if they are `depth` before it.  Where none is
open none can be closed. -/
def openBehind (c : Cursor) (depth : Nat) : Option Nat :=
  if c.opens?.isSome then some (depth + 1)
  else if c.closes?.isSome then depth.ppred
  else some depth

/-- The loop, with a count that is lowered only where it is not zero: it fails where it would have
to be lowered below. -/
def skipChecked (bracketed : Bool) : Nat → Nat → State → Option State
  | 0, _, s => some s
  | n + 1, depth, s =>
    if s.cursor.atEnd then some s
    else if depth = 0 ∧ s.cursor.atLineEnd then some s
    else (openBehind s.cursor depth).bind fun depth =>
      let s := s.advance
      if depth = 0 ∧ (bracketed ∨ 0 < s.cursor.newlines) then some s
      else skipChecked bracketed n depth s

theorem openBehind_eq {c : Cursor} {depth : Nat} (h : ¬(depth = 0 ∧ c.atLineEnd = true)) :
    openBehind c depth = some (if c.opens?.isSome then depth + 1
      else if c.closes?.isSome then depth - 1 else depth) := by
  unfold openBehind
  split_ifs with ho hc
  · rfl
  · obtain ⟨k, rfl⟩ : ∃ k, depth = k + 1 :=
      Nat.exists_eq_succ_of_ne_zero fun h0 => h ⟨h0, by simp [Cursor.atLineEnd, hc]⟩
    rfl
  · rfl

/-- The count of open brackets never has to be lowered below zero. -/
theorem skipChecked_eq (bracketed : Bool) (n depth : Nat) (s : State) :
    skipChecked bracketed n depth s = some (skip bracketed n depth s) := by
  induction n generalizing depth s with
  | zero => rfl
  | succ n ih =>
    unfold skipChecked skip
    by_cases hline : depth = 0 ∧ s.cursor.atLineEnd = true
    · simp only [if_pos hline, ite_self]
    · simp only [if_neg hline, openBehind_eq hline, Option.bind_some, ih]
      simp only [apply_ite some]

end Grammar

/-! ### What is passed over -/

/-- The fault of a piece of trivia as it is reported: what is wrong, and where. -/
def Lexeme.fault? (l : Lexeme) : Option (Problem × Span) :=
  l.error.map fun e => (.lexical e, l.faultSpan e)

/-- What a report says, whatever node it is about. -/
def Report.content (r : Report) : Problem × Span := (r.problem, r.span)

/-- The faults in the gaps behind some lexemes. -/
def Cursor.faultsBehind (passed : List (Lexeme × List Lexeme)) : List (Problem × Span) :=
  passed.flatMap fun x => x.2.filterMap Lexeme.fault?

theorem Cursor.faultsBehind_append (passed passed' : List (Lexeme × List Lexeme)) :
    faultsBehind (passed ++ passed') = faultsBehind passed ++ faultsBehind passed' :=
  List.flatMap_append

namespace State

open Cursor (faultsBehind)

variable {s s' s'' : State}

/-- Whether the lexemes `passed`, each with the gap behind it, are all that lies between two states,
and nothing is reported on the way but the faults in these gaps. -/
structure Passes (s s' : State) (passed : List (Lexeme × List Lexeme)) : Prop where
  /-- The lexemes come first of those ahead. -/
  stages : s.cursor.stages = passed ++ s'.cursor.stages
  /-- The faults are added to the reports. -/
  reports : ∃ added, s'.reports = s.reports ++ added ∧
    added.map Report.content = faultsBehind passed

theorem Passes.refl (s : State) : Passes s s [] := ⟨rfl, [], by simp, rfl⟩

theorem Passes.trans {passed passed' : List (Lexeme × List Lexeme)} (h : Passes s s' passed)
    (h' : Passes s' s'' passed') : Passes s s'' (passed ++ passed') := by
  obtain ⟨added, hadded, hcontent⟩ := h.reports
  obtain ⟨added', hadded', hcontent'⟩ := h'.reports
  refine ⟨by rw [h.stages, h'.stages, List.append_assoc], added ++ added', ?_, ?_⟩
  · rw [hadded', hadded, List.append_assoc]
  · rw [List.map_append, hcontent, hcontent', Cursor.faultsBehind_append]

theorem exists_reports_foldl_reportTrivium (ls : List Lexeme) (s : State) :
    ∃ added, (ls.foldl reportTrivium s).reports = s.reports ++ added ∧
      added.map Report.content = ls.filterMap Lexeme.fault? := by
  induction ls generalizing s with
  | nil => exact ⟨[], by simp, rfl⟩
  | cons l ls ih =>
    obtain ⟨added, hadded, hcontent⟩ := ih (s.reportTrivium l)
    cases he : l.error with
    | none =>
      have hs : s.reportTrivium l = s := by simp [reportTrivium, he]
      refine ⟨added, ?_, ?_⟩
      · rw [List.foldl_cons, hadded, hs]
      · rw [hcontent, List.filterMap_cons_none (by simp [Lexeme.fault?, he])]
    | some e =>
      have hs : (s.reportTrivium l).reports =
          s.reports ++ [⟨.lexical e, l.faultSpan e, s.count⟩] := by
        simp [reportTrivium, reportFault, he, report, alloc]
      refine ⟨⟨.lexical e, l.faultSpan e, s.count⟩ :: added, ?_, ?_⟩
      · rw [List.foldl_cons, hadded, hs, List.append_assoc, List.singleton_append]
      · rw [List.map_cons, hcontent,
          List.filterMap_cons_some (b := (.lexical e, l.faultSpan e)) (by simp [Lexeme.fault?, he])]
        rfl

theorem exists_passes_advance (s : State) : ∃ passed, Passes s s.advance passed := by
  unfold advance
  split
  · exact ⟨[], .refl s⟩
  · rename_i hend
    obtain ⟨l, gap, rest, hstages⟩ := Cursor.exists_stages (Bool.not_eq_true _ ▸ hend)
    obtain ⟨hrest, hgap, -⟩ := Cursor.advance_of_stages hstages
    refine ⟨[(l, gap)], ?_, ?_⟩
    · rw [hstages, cursor_reportGap, hrest, List.singleton_append]
    · simpa [reportGap, hgap, faultsBehind] using exists_reports_foldl_reportTrivium gap
        { s with cursor := s.cursor.advance, claimed := false }

/-- Whether what is ahead is the last part of a document read from a position on. -/
def Within (source : Source) (pos : Nat) (s : State) : Prop :=
  s.cursor.stages <:+ (State.begin source pos).cursor.stages

instance (source : Source) (pos : Nat) (s : State) : Decidable (s.Within source pos) :=
  inferInstanceAs (Decidable (_ <:+ _))

theorem steps_within (source : Source) (pos : Nat) :
    Steps fun s s' => s.Within source pos → s'.Within source pos where
  refl _ := id
  trans h h' := h' ∘ h
  advance s hs := by
    obtain ⟨passed, hpassed⟩ := s.exists_passes_advance
    exact (hpassed.stages ▸ List.suffix_append _ _ : s.advance.cursor.stages <:+ _).trans hs
  alloc _ := id
  report _ _ _ _ := id
  claim s hs := by rwa [Within, cursor_claim]

theorem Within.kind_of_faulty {source : Source} {pos : Nat} (hs : s.Within source pos)
    {passed rest : List (Lexeme × List Lexeme)} (h : s.cursor.stages = passed ++ rest) :
    ∀ x ∈ passed, ∀ l ∈ x.2, l.error ≠ none → l.kind = .comment ∨ l.kind = .badCharacter := by
  intro x hx l hl he
  have hmem := hs.subset (h ▸ List.mem_append_left rest hx)
  rw [begin, cursor_ofLexemes] at hmem
  obtain ⟨hall, htrivia⟩ := Word.trivia_of_mem_stages hmem hl
  rw [Lexeme.all_eq_map] at hall
  obtain ⟨t, ht, rfl⟩ := List.mem_map.1 hall
  exact Token.kind_of_faulty ht htrivia he

end State

namespace Grammar

/-- Skipping passes words, and reports nothing but the faults in the gaps between them. -/
theorem exists_passes_skip (bracketed : Bool) (n depth : Nat) (s : State) :
    ∃ passed, s.Passes (skip bracketed n depth s) passed :=
  skip_of_advance (R := fun s s' => ∃ passed, s.Passes s' passed) (fun s => ⟨[], .refl s⟩)
    (fun ⟨_, h⟩ ⟨_, h'⟩ => ⟨_, h.trans h'⟩) State.exists_passes_advance bracketed n depth s

variable {s : State}

/-! ### What is read -/

/-- Whether reading a part of the grammar from `s` on leaves the brackets around alone. -/
def Part.Enclosed (s : State) : Part → Prop
  | .entry _ => s.cursor.closes? = none
  | .entries ctx _ => ctx = .bracketed
  | _ => True

theorem closes?_of_not_entriesEnd {ctx : Context} (h : ¬s.entriesEnd ctx)
    (hctx : ctx = .bracketed) :
    s.cursor.closes? = none := by
  simpa using fun hc => h (.inr ⟨hctx, hc⟩)

theorem balanced_advance (h : ¬s.cursor.Blocked ∧ s.cursor.opens? = none) :
    Balanced s.cursor s.advance.cursor :=
  State.cursor_advance s ▸ .single h

theorem cursor_unexpected (s : State) : (unexpected s).state.cursor = s.cursor.advance := by
  unfold unexpected
  dsimp only
  split <;> simp

theorem balanced_unexpected (h : ¬s.cursor.Blocked ∧ s.cursor.opens? = none) :
    Balanced s.cursor (unexpected s).state.cursor :=
  cursor_unexpected s ▸ .single h

theorem balanced_behindLabel {l : Lexeme} (h : s.cursor.label? = some l) :
    Balanced s.cursor (s.behindLabel l).cursor :=
  State.cursor_behindLabel s l ▸ .single (Cursor.plain_of_label h)

theorem balanced_promise {l : Lexeme} (h : s.cursor.label? = some l)
    (hp : (s.behindLabel l).promisesSet) :
    Balanced s.cursor (s.behindLabel l).advance.cursor :=
  (balanced_behindLabel h).trans
    (balanced_advance (Cursor.plain_of_isAt hp.1 (by decide) (by decide)))

theorem balanced_tagName {l : Lexeme} (hat : s.cursor.isAt tagMark = true)
    (h : s.advance.cursor.label? = some l) :
    Balanced s.cursor (s.advance.behindLabel l).cursor :=
  (balanced_advance (Cursor.plain_of_isAt hat (by decide) (by decide))).trans
    (balanced_behindLabel h)

theorem behindSet_refused (s : State) (id : Nat) :
    BehindSet s.cursor
      (skip true s.advance.left 1 (s.advance.report .tooDeep s.cursor.span id)).cursor :=
  behindSet_skip (s := s.advance.report .tooDeep s.cursor.span id) (State.cursor_advance s)
    (Nat.le_refl s.advance.left)

theorem behindSet_closed {s' : State} (inside : Balanced s.advance.cursor s'.cursor)
    (hc : s'.cursor.closes?.isSome = true) : BehindSet s.cursor s'.advance.cursor :=
  ⟨s'.cursor, State.cursor_advance s ▸ inside, .inr hc, State.cursor_advance s'⟩

theorem behindSet_open {s' : State} (inside : Balanced s.advance.cursor s'.cursor)
    (he : s'.entriesEnd .bracketed) (hc : s'.cursor.closes? = none) :
    BehindSet s.cursor s'.cursor := by
  have hend : s'.cursor.atEnd = true := he.resolve_right fun h => by simp [hc] at h
  exact ⟨s'.cursor, State.cursor_advance s ▸ inside, .inl hend, (Cursor.advance_of_atEnd hend).symm⟩

/-- Whatever is read, with any number of levels of sets, is read by stepping over words that are no
brackets and over sets from the opening bracket to the one that balances it. -/
theorem Run.balanced {n : Nat} {part : Part} {s : State} {r : Read SetBody} (h : Run n part s r)
    (hs : part.Enclosed s) : Balanced s.cursor r.state.cursor := by
  induction h with
  | namelessTag hat _ =>
    simpa using balanced_advance (Cursor.plain_of_isAt hat (by decide) (by decide))
  | plainTag hat hl _ => simpa using balanced_tagName hat hl
  | tagWithArguments hat hl _ _ ih => simpa using (balanced_tagName hat hl).trans (ih trivial)
  | tagsEnd _ => exact .refl _
  | tagsCons _ _ _ ihFirst ihRest => exact (ihFirst trivial).trans (ihRest trivial)
  | @bracketedRefused id _ s ho => exact (behindSet_refused s id).balanced (by rw [ho]; rfl)
  | bracketedClosed ho _ hc ih =>
    exact (behindSet_closed (ih rfl) (by rw [Read.many_state, hc]; rfl)).balanced (by rw [ho]; rfl)
  | bracketedOpen ho body hc ih =>
    exact (behindSet_open (ih rfl) body.entriesEnd_state hc).balanced (by rw [ho]; rfl)
  | lineMissing _ => exact .refl _
  | @lineRefused id label s hm =>
    have he : s.cursor.atLineEnd = false := Bool.eq_false_iff.2 fun h => hm (.inr h)
    exact (firstLineEnd_skip (s := s.report .tooDeep label id) (Nat.le_refl s.left) he).balanced
  | lineRead _ _ ih => exact ih trivial
  | label hl _ => simpa using balanced_behindLabel hl
  | labeledSet hl hp _ _ _ ih => simpa using (balanced_promise hl hp).trans (ih trivial)
  | labeledLine hl hp _ _ ih => simpa using (balanced_promise hl hp).trans (ih trivial)
  | @unlabeled _ ctx _ s _ _ _ _ _ ih =>
    have hbody := ih trivial
    rw [apply_ite State.cursor] at hbody
    simpa using hbody
  | untaggable _ _ => simpa using Balanced.refl _
  | unexpected _ ho he =>
    exact balanced_unexpected ⟨Cursor.not_blocked_of_atLineEnd he, ho⟩
  | node _ _ ihTags ihBare => exact (ihTags trivial).trans (ihBare trivial)
  | entry _ ih => exact ih trivial
  | @stray _ ctx s hn _ =>
    -- It is no closing bracket, so the line ends with the document or before a separator.
    have hclose : s.cursor.closes? = none := hs
    cases hend : s.cursor.atEnd with
    | true =>
      rw [Read.one_state, cursor_unexpected, Cursor.advance_of_atEnd hend]
      exact .refl _
    | false =>
      refine balanced_unexpected (Cursor.plain_of_separator ?_)
      simpa [Cursor.atLineEnd, hend, hclose] using hn.2.2
  | entriesEnd _ => exact .refl _
  | extraSeparator _ hsep _ ih =>
    exact (balanced_unexpected (Cursor.plain_of_separator hsep)).trans (ih hs)
  | @separated _ ctx pending s e sep r he _ _ hsep _ ihFirst ihRest =>
    refine (ihFirst (closes?_of_not_entriesEnd he hs)).trans (.trans ?_ (ihRest hs))
    have hplain := Cursor.plain_of_separator (c := e.state.cursor) (by rw [hsep]; rfl)
    simpa using balanced_advance hplain
  | @unseparated _ ctx pending s e r he _ _ hsep _ ihFirst ihRest =>
    exact (ihFirst (closes?_of_not_entriesEnd he hs)).trans (ihRest hs)
  | lineLast _ _ ih => exact ih trivial
  | lineCons _ _ _ ihFirst ihRest => exact (ihFirst trivial).trans (ihRest trivial)

/-- A set in brackets is read as a whole, with any number of levels of sets. -/
theorem Run.behindSet {n id : Nat} {opened : Delimiter} {s : State} {r : Read SetBody}
    (h : Run n (.bracketed id opened) s r) : BehindSet s.cursor r.state.cursor := by
  cases h with
  | bracketedRefused _ => exact behindSet_refused s id
  | bracketedClosed _ body hc =>
    exact behindSet_closed (body.balanced rfl) (by rw [hc]; rfl)
  | bracketedOpen _ body hc => exact behindSet_open (body.balanced rfl) body.entriesEnd_state hc

theorem Run.lineEnds_state {n : Nat} {s : State} {r : Read SetBody} (h : Run n .lineEntries s r) :
    r.state.cursor.LineEnds := by
  generalize hpart : Part.lineEntries = part at h
  induction h with
  | lineLast _ he _ => exact he
  | lineCons _ _ _ _ ih => exact ih rfl
  | _ => cases hpart

end Grammar

end Metadoc
