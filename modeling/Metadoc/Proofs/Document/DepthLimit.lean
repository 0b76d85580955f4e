import Metadoc.Proofs.Document.Skipping

/-!
# Where reading goes on behind a set that is too deep

Sets nest up to `Grammar.maxDepth` levels.  Behind a set that is deeper, reading goes on where it
would if there were no limit, if the set is in brackets.  Behind a set without brackets it goes on
at the first end of a line, which is where the set ends unless one of its entries goes on in the
next line.

* `Grammar.Run.with_room` : as many levels as there are words ahead are as good as no limit;
* `Grammar.countedSet` : sets in brackets, with the number of sets around as a counter;
* `Grammar.bracketedSet_resumes`, `Grammar.lineSet_resumes` : what is left of a set that is too
  deep, and where reading goes on.
-/

namespace Metadoc

open Cursor (Balanced BehindSet FirstLineEnd)

namespace Grammar

variable {s : State}

/-! ### No limit -/

/-- A number of levels that is enough for a part of the grammar read from `s` on.  Each set has a
word of its own, but for one without brackets whose label has been read. -/
def Part.room (s : State) : Part → Nat
  | .line .. => s.left + 1
  | _ => s.left

/-- With enough levels no set is too deep, and what is read does not depend on their number. -/
theorem Run.with_room {n : Nat} {part : Part} {s : State} {r : Read SetBody} (h : Run n part s r)
    (hn : part.room s ≤ n) : ∀ {m : Nat}, part.room s ≤ m → Run m part s r := by
  -- A set takes a level and at least a word, so there are enough for what is inside.
  induction h with
  | namelessTag hat hl => exact fun _ => .namelessTag hat hl
  | plainTag hat hl hargs => exact fun _ => .plainTag hat hl hargs
  | @tagWithArguments n s l r hat hl hargs args ih =>
    intro m hm
    have hle : (s.advance.behindLabel l).left ≤ s.left :=
      (left_behindLabel hl).le.trans (State.left_advance_le s)
    exact .tagWithArguments hat hl hargs (ih (hle.trans hn) (hle.trans hm))
  | tagsEnd hat => exact fun _ => .tagsEnd hat
  | tagsCons hat first rest ihFirst ihRest =>
    intro m hm
    have hle := first.progress.1
    exact .tagsCons hat (ihFirst hn hm) (ihRest (hle.trans hn) (hle.trans hm))
  | bracketedRefused ho =>
    have hend := State.atEnd_of_left_eq_zero (Nat.le_zero.1 hn)
    simp [Cursor.atEnd_of_opens ho] at hend
  | bracketedClosed ho body hc ih =>
    intro m hm
    have hlt := State.left_advance_lt (Cursor.atEnd_of_opens ho)
    obtain ⟨m, rfl⟩ := Nat.exists_eq_add_of_le' (Nat.one_le_of_lt (hlt.trans_le hm))
    have hbody := ih (Nat.le_of_lt_succ (hlt.trans_le hn)) (Nat.le_of_lt_succ (hlt.trans_le hm))
    exact .bracketedClosed ho hbody hc
  | bracketedOpen ho body hc ih =>
    intro m hm
    have hlt := State.left_advance_lt (Cursor.atEnd_of_opens ho)
    obtain ⟨m, rfl⟩ := Nat.exists_eq_add_of_le' (Nat.one_le_of_lt (hlt.trans_le hm))
    have hbody := ih (Nat.le_of_lt_succ (hlt.trans_le hn)) (Nat.le_of_lt_succ (hlt.trans_le hm))
    exact .bracketedOpen ho hbody hc
  | lineMissing hm => exact fun _ => .lineMissing hm
  | lineRefused hm => exact absurd hn (Nat.not_succ_le_zero _)
  | lineRead hmissing body ih =>
    intro m hm
    obtain ⟨m, rfl⟩ := Nat.exists_eq_add_of_le' (Nat.le_trans (Nat.le_add_left 1 _) hm)
    exact .lineRead hmissing (ih (Nat.le_of_succ_le_succ hn) (Nat.le_of_succ_le_succ hm))
  | label hl hp => exact fun _ => .label hl hp
  | labeledSet hl hp ho hnl body ih =>
    intro m hm
    have hle := (State.left_advance_le _).trans (left_behindLabel hl).le
    exact .labeledSet hl hp ho hnl (ih (hle.trans hn) (hle.trans hm))
  | labeledLine hl hp ho body ih =>
    intro m hm
    have hlt := (State.left_advance_le _).trans_lt (left_behindLabel hl)
    exact .labeledLine hl hp ho (ih (hlt.trans_le hn) (hlt.trans_le hm))
  | @unlabeled _ ctx tags s _ _ hl ho body ih =>
    intro m hm
    have hleft : (if ctx = .line then
        s.alloc.state.report (.unlabeledSet (!tags.isEmpty)) s.cursor.span s.count
      else s.alloc.state).left = s.left := by split <;> rfl
    exact .unlabeled hl ho (ih (hleft.trans_le hn) (hleft.trans_le hm))
  | untaggable hs ht => exact fun _ => .untaggable hs ht
  | unexpected hl ho he => exact fun _ => .unexpected hl ho he
  | node tags bare ihTags ihBare =>
    intro m hm
    have hle := tags.progress.1
    exact .node (ihTags hn hm) (ihBare (hle.trans hn) (hle.trans hm))
  | entry _ ih => exact fun hm => .entry (ih hn hm)
  | stray hs hat => exact fun _ => .stray hs hat
  | entriesEnd he => exact fun _ => .entriesEnd he
  | @extraSeparator _ _ _ s _ he hs rest ih =>
    intro m hm
    have hle := (unexpected_reaches s).left_le
    exact .extraSeparator he hs (ih (hle.trans hn) (hle.trans hm))
  | @separated _ _ pending _ e sep r he hs first hsep rest ihFirst ihRest =>
    intro m hm
    have hfollow := (follow_reaches sep (precede pending e.value) e.state).left_le
    have hle := hfollow.trans first.progress.1
    exact .separated he hs (ihFirst hn hm) hsep (ihRest (hle.trans hn) (hle.trans hm))
  | unseparated he hs first hsep rest ihFirst ihRest =>
    intro m hm
    have hle := first.progress.1
    exact .unseparated he hs (ihFirst hn hm) hsep (ihRest (hle.trans hn) (hle.trans hm))
  | lineLast _ he ih => exact fun hm => .lineLast (ih hn hm) he
  | lineCons first he rest ihFirst ihRest =>
    intro m hm
    have hle := first.progress.1
    exact .lineCons (ihFirst hn hm) he (ihRest (hle.trans hn) (hle.trans hm))

theorem bracketedSet_unlimited {opened : Delimiter} (ho : s.cursor.opens? = some opened) (id : Nat)
    {n : Nat} (hn : s.left ≤ n) :
    bracketedSet (levels n) id opened s = bracketedSet (levels s.left) id opened s :=
  ((run_bracketedSet (soundBelow s.left) id ho).with_room (Nat.le_refl s.left) hn).yields

theorem lineSet_unlimited (s : State) (id : Nat) (label : Span) {n : Nat} (hn : s.left < n) :
    lineSet (levels n) id label s = lineSet (levels (s.left + 1)) id label s :=
  have hrun := run_lineSet (soundBelow (s.left + 1)) id label s
  (hrun.with_room (Nat.le_refl (s.left + 1)) hn).yields

/-! ### Sets in brackets -/

/-- Number of sets around the contents of one more set, if there may be one more. -/
def enterSet (depth : Nat) : Option Nat := if maxDepth ≤ depth then none else some (depth + 1)

/-- Number of sets around what follows a set. -/
def leaveSet (depth : Nat) : Nat := depth - 1

/-- Reads a set in brackets with `depth` sets around it, and counts them: one more around the
contents, if there may be, and as many as before behind the set. -/
def countedSet (id : Nat) (opened : Delimiter) (depth : Nat) (s : State) : Read SetBody × Nat :=
  match enterSet depth with
  | none => (bracketedSet none id opened s, depth)
  | some inside => (bracketedSet (levels (maxDepth - inside + 1)) id opened s, leaveSet inside)

/-- The number of levels left is what is missing in the number of sets around, which is the same
before and behind a set. -/
theorem countedSet_eq (id : Nat) (opened : Delimiter) (depth : Nat) (s : State) :
    countedSet id opened depth s =
      (bracketedSet (levels (maxDepth - depth)) id opened s, depth) := by
  unfold countedSet enterSet
  by_cases h : maxDepth ≤ depth
  · rw [if_pos h, Nat.sub_eq_zero_of_le h]
    rfl
  · have hleft : maxDepth - (depth + 1) + 1 = maxDepth - depth := by omega
    simp only [if_neg h, hleft, leaveSet, Nat.add_sub_cancel]

/-- What is left of the set in brackets at `s`, of the node `id`, if it is too deep, and where
reading goes on. -/
structure Resumes (s : State) (id : Nat) (opened : Delimiter) (r : Read SetBody) : Prop where
  /-- The set is refused. -/
  value : r.value = { opened := some opened, refused := true }
  /-- The count of open brackets never has to be lowered below zero. -/
  count : skipChecked true s.advance.left 1 (s.advance.report .tooDeep s.cursor.span id) =
    some r.state
  /-- Reading goes on behind the set. -/
  behind : BehindSet s.cursor r.state.cursor
  /-- It goes on in the same place for any number of levels. -/
  place : ∀ n, (bracketedSet (levels n) id opened s).state.cursor = r.state.cursor
  /-- One report says that the set is too deep, the others are about the faults of comments and of
  bad characters in what is passed. -/
  reports : ∃ passed before after,
    s.cursor.stages = passed ++ r.state.cursor.stages ∧
      r.state.reports = s.reports ++ before ++ [⟨.tooDeep, s.cursor.span, id⟩] ++ after ∧
      (before ++ after).map Report.content = Cursor.faultsBehind passed ∧
      ∀ x ∈ passed, ∀ l ∈ x.2, l.error ≠ none → l.kind = .comment ∨ l.kind = .badCharacter

/-- With all levels around it, a set in brackets is refused, and reading goes on where it would if
there were no limit: there is the bracket that balances the opening one, or the end of the document.
The number of sets around is as before. -/
theorem bracketedSet_resumes {source : Source} {pos : Nat} {s : State} (hs : s.Within source pos)
    {opened : Delimiter} (ho : s.cursor.opens? = some opened) (id : Nat) :
    let r := countedSet id opened maxDepth s
    r.2 = maxDepth ∧ Resumes s id opened r.1 ∧
      ∀ n, s.left ≤ n →
        bracketedSet (levels n) id opened s = bracketedSet (levels s.left) id opened s := by
  have hrun (n : Nat) : BehindSet s.cursor (bracketedSet (levels n) id opened s).state.cursor :=
    (run_bracketedSet (soundBelow n) id ho).behindSet
  rw [countedSet_eq, Nat.sub_self]
  refine ⟨rfl, ?_, fun n hn => bracketedSet_unlimited ho id hn⟩
  refine ⟨rfl, skipChecked_eq .., hrun 0, fun n => (hrun 0).unique (hrun n), ?_⟩
  -- The report of the refusal stands between the faults behind the opening bracket and the others.
  obtain ⟨passed, hpassed⟩ := s.exists_passes_advance
  obtain ⟨passed', hpassed'⟩ := exists_passes_skip true s.advance.left 1
    (s.advance.report .tooDeep s.cursor.span id)
  obtain ⟨before, hbefore, hcontent⟩ := hpassed.reports
  obtain ⟨after, hafter, hcontent'⟩ := hpassed'.reports
  have hstages : s.cursor.stages = passed ++ passed' ++
      (bracketedSet (levels 0) id opened s).state.cursor.stages := by
    rw [hpassed.stages, List.append_assoc]
    exact congrArg (passed ++ ·) hpassed'.stages
  refine ⟨passed ++ passed', before, after, hstages, ?_, ?_, hs.kind_of_faulty hstages⟩
  · rw [← hbefore]
    exact hafter
  · rw [List.map_append, hcontent, hcontent', Cursor.faultsBehind_append]

/-- Any bracket closes any other, and what is faulty between them is reported. -/
theorem bracketedSet_resumes_mixed :
    let source : Source := ⟨"d", Utf8.ofString "(a: [b \x01\x7d @ ; c) d"⟩
    let s := State.begin source 0
    s.Within source 0 ∧ s.cursor.opens? = some .paren ∧
      let r := countedSet 1 .paren maxDepth s
      r.2 = maxDepth ∧ Resumes s 1 .paren r.1 ∧
        ∀ n, s.left ≤ n →
          bracketedSet (levels n) 1 .paren s = bracketedSet (levels s.left) 1 .paren s :=
  ⟨List.suffix_rfl, by decide +kernel, bracketedSet_resumes List.suffix_rfl (by decide +kernel) 1⟩

/-! ### Sets without brackets -/

theorem Run.behindLine {n id : Nat} {label : Span} {s : State} {r : Read SetBody}
    (h : Run (n + 1) (.line id label) s r) (hm : ¬s.contentMissing) :
    Balanced s.cursor r.state.cursor ∧ r.state.cursor ≠ s.cursor ∧ r.state.cursor.LineEnds := by
  cases h with
  | lineMissing hmissing => exact absurd hmissing hm
  | lineRead _ body =>
    refine ⟨body.balanced trivial, fun hc => ?_, body.lineEnds_state⟩
    exact absurd (congrArg (·.ahead.length) hc) (body.progress.2 trivial).ne

/-- A set without brackets that is too deep is skipped up to the first place behind where a line
ends outside all brackets.  Reading its entries leads there or further on, since an entry may go on
behind the end of a line, and with any number of levels that is enough it leads to the same place.
Both places are one just if no line ends outside all brackets before the second. -/
theorem lineSet_resumes {s : State} (hm : ¬s.contentMissing) (id : Nat) (label : Span) :
    let skipped := (lineSet (levels 0) id label s).state.cursor
    let read := (lineSet (levels (s.left + 1)) id label s).state.cursor
    FirstLineEnd s.cursor skipped ∧ Balanced skipped read ∧ read.LineEnds ∧
      (skipped = read ↔ ∀ c, Balanced s.cursor c → Balanced c read → c ≠ s.cursor →
        c.LineEnds → c = read) ∧
      ∀ n, s.left < n →
        lineSet (levels n) id label s = lineSet (levels (s.left + 1)) id label s := by
  have he : s.cursor.atLineEnd = false := Bool.eq_false_iff.2 fun h => hm (.inr h)
  have hskipped : lineSet (levels 0) id label s =
      ⟨{ refused := true }, skip false s.left 0 (s.report .tooDeep label id)⟩ := if_neg hm
  have hfirst : FirstLineEnd s.cursor (lineSet (levels 0) id label s).state.cursor := by
    rw [hskipped]
    exact firstLineEnd_skip (s := s.report .tooDeep label id) (Nat.le_refl s.left) he
  obtain ⟨hbalanced, hne, hends⟩ := (run_lineSet (soundBelow (s.left + 1)) id label s).behindLine hm
  have hbehind := hfirst.balanced_of_ends hbalanced hne hends
  exact ⟨hfirst, hbehind, hends, hfirst.eq_iff hbehind,
    fun n hn => lineSet_unlimited s id label hn⟩

/-- Two entries on one line are skipped and read up to the same place. -/
theorem lineSet_resumes_oneLine :
    let s := State.begin ⟨"d", Utf8.ofString "b: \x7bc\nd\x7d e\nf"⟩ 0
    ¬s.contentMissing ∧
      let skipped := (lineSet (levels 0) 1 ⟨0, 0⟩ s).state.cursor
      let read := (lineSet (levels (s.left + 1)) 1 ⟨0, 0⟩ s).state.cursor
      FirstLineEnd s.cursor skipped ∧ Balanced skipped read ∧ read.LineEnds ∧
        (skipped = read ↔ ∀ c, Balanced s.cursor c → Balanced c read → c ≠ s.cursor →
          c.LineEnds → c = read) ∧
        ∀ n, s.left < n →
          lineSet (levels n) 1 ⟨0, 0⟩ s = lineSet (levels (s.left + 1)) 1 ⟨0, 0⟩ s :=
  ⟨by decide +kernel, lineSet_resumes (by decide +kernel) 1 ⟨0, 0⟩⟩

/-- A document with a label inside all levels of sets, whose content goes on in the next line. -/
def overlong : Source :=
  ⟨"d", List.replicate maxDepth Delimiter.paren.openByte ++ Utf8.ofString " a: b:\nc d " ++
    List.replicate maxDepth Delimiter.paren.closeByte⟩

/-- The state inside all levels of sets, behind the label and its colon. -/
def overlongContent : State := State.advance^[maxDepth + 2] (.begin overlong 0)

/-- Behind such a label, reading does not go on where it would if there were no limit: the content
of the inner label is taken for entries of the set around. -/
theorem lineSet_resumes_early :
    ¬∀ (s : State) (id : Nat) (label : Span), ¬s.contentMissing → s.Within overlong 0 →
      (lineSet (levels 0) id label s).state.cursor =
        (lineSet (levels (s.left + 1)) id label s).state.cursor := by
  intro h
  have heq := h overlongContent 1 ⟨0, 0⟩ (by decide +kernel) (by decide +kernel)
  revert heq
  decide +kernel

end Grammar

end Metadoc
