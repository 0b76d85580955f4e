import Metadoc.Proofs.Document.Anchors
import Metadoc.Proofs.Document.Metering

/-!
# Reading comes to an end

Reading stops by itself on every text: each round of a loop reads a word, so the bounds of the loops
and of the recursion are never reached, and the number of sets entered comes back to zero.

* `Meter.Settled` says what a meter shows then, and `Metered.Balanced` that each part of the grammar
  is left with as many sets entered as before;
* `Parse.Ends` says that this is how a document is read;
* `Parse.terminates` : every document is read so, up to its end, and so is the first node of a text,
  up to a place behind where it begins.
-/

namespace Metadoc

open Grammar (maxDepth)

/-! ### Meters -/

namespace Meter

/-- What a meter shows when reading has come to an end. -/
structure Settled (m : Meter) : Prop where
  /-- All sets that have been entered have been left. -/
  depth : m.depth = 0
  /-- The number of sets entered has stayed within its limits. -/
  depths : ∀ d ∈ m.depths, 0 ≤ d ∧ d ≤ maxDepth
  /-- The calls that have to read a word have read one. -/
  calls : ∀ c ∈ m.calls, c.2 < c.1
  /-- No loop has been ended by its bound, nor has the recursion. -/
  exhausted : m.exhausted = false

theorem settled_empty : ({} : Meter).Settled :=
  ⟨rfl, by simp, nofun, rfl⟩

theorem Keeps.settled {s s' : State} {m m' : Meter} (h : Keeps s m s' m') (hm : m.Settled) :
    m'.Settled where
  depth := h.depth.trans hm.depth
  depths d hd := (h.depths d hd).elim (hm.depths d) id
  calls c hc := (h.calls c hc).elim (hm.calls c) id
  exhausted := h.exhausted.trans hm.exhausted

end Meter

namespace Metered

variable {m : Meter} {n : Nat}

/-- Whether every part of the grammar is left with as many sets entered as before. -/
structure Balanced (inner : Levels) (m : Meter) : Prop where
  skip : ∀ bracketed n depth s, (skip bracketed n depth m s).meter.depth = m.depth
  unexpected : ∀ s, (unexpected m s).meter.depth = m.depth
  bracketedSet : ∀ id opened s, (bracketedSet inner id opened m s).meter.depth = m.depth
  lineSet : ∀ id label s, (lineSet inner id label m s).meter.depth = m.depth
  tag : ∀ s, (tag inner m s).meter.depth = m.depth
  tags : ∀ s, (tags inner m s).meter.depth = m.depth
  labeled : ∀ l s, (labeled inner l m s).meter.depth = m.depth
  unlabeled : ∀ ctx tagged opened s,
    (unlabeled inner ctx tagged opened m s).meter.depth = m.depth
  node : ∀ ctx s, ∀ r ∈ node inner ctx m s, r.meter.depth = m.depth
  entries : ∀ ctx s, (entries inner ctx m s).meter.depth = m.depth
  lineEntries : ∀ s, (lineEntries inner m s).meter.depth = m.depth

theorem depth_skip (bracketed : Bool) (n depth : Nat) (m : Meter) (s : State) :
    (skip bracketed n depth m s).meter.depth = m.depth := by
  induction n generalizing depth s with
  | zero => rfl
  | succ n ih =>
    unfold skip
    dsimp only
    split_ifs <;> first | rfl | exact ih _ _

/-- However many sets have been entered, those that a part of the grammar enters it leaves again. -/
theorem balanced_levels (hm : m.HasLeft n) : Balanced (levels n) m := by
  have h : (levels n).Agree n := agree_levels le_rfl
  exact {
    skip := fun bracketed n depth s => depth_skip bracketed n depth m s
    unexpected := fun s => rfl
    bracketedSet := fun id opened s => (agrees_bracketedSet h hm id opened s).keeps.depth
    lineSet := fun id label s => (agrees_lineSet h hm id label s).keeps.depth
    tag := fun s => (agrees_tag h hm s).keeps.depth
    tags := fun s => (agrees_tags h hm s).keeps.depth
    labeled := fun l s => (agrees_labeled h hm l s).keeps.depth
    unlabeled := fun ctx tagged opened s =>
      (agrees_unlabeled h hm ctx tagged opened s).keeps.depth
    node := fun ctx s r hr => by
      have hnode := agrees_node h hm ctx s
      rw [Option.mem_def.1 hr] at hnode
      generalize Grammar.node (Grammar.levels n) ctx s = read at hnode
      cases hnode with
      | some hread => exact hread.keeps.depth
    entries := fun ctx s =>
      (agrees_entriesFrom h ctx none hm (Nat.lt_succ_self _) le_rfl).keeps.depth
    lineEntries := fun s =>
      (agrees_lineEntriesFrom h hm (Nat.lt_succ_self _) le_rfl).keeps.depth }

theorem settled_document (source : Source) : (document source).2.Settled :=
  (agrees_document source).keeps.settled Meter.settled_empty

theorem settled_oneNode (text : Bytes) (pos : Nat) : (oneNode text pos).2.Settled := by
  cases hend : (State.begin ⟨Parse.anonymous, text⟩ pos).cursor.atEnd with
  | true =>
    rw [oneNode_of_atEnd hend]
    exact Meter.settled_empty
  | false =>
    rw [oneNode_of_not_atEnd hend]
    exact (agrees_oneNode hend).keeps.settled Meter.settled_empty

end Metered

/-- A label with a set that is entered and left: the entry inside reads a word, the one around it
all five. -/
example : (Metered.document ⟨"d", Utf8.ofString "a: (b)"⟩).2 =
    { depths := [0, 1, 0], calls := [(2, 1), (5, 0)] } := by decide +kernel

/-! ### The first word -/

theorem Token.le_start_of_mem_all {text : Bytes} {pos : Nat} {t : Token} (h : t ∈ all text pos) :
    pos ≤ t.start := by
  have hle : min pos text.length ≤ t.start := le_start_of_mem_allFrom h
  have hlt := start_lt_of_mem_all h
  omega

theorem State.lexeme?_begin (source : Source) (pos : Nat) :
    (begin source pos).cursor.lexeme?.map Lexeme.toToken =
      (Token.all source.bytes pos).find? (!·.isTrivia) := by
  have hhead := Word.head?_stages (Lexeme.all source pos) []
  rw [← Word.split, ← stages_begin, ← Cursor.lexeme?_eq_stages, Lexeme.all_eq_map,
    List.find?_map] at hhead
  rw [hhead, Option.map_map]
  exact congrFun Option.map_id _

namespace Parse

theorem stop_document (source : Source) : (document source).stop = source.length := by
  have hrun := Grammar.run_entries maxDepth .top (State.begin source 0).alloc.state
  have hend := hrun.entriesEnd_state.resolve_right fun h => absurd h.1 (by decide)
  exact (Cursor.pos_of_atEnd hend).trans
    (hrun.reaches.length.trans (State.length_begin source))

theorem stop_oneNode (text : Bytes) (pos : Nat) :
    match (Token.all text pos).find? (!·.isTrivia) with
    | none => (oneNode text pos).root = none ∧ (oneNode text pos).stop = text.length
    | some t => (oneNode text pos).root.isSome = true ∧ pos ≤ t.start ∧
        t.start < (oneNode text pos).stop := by
  let s := State.begin ⟨anonymous, text⟩ pos
  have hlength : s.cursor.length = text.length := by
    simp only [s, State.begin, State.cursor_ofLexemes]
    rfl
  have hfirst := State.lexeme?_begin ⟨anonymous, text⟩ pos
  rw [← hfirst]
  cases hend : s.cursor.atEnd with
  | true =>
    have hnone : s.cursor.lexeme? = none := by
      rw [Cursor.lexeme?, Cursor.word?, List.isEmpty_iff.1 hend]
      rfl
    rw [hnone, oneNode_of_atEnd hend]
    exact ⟨rfl, (Cursor.pos_of_atEnd hend).trans hlength⟩
  | false =>
    obtain ⟨l, hl⟩ := Cursor.exists_lexeme hend
    rw [hl, Option.map_some] at hfirst
    have hmem := List.mem_of_find?_eq_some hfirst.symm
    rw [hl, oneNode_of_not_atEnd hend]
    have hbehind := (behind_entry (s := s) List.suffix_rfl hlength hend).2.2.2
    rw [Cursor.pos, Cursor.span_of_lexeme hl] at hbehind
    exact ⟨rfl, Token.le_start_of_mem_all hmem, hbehind⟩

/-- Whether a parse is what is read along with a meter that settles, without ever lacking a word. -/
structure Ends (p : Parse) (g : Parse × Meter) : Prop where
  /-- It is what is read along with a meter. -/
  read : g.1 = p
  /-- The meter settles. -/
  settled : g.2.Settled
  /-- That the document ends where something has to come is never reported. -/
  lacksNothing : ∀ d ∈ p.diagnostics, d.message ≠ Problem.unexpectedEnd.message

theorem ReportsFit.lacksNothing {p : Parse} (h : p.ReportsFit) :
    ∀ d ∈ p.diagnostics, d.message ≠ Problem.unexpectedEnd.message := by
  intro d hd hmessage
  obtain ⟨r, hr, rfl⟩ := List.mem_map.1 hd
  obtain ⟨data, -, hfits⟩ := h r hr
  have hp : r.problem = .unexpectedEnd := Problem.eq_of_message (by decide) hmessage
  rw [Report.Fits, hp] at hfits
  exact hfits

/-- Reading ends on every text.  No bound is ever reached, since each entry and each unexpected word
takes a word of the text, and sets are left as often as they are entered, by every part of the
grammar, never more than `maxDepth` of them being entered at a time.  A whole document is read up to
its end.  The first node of a text from a position on ends behind where the first word begins there;
where there is none, nothing is found up to the end. -/
theorem terminates (path : String) (text : Bytes) (pos : Nat) :
    (document ⟨path, text⟩).Ends (Metered.document ⟨path, text⟩) ∧
      (document ⟨path, text⟩).stop = text.length ∧
      (oneNode text pos).Ends (Metered.oneNode text pos) ∧
      (match (Token.all text pos).find? (!·.isTrivia) with
        | none => (oneNode text pos).root = none ∧ (oneNode text pos).stop = text.length
        | some t => (oneNode text pos).root.isSome = true ∧ pos ≤ t.start ∧
            t.start < (oneNode text pos).stop) ∧
      ∀ (depth : Fin (maxDepth + 1)) (m : Meter),
        Metered.Balanced (Metered.levels (maxDepth - depth)) { m with depth := depth } := by
  refine ⟨⟨Metered.document_fst _, Metered.settled_document _, ?_⟩, stop_document _,
    ⟨Metered.oneNode_fst text pos, Metered.settled_oneNode text pos, ?_⟩, stop_oneNode text pos,
    fun depth m => Metered.balanced_levels ⟨Int.natCast_nonneg _, ?_⟩⟩
  · exact (reportsFit_document _).lacksNothing
  · exact (reportsFit_oneNode text pos).lacksNothing
  · have := depth.isLt
    dsimp only
    omega

end Parse

end Metadoc
