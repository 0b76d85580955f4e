import Metadoc.Proofs.Document.Numbering
import Metadoc.Proofs.Forest.Linked
import Metadoc.Proofs.Token.Faults

/-!
# No reports, no faults

A document without reports has nothing to report.

* `State.Checks s s'` says that the words between two states, and the gaps beside them, are without
  fault;
* `Tree.Sound` says that of a node, and `Tree.Flawless` of everything in a tree;
* `Grammar.Run.flawless` : what is read without a report is without fault;
* `Parse.document_flawless` : a document without diagnostics is `Parse.Flawless`.
-/

namespace Metadoc

/-! ### Words without fault -/

/-- Whether the faults of a word are those that are recorded on its lexemes. -/
structure Word.Regular (w : Word) : Prop where
  /-- Trivia without a recorded fault are clean. -/
  gap : ∀ l ∈ w.gap, l.error = none → l.Clean
  /-- Symbols have no fault. -/
  symbol : w.lexeme.kind = .symbol → w.lexeme.error = none

namespace State

/-- Whether the gap here is clean, and the faults ahead are those that are recorded. -/
structure Ready (s : State) : Prop where
  /-- The words ahead have no faults but recorded ones. -/
  ahead : ∀ w ∈ s.cursor.ahead, w.Regular
  /-- The trivia at the end of the document have no faults but recorded ones. -/
  tail : ∀ l ∈ s.cursor.tail, l.error = none → l.Clean
  /-- The gap before the word ahead is clean. -/
  gap : ∀ l ∈ s.cursor.gap, l.Clean

/-- The words between two states and the gaps beside them are clean. -/
structure Checks (s s' : State) : Prop where
  /-- The gap behind is clean. -/
  ready : s'.Ready
  /-- The words between are clean, with the gaps before them. -/
  words : ∃ ws, s.cursor.ahead = ws ++ s'.cursor.ahead ∧ ∀ w ∈ ws, ∀ l ∈ w.lexemes, l.Clean
  /-- The trivia at the end of the document are the same. -/
  tail : s'.cursor.tail = s.cursor.tail

variable {s s' s'' : State}

theorem Ready.of_cursor_eq (h : s.Ready) (hc : s'.cursor = s.cursor) : s'.Ready :=
  ⟨hc ▸ h.ahead, hc ▸ h.tail, hc ▸ h.gap⟩

namespace Checks

theorem of_cursor_eq (h : s.Ready) (hc : s'.cursor = s.cursor) : s.Checks s' :=
  ⟨h.of_cursor_eq hc, ⟨[], by rw [hc, List.nil_append], by simp⟩, by rw [hc]⟩

theorem trans (h : s.Checks s') (h' : s'.Checks s'') : s.Checks s'' := by
  obtain ⟨-, ⟨ws, hws, hclean⟩, htail⟩ := h
  obtain ⟨hready, ⟨ws', hws', hclean'⟩, htail'⟩ := h'
  refine ⟨hready, ⟨ws ++ ws', by rw [hws, hws', List.append_assoc], fun w hw => ?_⟩,
    htail'.trans htail⟩
  rcases List.mem_append.1 hw with hw | hw
  · exact hclean w hw
  · exact hclean' w hw

theorem trans_cursor (h : s.Checks s') (hc : s''.cursor = s'.cursor) : s.Checks s'' :=
  h.trans (.of_cursor_eq h.ready hc)

end Checks

/-! ### Reports of the lexer -/

theorem error_of_reports_foldl {ls : List Lexeme} :
    ∀ {s : State}, (ls.foldl reportTrivium s).reports = [] → ∀ l ∈ ls, l.error = none := by
  induction ls with
  | nil => intro s _ l hl; cases hl
  | cons m ls ih =>
    intro s h l hl
    rcases List.mem_cons.1 hl with rfl | hl
    · have hquiet := (grows_foldl_reportTrivium ls _).reports_eq_nil h
      cases he : l.error with
      | none => rfl
      | some e => simp [reportTrivium, reportFault, he, report] at hquiet
    · exact ih h l hl

theorem error_of_reports_reportGap (h : s.reportGap.reports = []) :
    ∀ l ∈ s.cursor.gap, l.error = none :=
  error_of_reports_foldl h

theorem clean_of_reports_reportLabel {l : Lexeme} {node : Nat}
    (h : (s.reportLabel l node).reports = []) : l.Clean := by
  unfold reportLabel at h
  dsimp only at h
  split at h
  · rename_i hspan
    refine ⟨?_, .inr (Utf8.isValid_of_firstInvalid? (Option.map_eq_none_iff.1 hspan))⟩
    cases he : l.error with
    | none => rfl
    | some e => simp [reportFault, he, report] at h
  · simp [report] at h

theorem Ready.advance {l : Lexeme} (h : s.Ready) (hl : s.cursor.lexeme? = some l) (hc : l.Clean)
    (hquiet : s.advance.reports = []) : s.Checks s.advance := by
  obtain ⟨w, rest, hw, rfl⟩ := Cursor.exists_ahead_of_lexeme hl
  have hahead : s.advance.cursor.ahead = rest := by
    rw [cursor_advance, Cursor.ahead_advance hw]
  have htail : s.advance.cursor.tail = s.cursor.tail := by
    rw [cursor_advance]
    simp [Cursor.advance, hw]
  have herror : ∀ l ∈ s.advance.cursor.gap, l.error = none := by
    rw [cursor_advance]
    unfold State.advance at hquiet
    rw [if_neg (by simp [Cursor.atEnd, hw])] at hquiet
    exact error_of_reports_reportGap hquiet
  have hregular : ∀ x ∈ rest, x.Regular := fun x hx => h.ahead x (hw ▸ List.mem_cons_of_mem w hx)
  refine ⟨⟨hahead ▸ hregular, htail ▸ h.tail, fun l hl => ?_⟩,
    ⟨[w], by rw [hahead, hw]; rfl, ?_⟩, htail⟩
  · cases hrest : rest with
    | nil =>
      have hgap : s.advance.cursor.gap = s.cursor.tail := by
        simp only [Cursor.gap, hahead, hrest, htail]
      exact h.tail l (hgap ▸ hl) (herror l hl)
    | cons x rest' =>
      have hgap : s.advance.cursor.gap = x.gap := by simp only [Cursor.gap, hahead, hrest]
      exact (hregular x (hrest ▸ List.mem_cons_self)).gap l (hgap ▸ hl) (herror l hl)
  · intro x hx l hl
    cases List.mem_singleton.1 hx
    rcases List.mem_append.1 hl with hl | hl
    · have hgap : s.cursor.gap = w.gap := by simp only [Cursor.gap, hw]
      exact h.gap l (hgap ▸ hl)
    · rwa [List.mem_singleton.1 hl]

theorem Ready.symbol {b : UInt8} (h : s.Ready) (hb : s.cursor.symbol? = some b) (hlt : b < 0x80)
    (hquiet : s.advance.reports = []) : s.Checks s.advance := by
  obtain ⟨l, hl, hsymbol⟩ := Option.bind_eq_some_iff.1 hb
  refine h.advance hl ⟨?_, .inr ?_⟩ hquiet
  · obtain ⟨w, rest, hw, rfl⟩ := Cursor.exists_ahead_of_lexeme hl
    refine (h.ahead w (hw ▸ List.mem_cons_self)).symbol ?_
    unfold Token.symbol? at hsymbol
    split at hsymbol
    · assumption
    · cases hsymbol
  · rw [Token.bytes_of_symbol hsymbol]
    exact Utf8.isValid_of_ascii (by simpa using hlt)

theorem Ready.tagMark (h : s.Ready) (hat : s.cursor.isAt tagMark = true)
    (hquiet : s.advance.reports = []) : s.Checks s.advance :=
  h.symbol (of_decide_eq_true hat) (by decide) hquiet

theorem Ready.opens {d : Delimiter} (h : s.Ready) (ho : s.cursor.opens? = some d)
    (hquiet : s.advance.reports = []) : s.Checks s.advance := by
  obtain ⟨b, hb, hd⟩ := Option.bind_eq_some_iff.1 ho
  refine h.symbol hb ?_ hquiet
  rw [Delimiter.ofOpen?_eq_some hd]
  cases d <;> decide

theorem Ready.closes {d : Delimiter} (h : s.Ready) (hc : s.cursor.closes? = some d)
    (hquiet : s.advance.reports = []) : s.Checks s.advance := by
  obtain ⟨b, hb, hd⟩ := Option.bind_eq_some_iff.1 hc
  refine h.symbol hb ?_ hquiet
  rw [Delimiter.ofClose?_eq_some hd]
  cases d <;> decide

theorem Ready.separator {sep : Separator} (h : s.Ready) (hs : s.cursor.separator? = some sep)
    (hquiet : s.advance.reports = []) : s.Checks s.advance := by
  obtain ⟨b, hb, hsep⟩ := Option.bind_eq_some_iff.1 hs
  refine h.symbol hb ?_ hquiet
  rw [Separator.ofByte?_eq_some hsep]
  cases sep <;> decide

theorem Ready.behindLabel {l : Lexeme} (h : s.Ready) (hl : s.cursor.label? = some l)
    (hquiet : (s.behindLabel l).reports = []) : s.Checks (s.behindLabel l) := by
  have hclean : l.Clean := clean_of_reports_reportLabel hquiet
  have hadvance : s.alloc.state.advance.reports = [] :=
    (grows_reportLabel _ l s.count).reports_eq_nil hquiet
  have hready : s.alloc.state.Ready := h.of_cursor_eq rfl
  have hlexeme : s.alloc.state.cursor.lexeme? = some l := (Option.filter_eq_some_iff.1 hl).1
  have hbehind : s.alloc.state.Checks (s.behindLabel l) :=
    (hready.advance hlexeme hclean hadvance).trans_cursor (by simp)
  have hid : s.Checks s.alloc.state := .of_cursor_eq h rfl
  exact hid.trans hbehind

/-- The at sign and the name of a tag are clean if nothing is reported up to there. -/
theorem Ready.tagName {l : Lexeme} (h : s.Ready) (hat : s.cursor.isAt Metadoc.tagMark = true)
    (hl : s.advance.cursor.label? = some l) (hquiet : (s.advance.behindLabel l).reports = []) :
    s.Checks (s.advance.behindLabel l) := by
  have hmark := h.tagMark hat ((grows_behindLabel ..).reports_eq_nil hquiet)
  exact hmark.trans (hmark.ready.behindLabel hl hquiet)

theorem Ready.promise {l : Lexeme} (h : s.Ready) (hl : s.cursor.label? = some l)
    (hp : (s.behindLabel l).promisesSet) (hquiet : (s.behindLabel l).advance.reports = []) :
    s.Checks (s.behindLabel l).advance := by
  have hlabel := h.behindLabel hl ((grows_advance _).reports_eq_nil hquiet)
  exact hlabel.trans (hlabel.ready.symbol (of_decide_eq_true hp.1) (by decide) hquiet)

end State

/-! ### Trees without fault -/

namespace Tree

/-- Whether a node is what it should be. -/
structure Sound (t : Tree) : Prop where
  /-- The node is no stand-in for text that could not be read. -/
  kind : t.data.kind ≠ .error
  /-- A set that is opened is closed. -/
  closed : t.data.facets.opened.isSome = true → t.data.facets.closed.isSome = true
  /-- The entries of a set without brackets have labels. -/
  labeled : t.data.facets.literal.isSome = true → t.children ≠ [] →
    t.data.facets.opened = none → ∀ c ∈ t.children, c.data.facets.literal.isSome = true

/-- Whether every node of a tree is what it should be. -/
def Flawless (t : Tree) : Prop := ∀ x ∈ t.preorder, x.Sound

/-- Whether every node of several trees is what it should be. -/
def FlawlessAll (ts : List Tree) : Prop := ∀ x ∈ preorderAll ts, x.Sound

theorem flawlessAll_nil : FlawlessAll [] := nofun

theorem flawlessAll_cons {t : Tree} {ts : List Tree} :
    FlawlessAll (t :: ts) ↔ t.Flawless ∧ FlawlessAll ts := by
  simp [FlawlessAll, Flawless, preorderAll, or_imp, forall_and]

theorem flawless_iff {t : Tree} :
    t.Flawless ↔ t.Sound ∧ FlawlessAll t.tags ∧ FlawlessAll t.children := by
  cases t
  simp [FlawlessAll, Flawless, preorder, or_imp, forall_and, tags, children]

theorem flawlessAll_singleton {t : Tree} : FlawlessAll [t] ↔ t.Flawless := by
  rw [flawlessAll_cons]
  exact and_iff_left flawlessAll_nil

end Tree

/-- Whether a set is what it should be. -/
structure SetBody.Sound (b : SetBody) : Prop where
  /-- The entries are flawless. -/
  children : Tree.FlawlessAll b.children
  /-- The set was not too deep. -/
  refused : b.refused = false
  /-- A set that is opened is closed. -/
  closed : b.opened.isSome = true → b.closed.isSome = true
  /-- The entries of a set without brackets have labels. -/
  labeled : b.opened = none → ∀ c ∈ b.children, c.data.facets.literal.isSome = true

theorem SetBody.sound_empty : ({} : SetBody).Sound :=
  ⟨Tree.flawlessAll_nil, rfl, nofun, nofun⟩

namespace Grammar

open State (Checks)

/-- What holds of a part of the grammar that is read without a report. -/
def Part.Sound (b : SetBody) : Part → Prop
  | .tag | .tags => Tree.FlawlessAll b.children ∧ ∀ t ∈ b.children, t.data.kind = .tag
  | .bracketed .. | .line .. => b.Sound
  | .bare ctx ts => (∀ t ∈ ts, t.data.kind = .tag) → Tree.FlawlessAll b.children ∧
      (ctx = .line → ∀ t ∈ b.children, t.data.facets.literal.isSome = true)
  | .node ctx => Tree.FlawlessAll b.children ∧
      (ctx = .line → ∀ t ∈ b.children, t.data.facets.literal.isSome = true)
  | .entry _ | .entries .. => Tree.FlawlessAll b.children
  | .lineEntries => Tree.FlawlessAll b.children ∧
      ∀ t ∈ b.children, t.data.facets.literal.isSome = true

/-- A node that is closed is flawless if its kind and its set are what they should be. -/
theorem flawless_close {kind : NodeKind} {facets : Facets} {b : SetBody} (hb : b.Sound)
    (hk : kind ≠ .error) (ho : facets.opened = b.opened) (hc : facets.closed = b.closed)
    (id start : Nat) (label : Label) (s : State) :
    (close id start kind label facets b.children s).value.Flawless := by
  refine Tree.flawless_iff.2 ⟨⟨hk, ?_, ?_⟩, Tree.flawlessAll_nil, hb.children⟩
  · intro h
    exact hc ▸ hb.closed (ho ▸ h)
  · intro _ _ h
    exact hb.labeled (ho ▸ h)

theorem flawless_labeledNode {r : Read SetBody} (hb : r.value.Sound) (id start : Nat)
    (label : Label) : (labeledNode id start label r).value.Flawless := by
  refine flawless_close hb ?_ rfl rfl _ _ _ _
  simp [SetBody.kind, hb.refused]

theorem flawless_follow {sep : Separator} {t : Tree} (h : t.Flawless) (s : State) :
    (follow sep t s).value.Flawless := by
  obtain ⟨hsound, htags, hchildren⟩ := Tree.flawless_iff.1 h
  unfold follow
  dsimp only
  split <;> exact Tree.flawless_iff.2
    ⟨⟨hsound.kind, hsound.closed, hsound.labeled⟩, htags, hchildren⟩

theorem flawless_precede {sep : Option Separator} {t : Tree} (h : t.Flawless) :
    (precede sep t).Flawless := by
  cases t
  obtain ⟨hsound, htags, hchildren⟩ := Tree.flawless_iff.1 h
  exact Tree.flawless_iff.2 ⟨⟨hsound.kind, hsound.closed, hsound.labeled⟩, htags, hchildren⟩

theorem flawless_dress {pre : String} {ts : List Tree} {t : Tree} (h : t.Flawless)
    (hts : Tree.FlawlessAll ts) : (dress pre ts t).Flawless := by
  cases t
  obtain ⟨hsound, -, hchildren⟩ := Tree.flawless_iff.1 h
  exact Tree.flawless_iff.2 ⟨⟨hsound.kind, hsound.closed, hsound.labeled⟩, hts, hchildren⟩

theorem reports_report (s : State) (problem : Problem) (span : Span) (node : Nat) :
    (s.report problem span node).reports ≠ [] := by
  simp [State.report]

theorem reports_unexpected (s : State) : (unexpected s).state.reports ≠ [] := by
  unfold unexpected
  dsimp only
  split <;> exact fun h => reports_report _ _ _ _ ((State.grows_claim _).reports_eq_nil h)

theorem reports_untaggable {ts : List Tree} (s : State) (hne : ts ≠ [])
    (hts : ∀ t ∈ ts, t.data.kind = .tag) : (untaggable ts s).state.reports ≠ [] := by
  have hany : (ts.any fun t => t.data.kind = .tag) = true := by
    obtain ⟨t, ht⟩ := List.exists_mem_of_ne_nil ts hne
    exact List.any_eq_true.2 ⟨t, ht, decide_eq_true (hts t ht)⟩
  unfold untaggable
  dsimp only
  rw [if_pos hany]
  exact fun h => reports_report _ _ _ _ ((State.grows_claim _).reports_eq_nil h)

/-- What is read without a report is without fault. -/
theorem Run.flawless {n : Nat} {part : Part} {s : State} {r : Read SetBody} (h : Run n part s r)
    (hquiet : r.state.reports = []) (hs : s.Ready) :
    s.Checks r.state ∧ part.Sound r.value := by
  -- Reports are never withdrawn, so the states on the way have none either.
  induction h with
  | namelessTag _ _ =>
    exact absurd ((State.grows_claim _).reports_eq_nil hquiet) (reports_report _ _ _ _)
  | plainTag hat hl _ =>
    have hname := hs.tagName hat hl ((State.grows_claim _).reports_eq_nil hquiet)
    refine ⟨hname.trans_cursor (by simp), ?_, by simp [Tree.data, close]⟩
    refine Tree.flawlessAll_singleton.2 (flawless_close SetBody.sound_empty ?_ rfl rfl _ _ _ _)
    decide
  | tagWithArguments hat hl _ args ih =>
    have hargs := (State.grows_claim _).reports_eq_nil hquiet
    have hname := hs.tagName hat hl (args.grows.reports_eq_nil hargs)
    obtain ⟨hset, hsound⟩ := ih hargs hname.ready
    refine ⟨(hname.trans hset).trans_cursor (by simp), ?_, by simp [Tree.data, close]⟩
    refine Tree.flawlessAll_singleton.2 (flawless_close hsound ?_ rfl rfl _ _ _ _)
    decide
  | tagsEnd _ => exact ⟨.of_cursor_eq hs rfl, Tree.flawlessAll_nil, nofun⟩
  | tagsCons _ _ rest ihFirst ihRest =>
    obtain ⟨hfirst, hflawless, hkind⟩ := ihFirst (rest.grows.reports_eq_nil hquiet) hs
    obtain ⟨hrest, hflawless', hkind'⟩ := ihRest hquiet hfirst.ready
    refine ⟨hfirst.trans hrest, Tree.flawlessAll_cons.2 ⟨?_, hflawless'⟩, ?_⟩
    · exact Tree.flawlessAll_singleton.1 hflawless
    · exact List.forall_mem_cons.2 ⟨hkind _ List.mem_cons_self, hkind'⟩
  | bracketedRefused _ =>
    exact absurd ((grows_skip ..).reports_eq_nil hquiet) (reports_report _ _ _ _)
  | bracketedClosed ho body hc ih =>
    have hbody := (State.grows_advance _).reports_eq_nil hquiet
    have hopen := hs.opens ho (body.grows.reports_eq_nil hbody)
    obtain ⟨hentries, hflawless⟩ := ih hbody hopen.ready
    exact ⟨(hopen.trans hentries).trans (hentries.ready.closes hc hquiet),
      hflawless, rfl, fun _ => rfl, nofun⟩
  | bracketedOpen _ _ _ _ => exact absurd hquiet (reports_report _ _ _ _)
  | lineMissing _ => exact absurd hquiet (reports_report _ _ _ _)
  | lineRefused _ => exact absurd ((grows_skip ..).reports_eq_nil hquiet) (reports_report _ _ _ _)
  | lineRead _ _ ih =>
    obtain ⟨hentries, hflawless, hlabeled⟩ := ih hquiet hs
    exact ⟨hentries, hflawless, rfl, nofun, fun _ => hlabeled⟩
  | label hl _ =>
    have hlabel := hs.behindLabel hl ((State.grows_claim _).reports_eq_nil hquiet)
    refine ⟨hlabel.trans_cursor (by simp), fun _ => ⟨?_, ?_⟩⟩
    · exact Tree.flawlessAll_singleton.2 (flawless_labeledNode SetBody.sound_empty _ _ _)
    · simp [Tree.data, labeledNode, close]
  | labeledSet hl hp _ _ body ih =>
    have hset := (State.grows_claim _).reports_eq_nil
      ((grows_reportCramped ..).reports_eq_nil hquiet)
    have hlabel := hs.promise hl hp (body.grows.reports_eq_nil hset)
    obtain ⟨hchecks, hsound⟩ := ih hset hlabel.ready
    refine ⟨(hlabel.trans hchecks).trans_cursor (by simp), fun _ => ⟨?_, ?_⟩⟩
    · refine Tree.flawlessAll_singleton.2 ?_
      rw [reportCramped_value]
      exact flawless_labeledNode hsound _ _ _
    · simp [reportCramped_value, Tree.data, labeledNode, close]
  | labeledLine hl hp _ body ih =>
    have hset := (State.grows_claim _).reports_eq_nil hquiet
    have hlabel := hs.promise hl hp (body.grows.reports_eq_nil hset)
    obtain ⟨hchecks, hsound⟩ := ih hset hlabel.ready
    refine ⟨(hlabel.trans hchecks).trans_cursor (by simp), fun _ => ⟨?_, ?_⟩⟩
    · exact Tree.flawlessAll_singleton.2 (flawless_labeledNode hsound _ _ _)
    · simp [Tree.data, labeledNode, close]
  | @unlabeled _ ctx ts s opened r _ _ body ih =>
    have hset := (State.grows_claim _).reports_eq_nil hquiet
    -- On a line a set without a label is reported.
    have hctx : ctx ≠ .line := by
      rintro rfl
      exact reports_report _ _ _ _ (body.grows.reports_eq_nil hset)
    rw [if_neg hctx] at ih
    have hid : s.Checks s.alloc.state := .of_cursor_eq hs rfl
    obtain ⟨hchecks, hsound⟩ := ih hset hid.ready
    have hkind : r.value.kind ≠ .error := by simp [SetBody.kind, hsound.refused]
    refine ⟨(hid.trans hchecks).trans_cursor (by simp), fun _ => ⟨?_, (absurd · hctx)⟩⟩
    exact Tree.flawlessAll_singleton.2 (flawless_close hsound hkind rfl rfl _ _ _ _)
  | @untaggable _ _ ts s _ hne =>
    exact ⟨.of_cursor_eq hs (cursor_untaggable ts s),
      fun hts => absurd hquiet (reports_untaggable s hne hts)⟩
  | unexpected _ _ _ => exact absurd hquiet (reports_unexpected _)
  | @node _ ctx s ts t _ bare ihTags ihBare =>
    obtain ⟨htags, hflawless, hkind⟩ := ihTags (bare.grows.reports_eq_nil hquiet) hs
    obtain ⟨hbare, hsound⟩ := ihBare hquiet htags.ready
    obtain ⟨hflawless', hlabeled⟩ := hsound hkind
    refine ⟨htags.trans hbare, Tree.flawlessAll_singleton.2 ?_, fun hctx => ?_⟩
    · exact flawless_dress (Tree.flawlessAll_singleton.1 hflawless') hflawless
    · have hliteral := hlabeled hctx t.value List.mem_cons_self
      refine List.forall_mem_singleton.2 ?_
      cases htree : t.value
      rw [htree] at hliteral
      exact hliteral
  | entry _ ih => exact ⟨(ih hquiet hs).1, (ih hquiet hs).2.1⟩
  | stray _ _ => exact absurd hquiet (reports_unexpected _)
  | entriesEnd _ => exact ⟨.of_cursor_eq hs rfl, Tree.flawlessAll_nil⟩
  | extraSeparator _ _ rest _ =>
    exact absurd (rest.grows.reports_eq_nil hquiet) (reports_unexpected _)
  | @separated _ _ pending s e sep _ _ _ _ hsep rest ihFirst ihRest =>
    have hfollow := rest.grows.reports_eq_nil hquiet
    have hentry := (grows_follow sep (precede pending e.value) e.state).reports_eq_nil hfollow
    obtain ⟨hfirst, hflawless⟩ := ihFirst hentry hs
    have hadvance : e.state.advance.reports = [] := by
      unfold follow at hfollow
      dsimp only at hfollow
      split at hfollow
      · exact (State.grows_claim _).reports_eq_nil hfollow
      · exact hfollow
    have hsecond := (hfirst.ready.separator hsep hadvance).trans_cursor
      (cursor_follow sep (precede pending e.value) e.state)
    obtain ⟨hrest, hflawless'⟩ := ihRest hquiet hsecond.ready
    refine ⟨(hfirst.trans hsecond).trans hrest, Tree.flawlessAll_cons.2 ⟨?_, hflawless'⟩⟩
    exact flawless_follow (flawless_precede (Tree.flawlessAll_singleton.1 hflawless)) _
  | unseparated _ _ _ _ rest ihFirst ihRest =>
    obtain ⟨hfirst, hflawless⟩ := ihFirst (rest.grows.reports_eq_nil hquiet) hs
    obtain ⟨hrest, hflawless'⟩ := ihRest hquiet hfirst.ready
    refine ⟨hfirst.trans hrest, Tree.flawlessAll_cons.2 ⟨?_, hflawless'⟩⟩
    exact flawless_precede (Tree.flawlessAll_singleton.1 hflawless)
  | lineLast _ _ ih =>
    obtain ⟨hchecks, hflawless, hlabeled⟩ := ih hquiet hs
    exact ⟨hchecks, hflawless, hlabeled rfl⟩
  | lineCons _ _ rest ihFirst ihRest =>
    obtain ⟨hfirst, hflawless, hlabeled⟩ := ihFirst (rest.grows.reports_eq_nil hquiet) hs
    obtain ⟨hrest, hflawless', hlabeled'⟩ := ihRest hquiet hfirst.ready
    refine ⟨hfirst.trans hrest, Tree.flawlessAll_cons.2 ⟨?_, hflawless'⟩, ?_⟩
    · exact Tree.flawlessAll_singleton.1 hflawless
    · exact List.forall_mem_cons.2 ⟨hlabeled rfl _ List.mem_cons_self, hlabeled'⟩

end Grammar

/-! ### Whole documents -/

namespace Parse

theorem toToken_mem_all {source : Source} {l : Lexeme} (h : l ∈ Lexeme.all source 0) :
    l.toToken ∈ Token.all source.bytes 0 := by
  rw [← toToken_all]
  exact List.mem_map_of_mem h

theorem ready_begin {source : Source} (hquiet : (State.begin source 0).reports = []) :
    (State.begin source 0).Ready := by
  have hclean : ∀ l ∈ Lexeme.all source 0, l.isTrivia = true → l.error = none → l.Clean :=
    fun l hl => Token.clean_of_isTrivia (toToken_mem_all hl)
  have hmem := fun w hw l hl =>
    @Word.mem_lexemes_of_mem_split w (Lexeme.all source 0) hw l hl
  have hregular : ∀ w ∈ (Word.split (Lexeme.all source 0)).1, w.Regular := by
    intro w hw
    have hlexeme := hmem w hw w.lexeme (List.mem_append_right _ List.mem_cons_self)
    exact ⟨fun l hl => hclean l (hmem w hw l (List.mem_append_left _ hl))
      ((Word.wellFormed_of_mem_split hw).gap l hl), Token.error_of_symbol (toToken_mem_all hlexeme)⟩
  have htail : ∀ l ∈ (Word.split (Lexeme.all source 0)).2, l.error = none → l.Clean := by
    intro l hl
    have hmem : l ∈ Lexeme.all source 0 := by
      rw [Word.split_eq (Lexeme.all source 0)]
      exact List.mem_append_right _ hl
    exact hclean l hmem (Word.isTrivia_of_mem_split hl)
  have hcursor : (State.begin source 0).cursor =
      Cursor.ofLexemes source.length 0 (Lexeme.all source 0) := State.cursor_ofLexemes ..
  refine ⟨hcursor ▸ hregular, hcursor ▸ htail, fun l hl => ?_⟩
  rw [hcursor] at hl
  -- With nothing reported, no lexeme of the first gap has a fault.
  have herror := State.error_of_reports_reportGap hquiet l hl
  unfold Cursor.gap at hl
  split at hl
  · exact htail l hl herror
  · rename_i w rest hahead
    have hw : w ∈ (Word.split (Lexeme.all source 0)).1 := by
      rw [show (Word.split (Lexeme.all source 0)).1 = w :: rest from hahead]
      exact List.mem_cons_self
    exact (hregular w hw).gap l hl herror

/-- What a document is like that has nothing to report. -/
structure Flawless (p : Parse) : Prop where
  /-- No node stands for text that could not be read. -/
  kind : ∀ t ∈ p.nodes, t.data.kind ≠ .error
  /-- Sets that are opened are closed. -/
  closed : ∀ t ∈ p.nodes, t.data.facets.opened.isSome = true → t.data.facets.closed.isSome = true
  /-- No token has a lexical fault. -/
  tokens : ∀ t ∈ Token.all p.source.bytes 0, t.error = none
  /-- Bytes outside comments are parts of characters. -/
  bytes : ∀ pos < p.source.length,
    (∀ t ∈ Token.all p.source.bytes 0, t.kind = .comment → ¬(t.start ≤ pos ∧ pos < t.stop)) →
      Utf8.InChar p.source.bytes pos
  /-- The entries of a set without brackets have labels. -/
  labeled : ∀ t ∈ p.nodes, t.data.facets.literal.isSome = true → t.children ≠ [] →
    t.data.facets.opened = none → ∀ c ∈ t.children, c.data.facets.literal.isSome = true
  /-- Every number is that of a node of the tree, which is the root or has a parent. -/
  linked : ∀ i < p.forest.size, ∃ t ∈ p.nodes, t.id = i ∧
    (p.root = some t ∨ (p.forest.links i).parent.isSome = true)

/-- A document that is read without a report has clean tokens and a flawless tree. -/
theorem flawless_of_reports {source : Source} (h : (document source).reports = []) :
    (∀ t ∈ Token.all source.bytes 0, t.Clean) ∧ ∀ t ∈ (document source).nodes, t.Sound := by
  have hrun := Grammar.run_entries Grammar.maxDepth .top (State.begin source 0).alloc.state
  have hbegin : (State.begin source 0).reports = [] := hrun.grows.reports_eq_nil h
  have hready : (State.begin source 0).alloc.state.Ready := (ready_begin hbegin).of_cursor_eq rfl
  obtain ⟨⟨hend, ⟨ws, hws, hclean⟩, htail⟩, hflawless⟩ := hrun.flawless h hready
  have hahead := hrun.entriesEnd_state.elim List.isEmpty_iff.1 fun hb =>
    absurd hb.1 (by decide)
  have hgap : ∀ l ∈ (Word.split (Lexeme.all source 0)).2, l.Clean := by
    intro l hl
    refine hend.gap l ?_
    simp only [Cursor.gap, hahead, htail]
    simpa [State.begin, Cursor.ofLexemes] using hl
  have hwords : ws = (Word.split (Lexeme.all source 0)).1 := by
    rw [hahead, List.append_nil, State.cursor_alloc, ahead_begin] at hws
    exact hws.symm
  constructor
  · intro t ht
    rw [← toToken_all, Word.split_eq (Lexeme.all source 0), ← hwords] at ht
    obtain ⟨l, hl, rfl⟩ := List.mem_map.1 ht
    rcases List.mem_append.1 hl with hl | hl
    · obtain ⟨w, hw, hl⟩ := List.mem_flatMap.1 hl
      exact hclean w hw l hl
    · exact hgap l hl
  · have hopened : (rootData source).facets.opened.isSome ≠ true := Bool.false_ne_true
    have hliteral : (rootData source).facets.literal.isSome ≠ true := Bool.false_ne_true
    refine Tree.flawless_iff.2 ⟨⟨?_, fun h => absurd h hopened, fun h => absurd h hliteral⟩,
      Tree.flawlessAll_nil, hflawless⟩
    simp [Tree.data, rootData, NodeData.plain]

theorem length_strays_le (source : Source) :
    (document source).strays.length ≤ (document source).reports.length := by
  have hrun := Grammar.run_entries Grammar.maxDepth .top (State.begin source 0).alloc.state
  have hbegin : State.Grows { cursor := Cursor.ofLexemes source.length 0 (Lexeme.all source 0) }
      (State.begin source 0) := State.grows_reportGap _
  have hgrows := (hbegin.trans (State.grows_alloc _)).trans hrun.grows
  have hpaired := hgrows.paired
  simp only [List.length_nil, Nat.add_zero, Nat.zero_add] at hpaired
  exact hpaired

theorem error_of_quiet {source : Source} (h : (document source).diagnostics = []) :
    ∀ t ∈ Token.all source.bytes 0, t.error = none :=
  fun t ht => ((flawless_of_reports (List.map_eq_nil_iff.1 h)).1 t ht).error

/-- A document without diagnostics has nothing that should have been reported. -/
theorem document_flawless (source : Source) (h : (document source).diagnostics = []) :
    (document source).Flawless := by
  have hreports : (document source).reports = [] := List.map_eq_nil_iff.1 h
  obtain ⟨htokens, hnodes⟩ := flawless_of_reports hreports
  refine ⟨fun t ht => (hnodes t ht).kind, fun t ht => (hnodes t ht).closed,
    fun t ht => (htokens t ht).error, fun pos hpos houtside => ?_,
    fun t ht => (hnodes t ht).labeled, fun i hi => ?_⟩
  · -- The byte lies in a token, whose text is a part of the document by itself.
    obtain ⟨t, ht, hle, hlt⟩ := @Token.exists_mem_all_of_lt source.bytes pos hpos
    have hvalid := (htokens t ht).valid.resolve_left fun hk => houtside t ht hk ⟨hle, hlt⟩
    obtain ⟨after, htext⟩ := Token.exists_append_of_mem_all ht
    have hstart : (source.bytes.take t.start).length = t.start :=
      List.length_take_of_le (hle.trans (Nat.le_of_lt hpos))
    have hin : pos - t.start < t.bytes.length := by
      unfold Token.stop Token.length at hlt
      omega
    have hchar := (Utf8.inChar_of_isValid hvalid hin).append (source.bytes.take t.start) after
    rw [← htext, hstart, Nat.add_sub_cancel' hle] at hchar
    exact hchar
  · -- Without stray nodes the numbers are those of the nodes of the tree.
    have hstrays : (document source).strays = [] := by
      have hle := length_strays_le source
      rw [hreports] at hle
      exact List.length_eq_zero_iff.1 (Nat.le_zero.1 hle)
    have hperm := document_ids_perm source
    rw [hstrays, List.map_nil, List.append_nil] at hperm
    rw [forest, Forest.size_ofTree] at hi
    obtain ⟨t, ht, rfl⟩ := List.mem_map.1 (hperm.mem_iff.2 (List.mem_range.2 hi))
    refine ⟨t, ht, rfl, ?_⟩
    by_cases hroot : (document source).root = some t
    · exact .inl hroot
    · exact .inr (Forest.hasParent_ofTree _ ht (fun h => hroot (congrArg some h.symm)) hi)

/-- A set without brackets inside one whose brackets do not match. -/
theorem document_flawless_tagged :
    (document ⟨"d", Utf8.ofString "@t(x) a: [b: c 'd', e) // f"⟩).Flawless :=
  document_flawless ⟨"d", Utf8.ofString "@t(x) a: [b: c 'd', e) // f"⟩ (by decide +kernel)

end Parse

end Metadoc
