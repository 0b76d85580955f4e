import Metadoc.Document.Stepping
import Metadoc.Proofs.Document.Concatenation
import Metadoc.Proofs.Document.Framing
import Metadoc.Proofs.Document.Skipping

/-!
# A document read node by node

A text may be read in steps, each of which reads a node from where the one before ended.  Where no
separators stand between the nodes, the steps find what is found when the document is read at once.

* `State.Within.begin_eq` : reading may begin where any word of a document begins;
* `Parse.oneNode_of_within` : what is read from there is the entry that stands there;
* `Parse.Stepped` says what a number of steps find and report, and `Parse.finds_entriesFrom` that
  they find the entries from there on;
* `Parse.document_steps` : so the steps find the entries of the document and report its problems.
-/

namespace Metadoc

/-! ### Where steps begin -/

namespace Token

theorem pairwise_lt_allFrom {ts : List Token} :
    ∀ {pos : Nat} {bytes : Bytes}, allFrom pos 0 bytes = ts → ts.Pairwise (·.start < ·.start) := by
  induction ts with
  | nil => intros; exact .nil
  | cons t ts ih =>
    intro pos bytes h
    obtain ⟨hne, hstart, rest, -, -, hrest⟩ := allFrom_eq_cons h
    refine .cons (fun u hu => ?_) (ih hrest)
    rw [← hrest] at hu
    have hlength : 0 < t.length := List.length_pos_iff.2 hne
    have hle := le_start_of_mem_allFrom hu
    omega

end Token

namespace Word

theorem map_fst_stages (ls : List Lexeme) : ∀ gap,
    (stages (splitAfter gap ls).1 (splitAfter gap ls).2).map Prod.fst =
      ls.filter (!·.isTrivia) := by
  induction ls with
  | nil => exact fun gap => rfl
  | cons l ls ih =>
    intro gap
    rw [splitAfter]
    split
    · rename_i hl
      rw [ih, List.filter_cons_of_neg (by simp [hl])]
    · rename_i hl
      rw [List.filter_cons_of_pos (by simp [hl]), ← ih []]
      rfl

theorem map_fst_words (ws : List Word) (tail : List Lexeme) :
    (stages ws tail).map Prod.fst = ws.map Word.lexeme := by
  induction ws with
  | nil => rfl
  | cons w ws ih => rw [stages, List.map_cons, ih, List.map_cons]

theorem mem_of_mem_stages {ls : List Lexeme} {x : Lexeme × List Lexeme}
    (h : x ∈ stages (split ls).1 (split ls).2) : x.1 ∈ ls := by
  have hfst : x.1 ∈ (stages (split ls).1 (split ls).2).map Prod.fst := List.mem_map_of_mem h
  rw [split, map_fst_stages] at hfst
  exact (List.mem_filter.1 hfst).1

/-- From where one of its words begins, a list of lexemes has the words from there on. -/
theorem stages_dropWhile {ls : List Lexeme} (hsorted : ls.Pairwise (·.start < ·.start))
    {l : Lexeme} {gap : List Lexeme} {rest : List (Lexeme × List Lexeme)}
    (h : (l, gap) :: rest <:+ stages (split ls).1 (split ls).2) :
    let words := split (ls.dropWhile (·.start < l.start))
    stages words.1 words.2 = (l, gap) :: rest ∧ gapBefore words.1 words.2 = [] := by
  induction ls with
  | nil => exact absurd (List.suffix_nil.1 h) (List.cons_ne_nil _ _)
  | cons x ls ih =>
    obtain ⟨hx, hls⟩ := List.pairwise_cons.1 hsorted
    -- Where the word is one of the later ones, the first lexeme begins before it.
    have hlater (hrest : (l, gap) :: rest <:+ stages (split ls).1 (split ls).2) :
        (x :: ls).dropWhile (·.start < l.start) = ls.dropWhile (·.start < l.start) := by
      have hlt : x.start < l.start := hx l (mem_of_mem_stages (hrest.subset List.mem_cons_self))
      exact List.dropWhile_cons_of_pos (by simpa using hlt)
    rw [split, splitAfter] at h
    split at h
    · rw [(splitAfter_gap ls _).1] at h
      rw [hlater h]
      exact ih hls h
    · rename_i hl
      rcases List.suffix_cons_iff.1 h with heq | hrest
      · cases heq
        rw [List.dropWhile_cons_of_neg (by simp), split, splitAfter, if_neg hl]
        exact ⟨rfl, rfl⟩
      · rw [hlater hrest]
        exact ih hls hrest

end Word

theorem Lexeme.pairwise_lt_all (source : Source) (pos : Nat) :
    (all source pos).Pairwise (·.start < ·.start) := by
  rw [all_eq_map, List.pairwise_map]
  exact Token.pairwise_lt_allFrom rfl

theorem Cursor.pos_of_cons {c : Cursor} {w : Word} {ws : List Word} (h : c.ahead = w :: ws) :
    c.pos = w.lexeme.start := by
  rw [pos, span, h]
  rfl

theorem Cursor.stages_ofLexemes (length pos : Nat) (ls : List Lexeme) :
    (ofLexemes length pos ls).stages = Word.stages (Word.split ls).1 (Word.split ls).2 := rfl

namespace State

theorem started_ofLexemes (length pos : Nat) (ls : List Lexeme) :
    (ofLexemes length pos ls).cursor.started = false := by
  rw [cursor_ofLexemes]
  rfl

theorem stages_begin (source : Source) (pos : Nat) : (begin source pos).cursor.stages =
    Word.stages (Word.split (Lexeme.all source pos)).1 (Word.split (Lexeme.all source pos)).2 := by
  rw [begin, cursor_ofLexemes, Cursor.stages_ofLexemes]

variable {source : Source} {start : Nat} {s : State}

/-- Where a word of a document begins, reading may begin: the same words are ahead, and nothing
stands before them. -/
theorem Within.begin_eq (hs : s.Within source start) (hend : s.cursor.atEnd = false) :
    ∃ c : Cursor, begin source s.cursor.pos = { cursor := c } ∧ c.stages = s.cursor.stages ∧
      c.trivia.leadingText = "" ∧ c.started = false ∧ c.length = source.length := by
  obtain ⟨l, gap, rest, hstages⟩ := Cursor.exists_stages hend
  have hpos : s.cursor.pos = l.start := Cursor.pos_of_stages hstages
  have hsuffix := hs
  rw [Within, hstages, stages_begin] at hsuffix
  have hmem : l ∈ Lexeme.all source start :=
    Word.mem_of_mem_stages (hsuffix.subset List.mem_cons_self)
  obtain ⟨hwords, hgap⟩ :=
    Word.stages_dropWhile (Lexeme.pairwise_lt_all source start) hsuffix
  rw [← Lexeme.all_start hmem, ← hpos] at hwords hgap
  let c := Cursor.ofLexemes source.length s.cursor.pos (Lexeme.all source s.cursor.pos)
  -- With no gap before the word there is nothing to report before it is read.
  have hnone : c.gap = [] := (Cursor.gap_eq c).trans hgap
  refine ⟨c, ?_, hwords.trans hstages.symm, ?_, rfl, rfl⟩
  · rw [begin, ofLexemes, reportGap, hnone]
    rfl
  · rw [Cursor.trivia, hnone]
    rfl

theorem Within.sorted (hs : s.Within source start) :
    (s.cursor.ahead.map (·.lexeme.start)).Pairwise (· < ·) ∧
      ∀ w ∈ s.cursor.ahead, w.lexeme.start < source.length := by
  have hlexemes : s.cursor.ahead.map Word.lexeme <:+
      (Lexeme.all source start).filter (!·.isTrivia) := by
    rw [← Word.map_fst_stages _ [], ← Word.map_fst_words, ← Word.split, ← stages_begin]
    exact hs.map Prod.fst
  constructor
  · have hfilter := (Lexeme.pairwise_lt_all source start).filter (!·.isTrivia)
    have hwords := hfilter.sublist hlexemes.sublist
    rwa [List.pairwise_map] at hwords ⊢
  · intro w hw
    have hmem := hlexemes.subset (List.mem_map_of_mem hw)
    exact Lexeme.start_lt_of_mem_all (List.mem_filter.1 hmem).1

theorem Within.pos_lt {s' : State} (hs : s.Within source start)
    (hlength : s.cursor.length = source.length) (hr : Reaches s s') (hlt : s'.left < s.left) :
    s.cursor.pos < s'.cursor.pos := by
  obtain ⟨hsorted, hinside⟩ := hs.sorted
  have hsuffix := hr.suffix
  cases hahead : s.cursor.ahead with
  | nil =>
    rw [left, left, hahead] at hlt
    cases hlt
  | cons w ws =>
    rw [hahead] at hsorted hinside hsuffix
    rw [Cursor.pos_of_cons hahead]
    cases hahead' : s'.cursor.ahead with
    | nil =>
      have hpos' : s'.cursor.pos = source.length := by
        rw [Cursor.pos, Cursor.span, hahead', ← hlength, ← hr.length]
      rw [hpos']
      exact hinside w List.mem_cons_self
    | cons w' ws' =>
      rw [hahead'] at hsuffix
      -- The word ahead is not the same, since fewer are left.
      have hmem : w' ∈ ws := by
        rcases List.suffix_cons_iff.1 hsuffix with heq | hrest
        · rw [left, left, hahead, hahead', heq] at hlt
          exact absurd hlt (Nat.lt_irrefl _)
        · exact hrest.subset List.mem_cons_self
      rw [Cursor.pos_of_cons hahead']
      exact (List.pairwise_cons.1 hsorted).1 _ (List.mem_map_of_mem hmem)

theorem separator?_begin {pos : Nat} (h : ∀ t ∈ (Token.all source.bytes pos).find? (!·.isTrivia),
    t.symbol?.bind Separator.ofByte? = none) : (begin source pos).cursor.separator? = none := by
  have hhead := Word.head?_stages (Lexeme.all source pos) []
  rw [← Word.split, ← stages_begin, ← Cursor.lexeme?_eq_stages, Lexeme.all_eq_map,
    List.find?_map] at hhead
  rw [Cursor.separator?, Cursor.symbol?, hhead, Option.bind_assoc]
  refine Option.bind_eq_none_iff.2 fun l hl => ?_
  obtain ⟨t, ht, rfl⟩ := Option.map_eq_some_iff.1 hl
  exact h t ht

end State

/-- A diagnostic, whatever node it is about. -/
def Diagnostic.dropNode (d : Diagnostic) : Diagnostic := { d with node := none }

/-- Reports in words, whatever nodes they are about. -/
def Report.notices (rs : List Report) : List Diagnostic := rs.map (·.diagnostic.dropNode)

theorem Report.notices_renumbered (number : Nat → Nat) (rs : List Report) :
    notices (rs.map (Relocation.shift 0 number).report) = notices rs := List.map_map

theorem Report.notices_append (rs rs' : List Report) :
    notices (rs ++ rs') = notices rs ++ notices rs' := List.map_append

theorem Parse.diagnostics_dropNode (p : Parse) :
    p.diagnostics.map Diagnostic.dropNode = Report.notices p.reports := List.map_map

namespace Parse

open Grammar

variable {text : Bytes} {start : Nat} {s : State}

/-! ### A single step -/

theorem oneNode_of_atEnd {pos : Nat}
    (hend : (State.begin ⟨anonymous, text⟩ pos).cursor.atEnd = true) : oneNode text pos =
      ofState ⟨anonymous, text⟩ none (State.begin ⟨anonymous, text⟩ pos) := if_pos hend

theorem oneNode_of_not_atEnd {pos : Nat}
    (hend : (State.begin ⟨anonymous, text⟩ pos).cursor.atEnd = false) : oneNode text pos =
      let r := entry (levels maxDepth) .top (State.begin ⟨anonymous, text⟩ pos)
      ofState ⟨anonymous, text⟩ (some r.value) r.state := if_neg (Bool.eq_false_iff.1 hend)

/-- What is read from where a word of a text begins is the entry that stands there, without the
comment above it and under other numbers. -/
theorem oneNode_of_within (hs : s.Within ⟨anonymous, text⟩ start)
    (hlength : s.cursor.length = text.length) (hend : s.cursor.atEnd = false) :
    let p := oneNode text s.cursor.pos
    let e := entry (levels maxDepth) .top s
    let ρ := Relocation.shift 0 (s.count + ·)
    ∃ t, p.root = some t ∧ e.value.dropPre = ρ.tree t ∧ e.state.cursor.pos = p.stop ∧
      Report.notices e.state.reports = Report.notices s.reports ++ Report.notices p.reports := by
  intro p e ρ
  obtain ⟨c, hbegin, hstages, hleading, hstarted, hlength'⟩ := hs.begin_eq hend
  have hend' : c.atEnd = false := by
    rw [← Cursor.isEmpty_stages, hstages, Cursor.isEmpty_stages, hend]
  have hp := oneNode_of_not_atEnd (by rw [hbegin]; exact hend')
  rw [hbegin] at hp
  obtain ⟨hvalue, hpos, added, hadded, hreports⟩ := @entry_renumbered (s.count + ·) { cursor := c }
    s.fresh maxDepth .top hstarted (s.cursor.stages_fresh.trans hstages.symm)
    ((s.cursor.length_fresh.trans hlength).trans hlength'.symm)
    (s.cursor.leadingText_fresh.trans hleading.symm)
    (fun j => congrArg (s.count + ·) (Nat.zero_add j)) hend'
  -- What stood before the word in the document leaves only the comment above it.
  rw [entry_fresh _ hend] at hvalue hpos hreports
  rw [List.nil_append] at hadded
  simp only [p, hp]
  refine ⟨_, rfl, hvalue, hpos, ?_⟩
  rw [hreports, Report.notices_append, Report.notices_renumbered, ← hadded]
  rfl

/-- Behind an entry, reading stands further on in the same text. -/
theorem behind_entry (hs : s.Within ⟨anonymous, text⟩ start)
    (hlength : s.cursor.length = text.length) (hend : s.cursor.atEnd = false) :
    let behind := (entry (levels maxDepth) .top s).state
    behind.Within ⟨anonymous, text⟩ start ∧ behind.cursor.length = text.length ∧
      behind.left < s.left ∧ s.cursor.pos < behind.cursor.pos := by
  have hrun := run_entry (soundBelow maxDepth) .top s
  have hlt : (entry (levels maxDepth) .top s).state.left < s.left := hrun.progress.2 hend
  exact ⟨(State.steps_within _ start).run hrun hs, hrun.reaches.length.trans hlength, hlt,
    hs.pos_lt hlength hrun.reaches hlt⟩

/-! ### Step after step -/

/-- Where the step begins that comes behind `i` others, the first of them from `pos` on, when each
reads a node from where the one before ended. -/
def offset (text : Bytes) (pos i : Nat) : Nat := (fun pos => (oneNode text pos).stop)^[i] pos

@[simp] theorem offset_zero (text : Bytes) (pos : Nat) : offset text pos 0 = pos := rfl

@[simp] theorem offset_succ (text : Bytes) (pos i : Nat) :
    offset text pos (i + 1) = offset text (oneNode text pos).stop i := rfl

/-- Whether no step from `pos` on begins with a separator, up to the first that finds no node. -/
def SeparatorFree (text : Bytes) (pos : Nat) : Prop :=
  ∀ i, (∀ j < i, (oneNode text (offset text pos j)).root.isSome = true) →
    ∀ t ∈ (Token.all text (offset text pos i)).find? (!·.isTrivia),
      t.symbol?.bind Separator.ofByte? = none

theorem SeparatorFree.here {pos : Nat} (h : SeparatorFree text pos) :
    ∀ t ∈ (Token.all text pos).find? (!·.isTrivia), t.symbol?.bind Separator.ofByte? = none :=
  h 0 fun j hj => absurd hj (Nat.not_lt_zero j)

theorem SeparatorFree.next {pos : Nat} (h : SeparatorFree text pos)
    (hroot : (oneNode text pos).root.isSome = true) :
    SeparatorFree text (oneNode text pos).stop := by
  intro i hi
  refine h (i + 1) fun j hj => ?_
  cases j with
  | zero => exact hroot
  | succ j => exact hi j (Nat.lt_of_succ_lt_succ hj)

/-- Whether the steps from a position on find the trees `ts` under some numbers, then nothing, and
report `ds`, whatever nodes that is about. -/
structure Stepped (text : Bytes) (pos : Nat) (ts : List Tree) (ds : List Diagnostic) : Prop where
  /-- Each step finds a tree. -/
  finds : ∀ i (hi : i < ts.length), ∃ t k, (oneNode text (offset text pos i)).root = some t ∧
    ts[i] = (Relocation.shift 0 (k + ·)).tree t
  /-- It ends further on. -/
  forward : ∀ i < ts.length, offset text pos i < offset text pos (i + 1)
  /-- Behind the last tree nothing is found. -/
  ends : (oneNode text (offset text pos ts.length)).root = none
  /-- The text is used up. -/
  stop : (oneNode text (offset text pos ts.length)).stop = text.length
  /-- The steps report what is reported. -/
  reports : ((List.range (ts.length + 1)).flatMap fun i =>
    Report.notices (oneNode text (offset text pos i)).reports) = ds

theorem Stepped.of_atEnd {pos : Nat}
    (hend : (State.begin ⟨anonymous, text⟩ pos).cursor.atEnd = true) :
    Stepped text pos [] (Report.notices (State.begin ⟨anonymous, text⟩ pos).reports) := by
  have hnode := oneNode_of_atEnd hend
  have hstop : (State.begin ⟨anonymous, text⟩ pos).cursor.pos = text.length := by
    rw [Cursor.pos_of_atEnd hend, State.begin, State.cursor_ofLexemes]
    rfl
  refine ⟨fun i hi => absurd hi (Nat.not_lt_zero i), fun i hi => absurd hi (Nat.not_lt_zero i), ?_,
    ?_, ?_⟩
  · rw [List.length_nil, offset_zero, hnode]
    rfl
  · rw [List.length_nil, offset_zero, hnode]
    exact hstop
  · simp [hnode, ofState]

theorem Stepped.nil (text : Bytes) : Stepped text text.length [] [] := by
  have hnone : Lexeme.all ⟨anonymous, text⟩ text.length = [] := by
    rw [Lexeme.all_eq_map, Token.all_length]
    rfl
  have hbegin : State.begin ⟨anonymous, text⟩ text.length =
      { cursor := Cursor.ofLexemes text.length text.length [] } := by
    rw [State.begin, hnone]
    rfl
  have hend : (State.begin ⟨anonymous, text⟩ text.length).cursor.atEnd = true := by
    rw [hbegin]
    rfl
  have h := Stepped.of_atEnd hend
  rwa [hbegin] at h

theorem Stepped.cons {pos k : Nat} {t t' : Tree} {ts : List Tree} {ds : List Diagnostic}
    (hroot : (oneNode text pos).root = some t) (ht : t' = (Relocation.shift 0 (k + ·)).tree t)
    (hlt : pos < (oneNode text pos).stop) (h : Stepped text (oneNode text pos).stop ts ds) :
    Stepped text pos (t' :: ts) (Report.notices (oneNode text pos).reports ++ ds) where
  finds i hi := by
    cases i with
    | zero => exact ⟨t, k, hroot, ht⟩
    | succ i => exact h.finds i (Nat.lt_of_succ_lt_succ hi)
  forward i hi := by
    cases i with
    | zero => exact hlt
    | succ i => exact h.forward i (Nat.lt_of_succ_lt_succ hi)
  ends := h.ends
  stop := h.stop
  reports := by
    rw [List.length_cons, List.range_succ_eq_map, List.flatMap_cons, List.flatMap_map, ← h.reports]
    rfl

/-! ### The whole document -/

theorem precede_none {t : Tree} (h : t.data.facets.precededBy = none) : precede none t = t := by
  obtain ⟨id, d, ts, cs⟩ := t
  change d.facets.precededBy = none at h
  simp only [precede, ← h]

theorem precededBy_unexpected (s : State) :
    (unexpected s).value.data.facets.precededBy = none := by
  unfold unexpected
  dsimp only
  split <;> rfl

theorem precededBy_labeled (inner : Option Levels) (l : Lexeme) (s : State) :
    (labeled inner l s).value.data.facets.precededBy = none := by
  by_cases hp : (s.behindLabel l).promisesSet
  · rw [labeled_eq_of_promisesSet _ hp]
    split
    · split
      · rw [reportCramped_value]
        rfl
      · rfl
    · rfl
  · rw [labeled_eq_of_not_promisesSet _ hp]
    rfl

theorem precededBy_bareNode {inner : Option Levels} {ctx : Context} {ts : List Tree} {r : Read Tree}
    (h : bareNode inner ctx ts s = some r) : r.value.data.facets.precededBy = none := by
  unfold bareNode at h
  split at h
  · cases h
    exact precededBy_labeled ..
  · split at h
    · cases h
      rfl
    · split at h
      · split at h
        · cases h
        · cases h
          rfl
      · cases h
        exact precededBy_unexpected s

theorem precededBy_entry (inner : Option Levels) (ctx : Context) (s : State) :
    (entry inner ctx s).value.data.facets.precededBy = none := by
  unfold entry
  cases hnode : node inner ctx s with
  | none => exact precededBy_unexpected s
  | some r =>
    obtain ⟨b, hb, rfl⟩ := Option.map_eq_some_iff.1 hnode
    have hbare := precededBy_bareNode hb
    obtain ⟨⟨id, d, ts, cs⟩, t⟩ := b
    exact hbare

/-- Where no separators stand between them, entries are read one after the other. -/
theorem entriesFrom_of_unseparated {n k : Nat} (hend : s.cursor.atEnd = false)
    (hsep : s.cursor.separator? = none)
    (hsep' : (entry (levels n) .top s).state.cursor.separator? = none) :
    entriesFrom (levels n) .top (k + 1) none s =
      let e := entry (levels n) .top s
      let rest := entriesFrom (levels n) .top k none e.state
      ⟨e.value :: rest.value, rest.state⟩ := by
  have he : ¬s.entriesEnd .top := by
    rintro (h | ⟨h, -⟩)
    · rw [hend] at h
      cases h
    · cases h
  rw [entriesFrom_of_entry _ _ _ _ he hsep]
  simp only [hsep', precede_none (precededBy_entry (levels n) .top s)]

theorem separator?_of_within (hs : s.Within ⟨anonymous, text⟩ start)
    (hfree : SeparatorFree text s.cursor.pos) : s.cursor.separator? = none := by
  cases hend : s.cursor.atEnd with
  | true =>
    rw [Cursor.separator?, Cursor.symbol?, Cursor.lexeme?_eq_stages, Cursor.stages_eq_nil hend]
    rfl
  | false =>
    have hbegin := @State.separator?_begin ⟨anonymous, text⟩ _ hfree.here
    obtain ⟨c, hc, hstages, -⟩ := hs.begin_eq hend
    rw [hc] at hbegin
    rwa [Cursor.separator?, Cursor.symbol?, Cursor.lexeme?_eq_stages, ← hstages,
      ← Cursor.lexeme?_eq_stages]

/-- Whether the steps from where a state stands find the trees that are read from there, without
the comments above them, and report what is reported while they are read. -/
def Finds (text : Bytes) (s : State) (r : Read (List Tree)) : Prop :=
  ∃ ds, Stepped text s.cursor.pos (r.value.map Tree.dropPre) ds ∧
    Report.notices r.state.reports = Report.notices s.reports ++ ds

theorem finds_of_atEnd (hlength : s.cursor.length = text.length) (hend : s.cursor.atEnd = true)
    (k : Nat) : Finds text s (entriesFrom (levels maxDepth) .top k none s) := by
  have hread : entriesFrom (levels maxDepth) .top k none s = ⟨[], s⟩ := by
    cases k with
    | zero => rfl
    | succ k => exact if_pos (.inl hend)
  have hpos : s.cursor.pos = text.length := (Cursor.pos_of_atEnd hend).trans hlength
  rw [hread]
  exact ⟨[], hpos ▸ Stepped.nil text, (List.append_nil _).symm⟩

/-- From where a word of a text begins, the steps find its entries. -/
theorem finds_entriesFrom {k : Nat} (hk : s.left ≤ k) (hs : s.Within ⟨anonymous, text⟩ start)
    (hlength : s.cursor.length = text.length) (hfree : SeparatorFree text s.cursor.pos) :
    Finds text s (entriesFrom (levels maxDepth) .top k none s) := by
  -- On the bound for the words left, for any state in the document.
  induction k generalizing s with
  | zero => exact finds_of_atEnd hlength (State.atEnd_of_left_eq_zero (Nat.le_zero.1 hk)) 0
  | succ k ih =>
    cases hend : s.cursor.atEnd with
    | true => exact finds_of_atEnd hlength hend _
    | false =>
      obtain ⟨t, hroot, hvalue, hpos, hreports⟩ := oneNode_of_within hs hlength hend
      obtain ⟨hs', hlength', hlt, hforward⟩ := behind_entry hs hlength hend
      have hfree' := hfree.next (Option.isSome_of_eq_some hroot)
      rw [← hpos] at hfree'
      obtain ⟨ds, hstepped, hnotices⟩ :=
        ih (Nat.le_of_lt_succ (hlt.trans_le hk)) hs' hlength' hfree'
      rw [hpos] at hstepped hforward
      rw [entriesFrom_of_unseparated hend (separator?_of_within hs hfree)
        (separator?_of_within hs' hfree')]
      exact ⟨_, hstepped.cons hroot hvalue hforward, by rw [hnotices, hreports, List.append_assoc]⟩

/-- The first step finds the first entry of a document, with the comment above it. -/
theorem oneNode_zero (hend : (State.begin ⟨anonymous, text⟩ 0).cursor.atEnd = false) :
    let p := oneNode text 0
    let e := entry (levels maxDepth) .top (State.begin ⟨anonymous, text⟩ 0).alloc.state
    let ρ := Relocation.shift 0 (1 + ·)
    ∃ t, p.root = some t ∧ e.value = ρ.tree t ∧ e.state.cursor.pos = p.stop ∧
      Report.notices e.state.reports = Report.notices p.reports := by
  intro p e ρ
  obtain ⟨hvalue, hpos, added, hadded, hreports⟩ :=
    @entry_renumbered (1 + ·) (State.begin ⟨anonymous, text⟩ 0)
      (State.begin ⟨anonymous, text⟩ 0).alloc.state maxDepth .top (State.started_ofLexemes _ _ _)
      rfl rfl rfl (fun j => by simp only [State.alloc]; omega) hend
  simp only [p, oneNode_of_not_atEnd hend]
  refine ⟨_, rfl, hvalue, hpos, ?_⟩
  rw [hreports, Report.notices_append, Report.notices_renumbered, ofState, hadded,
    Report.notices_append]
  rfl

/-- Entries without the comments above them, but for the first. -/
def dropLaterPre : List Tree → List Tree
  | [] => []
  | t :: ts => t :: ts.map Tree.dropPre

theorem length_dropLaterPre (ts : List Tree) : (dropLaterPre ts).length = ts.length := by
  cases ts with
  | nil => rfl
  | cons t ts => rw [dropLaterPre, List.length_cons, List.length_map, List.length_cons]

theorem getElem_dropLaterPre {ts : List Tree} {i : Nat} (hi : i < (dropLaterPre ts).length)
    (hi' : i < ts.length) :
    (dropLaterPre ts)[i] = if i = 0 then ts[i] else ts[i].dropPre := by
  cases ts with
  | nil => cases hi'
  | cons t ts =>
    cases i with
    | zero => rfl
    | succ i => exact List.getElem_map _

/-- The steps find the entries of a document, and report what is reported in it. -/
theorem stepped_document (path : String) (hfree : SeparatorFree text 0) :
    Stepped text 0 (dropLaterPre (document ⟨path, text⟩).entries)
      (Report.notices (document ⟨path, text⟩).reports) := by
  let s := (State.begin ⟨anonymous, text⟩ 0).alloc.state
  have hentries : (document ⟨path, text⟩).entries =
      (entriesFrom (levels maxDepth) .top s.left none s).value := rfl
  have hreports : (document ⟨path, text⟩).reports =
      (entriesFrom (levels maxDepth) .top s.left none s).state.reports := rfl
  rw [hentries, hreports]
  cases hend : s.cursor.atEnd with
  | true =>
    rw [State.left_of_atEnd hend]
    exact Stepped.of_atEnd hend
  | false =>
    obtain ⟨k, hk⟩ := exists_left_eq_succ hend (Nat.le_refl _)
    have hs : s.Within ⟨anonymous, text⟩ 0 := List.suffix_rfl
    have hsep : s.cursor.separator? = none :=
      @State.separator?_begin ⟨anonymous, text⟩ _ hfree.here
    -- The first step keeps the comment above its node, so it is apart from the others.
    obtain ⟨t, hroot, hvalue, hpos, hnotices⟩ := oneNode_zero hend
    obtain ⟨hs', hlength', hlt, hforward⟩ :=
      behind_entry hs (State.length_begin ⟨anonymous, text⟩) hend
    have hfree' := hfree.next (Option.isSome_of_eq_some hroot)
    rw [← hpos] at hfree'
    obtain ⟨ds, hstepped, hrest⟩ :=
      finds_entriesFrom (Nat.le_of_lt_succ (hlt.trans_eq hk)) hs' hlength' hfree'
    rw [hpos] at hstepped hforward
    rw [hk, entriesFrom_of_unseparated hend hsep (separator?_of_within hs' hfree'), hrest, hnotices]
    exact hstepped.cons hroot hvalue (Nat.zero_lt_of_lt hforward)

/-- A document may be read node by node, each from where the one before ended, if no separator
begins a step.  Every step goes on, the last one finds nothing and ends with the text.  The nodes
are the entries of the document, under other numbers and without the comments above them, except
that the first keeps its own.  What is reported is what is reported in the document. -/
theorem document_steps (path : String) (text : Bytes) (h : SeparatorFree text 0) :
    let doc := document ⟨path, text⟩
    let step (i : Nat) := oneNode text (offset text 0 i)
    (step doc.entries.length).root = none ∧ (step doc.entries.length).stop = text.length ∧
      (∀ i (hi : i < doc.entries.length),
        offset text 0 i < offset text 0 (i + 1) ∧
          ∃ t k, (step i).root = some t ∧ (Relocation.shift 0 (k + ·)).tree t =
            if i = 0 then doc.entries[i] else doc.entries[i].dropPre) ∧
      ((List.range (doc.entries.length + 1)).flatMap fun i =>
        (step i).diagnostics.map Diagnostic.dropNode) =
          doc.diagnostics.map Diagnostic.dropNode := by
  intro doc step
  have hstepped := stepped_document path h
  have hlength : (dropLaterPre doc.entries).length = doc.entries.length := length_dropLaterPre _
  have hends := hstepped.ends
  have hstop := hstepped.stop
  have hreports := hstepped.reports
  rw [hlength] at hends hstop hreports
  refine ⟨hends, hstop, fun i hi => ⟨hstepped.forward i (hlength.symm ▸ hi), ?_⟩, ?_⟩
  · obtain ⟨t, k, hroot, ht⟩ := hstepped.finds i (hlength.symm ▸ hi)
    exact ⟨t, k, hroot, by rw [← ht, getElem_dropLaterPre]⟩
  · simp only [diagnostics_dropNode]
    exact hreports

/-- Comments above nodes and behind them, faults in the blanks between them, and a bracket that
belongs to nothing. -/
theorem document_steps_faulty :
    let text := Utf8.ofString "// c\na: b // d\n\x01\n// e\n@t f\n)"
    SeparatorFree text 0 ∧
      (let doc := document ⟨"d", text⟩
      let step (i : Nat) := oneNode text (offset text 0 i)
      (step doc.entries.length).root = none ∧ (step doc.entries.length).stop = text.length ∧
        (∀ i (hi : i < doc.entries.length),
          offset text 0 i < offset text 0 (i + 1) ∧
            ∃ t k, (step i).root = some t ∧ (Relocation.shift 0 (k + ·)).tree t =
              if i = 0 then doc.entries[i] else doc.entries[i].dropPre) ∧
        ((List.range (doc.entries.length + 1)).flatMap fun i =>
          (step i).diagnostics.map Diagnostic.dropNode) =
            doc.diagnostics.map Diagnostic.dropNode) := by
  intro text
  have hfirst : ∀ i < 4, ∀ t ∈ (Token.all text (offset text 0 i)).find? (!·.isTrivia),
      t.symbol?.bind Separator.ofByte? = none := by decide +kernel
  have hlast : (oneNode text (offset text 0 3)).root.isSome = false := by decide +kernel
  have hfree : SeparatorFree text 0 := fun i hi => by
    refine hfirst i (Nat.lt_of_not_le fun hlt => ?_)
    rw [hi 3 hlt] at hlast
    cases hlast
  exact ⟨hfree, document_steps "d" text hfree⟩

end Parse

end Metadoc
