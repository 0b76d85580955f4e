import Metadoc.Proofs.Document.Completeness

/-!
# Labels and sets in any spacing

An outline is written with spaces everywhere.  Labels and sets without tags, colons and separators
are read no matter where the spaces are.

* `Piece.StandFor n ps ts` : the pieces `ps` are labels and sets and stand for the nodes `ts`, with
  at most `n` sets around anything;
* `StandFor.readsInside` : between brackets they are read as these nodes, without a report;
* `Parse.oneNode_set` : so is a whole text that is one set of them.
-/

namespace Metadoc

open Grammar (Run ReadsInside)
open Outline (nodeData)

namespace Tree

/-- The node of a label alone, without number and place. -/
def ofLabel (t : LabelText) : Tree := .node 0 (nodeData .main (some t.label) {}) [] []

/-- The node of a set in brackets without a label, without number and place. -/
def ofSet (d : Delimiter) (members : List Tree) : Tree :=
  .node 0 (nodeData .main none { opened := some d, closed := some d }) [] members

end Tree

namespace Piece

/-- What pieces stand for that are labels and sets, with or without spaces before them, with at most
`n` sets around anything. -/
inductive StandFor : Nat → List Piece → List Tree → Prop
  /-- Nothing. -/
  | nil {n} : StandFor n [] []
  /-- A label. -/
  | label {n ps ts} (spaced t) (rest : StandFor n ps ts) :
      StandFor n (⟨spaced, .label t⟩ :: ps) (.ofLabel t :: ts)
  /-- A set in brackets. -/
  | set {n ps ts qs us} (spaced before d) (inside : StandFor n ps ts)
      (rest : StandFor (n + 1) qs us) :
      StandFor (n + 1) (⟨spaced, .opening d⟩ :: (ps ++ ⟨before, .closing d⟩ :: qs))
        (.ofSet d ts :: us)

namespace StandFor

variable {n : Nat} {ps qs : List Piece} {ts us : List Tree}

theorem one (spaced : Bool) (t : LabelText) : StandFor n [⟨spaced, .label t⟩] [.ofLabel t] :=
  .label spaced t .nil

theorem append (h : StandFor n ps ts) (h' : StandFor n qs us) :
    StandFor n (ps ++ qs) (ts ++ us) := by
  induction h with
  | nil => exact h'
  | label spaced t _ ih => exact .label spaced t (ih h')
  | set spaced before d inside _ _ ih =>
    rw [List.cons_append, List.append_assoc]
    exact .set spaced before d inside (ih h')

end StandFor

/-- Pieces that begin with a label, an opening bracket or a closing bracket. -/
def Plain (ps : List Piece) : Prop :=
  ∃ p qs, ps = p :: qs ∧
    (p.sign.begins = true ∧ p.sign ≠ .at ∨ ∃ d, p.sign = .closing d)

theorem StandFor.plain {n : Nat} {ps : List Piece} {ts : List Tree} (h : StandFor n ps ts)
    (spaced : Bool) (closed : Delimiter) (more : List Piece) :
    Plain (ps ++ ⟨spaced, .closing closed⟩ :: more) := by
  cases h with
  | nil => exact ⟨_, more, rfl, .inr ⟨closed, rfl⟩⟩
  | label | set => exact ⟨_, _, rfl, .inl ⟨rfl, nofun⟩⟩

theorem Plain.mark_ne {ps : List Piece} (h : Plain ps) : mark? ps ≠ some labelMark := by
  obtain ⟨⟨spaced, sign⟩, qs, rfl, ⟨hbegins, -⟩ | ⟨d, rfl⟩⟩ := h
  · intro hmark
    cases Sign.eq_colon_of_mark hmark
    cases hbegins
  · cases d <;> nofun

end Piece

open Piece (StandFor Plain)

theorem State.Shows.separator?_of_plain {s : State} {ps : List Piece} (hs : s.Shows ps)
    (h : Plain ps) : s.cursor.separator? = none := by
  obtain ⟨⟨spaced, sign⟩, qs, rfl, ⟨hbegins, -⟩ | ⟨d, rfl⟩⟩ := h
  · exact hs.separator?_of_begins hbegins
  · exact hs.separator?_of_ends (.set spaced d qs)

namespace Grammar

variable {n : Nat} {s : State} {ps : List Piece}

theorem tags_of_ne_at {p : Piece} (hs : s.Shows (p :: ps)) (hp : p.sign ≠ .at) :
    Run n .tags s (Read.many ⟨[], s⟩) := by
  refine .tagsEnd ?_
  rw [hs.isAt (by decide), Piece.mark?_cons]
  obtain ⟨spaced, sign⟩ := p
  cases sign with
  | opening d | closing d => cases d <;> rfl
  | separator sep => cases sep <;> rfl
  | colon | label t => rfl
  | «at» => exact absurd rfl hp

theorem exists_run_entries_cons {p : Piece} (hs : s.Shows (p :: ps)) (hp : p.sign.begins = true)
    (hat : p.sign ≠ .at) {t : Read Tree} (hbare : Run n (.bare .bracketed []) s t.one)
    {label : Option Label} {facets : Facets} {cs : List Tree}
    (ht : t.value.unplaced = .node 0 (nodeData .main label facets) [] cs)
    (hbefore : facets.precededBy = none) {qs : List Piece} (hbehind : t.state.Shows qs)
    (hqs : Plain qs) {rs : Read (List Tree)}
    (hrest : Run n (.entries .bracketed none) t.state (Read.many rs)) :
    ∃ r : Read (List Tree), Run n (.entries .bracketed none) s (Read.many r) ∧
      r.state = rs.state ∧
      Tree.unplacedAll r.value =
        .node 0 (nodeData .main label facets) [] cs :: Tree.unplacedAll rs.value := by
  have hpre : (nodeData .main label facets).pre = "" := by cases label <;> rfl
  obtain ⟨e, hnode, hstate, he⟩ :=
    exists_run_node_of_bare hs (tags_of_ne_at hs hat) hbare hpre ht
  rw [← hstate] at hbehind hrest
  refine exists_run_unseparated hs hp hnode (hbehind.separator?_of_plain hqs) he ?_ hrest
  cases label <;> exact hbefore

end Grammar

/-- Labels and sets between brackets are read as the nodes that they stand for. -/
theorem Piece.StandFor.readsInside {n : Nat} {ps : List Piece} {ts : List Tree}
    (h : StandFor n ps ts) (before : Bool) : ReadsInside n ps before ts := by
  -- The bracket around what is read stays the same, but that of an inner set is its own.
  induction h generalizing before with
  | nil => exact fun s closed more hs =>
      ⟨⟨[], s⟩, .entriesEnd (hs.entriesEnd (.set before closed more)), hs, rfl⟩
  | @label n ps ts spaced t rest ih =>
    intro s closed more hs
    rw [List.cons_append] at hs
    have hplain := rest.plain before closed more
    obtain ⟨e, hbare, hbehind, he⟩ := Grammar.exists_run_label hs hplain.mark_ne []
    obtain ⟨rs, hruns, hend, hrs⟩ := ih before e.state closed more hbehind
    obtain ⟨r, hrun, hstate, hr⟩ :=
      Grammar.exists_run_entries_cons hs rfl nofun hbare he rfl hbehind hplain hruns
    exact ⟨r, hrun, hstate ▸ hend, by rw [hr, hrs]; rfl⟩
  | @set n ps ts qs us spaced inner d inside rest ihInside ih =>
    intro s closed more hs
    rw [List.cons_append, List.append_assoc, List.cons_append] at hs
    have hplain := rest.plain before closed more
    have hctx : Context.bracketed ≠ .line := nofun
    obtain ⟨e, hbare, hbehind, he⟩ :=
      Grammar.exists_run_unlabeled hctx (ihInside inner) hs []
    obtain ⟨rs, hruns, hend, hrs⟩ := ih before e.state closed more hbehind
    obtain ⟨r, hrun, hstate, hr⟩ :=
      Grammar.exists_run_entries_cons hs rfl nofun hbare he rfl hbehind hplain hruns
    exact ⟨r, hrun, hstate ▸ hend, by rw [hr, hrs]; rfl⟩

/-- A text that is one set of labels and sets is read as one node, without a diagnostic. -/
theorem Parse.oneNode_set {n : Nat} {ps : List Piece} {ts : List Tree} (h : StandFor n ps ts)
    (hn : n + 1 = Grammar.maxDepth) (before : Bool) (d : Delimiter)
    (hseparate : Piece.Separate (⟨false, .opening d⟩ :: (ps ++ [⟨before, .closing d⟩]))) :
    ∃ root, (oneNode ((⟨false, .opening d⟩ :: (ps ++ [⟨before, .closing d⟩])).flatMap Piece.bytes)
          0).diagnostics = [] ∧
      (oneNode ((⟨false, .opening d⟩ :: (ps ++ [⟨before, .closing d⟩])).flatMap Piece.bytes)
          0).root = some root ∧
      root.unplaced = .ofSet d ts := by
  have hs := shows_flatMap anonymous hseparate
  have hctx : Context.top ≠ .line := nofun
  obtain ⟨t, hbare, hshows, ht⟩ :=
    Grammar.exists_run_unlabeled hctx (h.readsInside before) hs []
  obtain ⟨r, hrun, hstate, hr⟩ :=
    Grammar.exists_run_node_of_bare hs (Grammar.tags_of_ne_at hs nofun) hbare rfl ht
  have hentry := Grammar.one_inj (Run.entry hrun).yields
  rw [hn] at hentry
  rw [oneNode, oneNodeTo, firstNode, hs.atEnd_eq, List.isEmpty_cons, if_neg Bool.false_ne_true,
    hentry]
  refine ⟨r.value, ?_, rfl, hr⟩
  rw [diagnostics, ofState, hstate, hshows.reports, List.map_nil]

end Metadoc
