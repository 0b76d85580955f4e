import Metadoc.Proofs.Document.Embedding
import Metadoc.Proofs.Document.Layout
import Metadoc.Proofs.Document.Nesting

/-!
# A document in curly brackets

What may stand in a document may stand in a set in brackets, on lines of its own.

* `Parse.braced` puts a document in curly brackets;
* `Parse.document_braced` : a document without diagnostics is read in the same way inside curly
  brackets, if its sets leave a level for them.
-/

namespace Metadoc

namespace Parse

/-- A document with curly brackets around it, each on a line of its own. -/
def braced (source : Source) : Source :=
  ⟨source.path, Utf8.ofString "\x7b\n" ++ source.bytes ++ Utf8.ofString "\n\x7d"⟩

/-- The opening bracket, as a lexeme. -/
def openingBrace : Lexeme := Token.alone ⟨.symbol, 0, [0x7B], none, none⟩

/-- The closing bracket behind a text of `n` bytes, as a lexeme. -/
def closingBrace (n : Nat) : Lexeme := Token.alone ⟨.symbol, n + 3, [0x7D], none, none⟩

/-- What the set says that holds a document of `n` bytes. -/
def bracedData (n : Nat) : NodeData where
  kind := .main
  facets := { opened := some .brace, closed := some .brace }
  string := ""
  raw := ""
  bytes := []
  span := ⟨0, n + 4⟩

theorem bytes_braced (source : Source) : (braced source).bytes =
    0x7B :: ([Bytes.lineFeed] ++ (source.bytes ++ ([Bytes.lineFeed] ++ [0x7D]))) := by
  have hopen : Utf8.ofString "\x7b\n" = [0x7B, Bytes.lineFeed] := by decide
  have hclose : Utf8.ofString "\n\x7d" = [Bytes.lineFeed, 0x7D] := by decide
  rw [braced, hopen, hclose, List.append_assoc]
  rfl

/-- The lexemes of a document are found between those of the brackets. -/
theorem exists_fits_braced {source : Source} (h : ∀ t ∈ Token.all source.bytes 0, t.error = none) :
    ∃ e : Enclosure (.shift 2 (· + 1)), e.inner = Lexeme.all source 0 ∧
      Lexeme.all (braced source) 0 = openingBrace :: e.outer [closingBrace source.length] ∧
      (e.core = [] ∨ 0 < (Trivia.ofGap true e.lead').newlines) := by
  have hblank : ∀ b ∈ [Bytes.lineFeed], Ascii.isBlank b = true := List.forall_mem_singleton.2 rfl
  obtain ⟨e, he⟩ := Enclosure.exists_fits h hblank hblank rfl (z := [0x7D])
    (fun b hb => by cases hb; rfl) 1 (· + 1)
  refine ⟨e, ?_, ?_, he.before⟩
  · rw [he.inner, Lexeme.all_eq_map_alone]
  · have hclosing : (Token.allFrom (1 + 1 + source.bytes.length + 1) 0 [0x7D]).map Token.alone =
        [closingBrace source.length] := by
      rw [show 1 + 1 + source.bytes.length + 1 = source.length + 3 by unfold Source.length; omega]
      rfl
    have hopening (v : Bytes) : Token.allFrom 0 0 (0x7B :: v) =
        ⟨.symbol, 0, [0x7B], none, none⟩ :: Token.allFrom 1 0 v := rfl
    rw [Lexeme.all_eq_map_alone, bytes_braced, Token.all_zero, hopening, List.map_cons, he.outer,
      ← hclosing]
    rfl

section Braced

variable {source : Source} {e : Enclosure (.shift 2 (· + 1))}

theorem free_closingBrace : ∀ x ∈ (Word.stages (Word.split [closingBrace source.length]).1
    (Word.split [closingBrace source.length]).2).head?,
      x.1.symbol?.bind Separator.ofByte? = none := fun x hx => by cases hx; rfl

theorem ends_closingBrace {t : State}
    (ht : t.cursor.At (e.sequel [closingBrace source.length] free_closingBrace)) :
    t.cursor.stages = [(closingBrace source.length, [])] ∧ t.entriesEnd .bracketed := by
  have hstages : t.cursor.stages = [(closingBrace source.length, [])] := ht.stages
  refine ⟨hstages, .inr ⟨rfl, ?_⟩⟩
  rw [Cursor.closes?, Cursor.symbol?, Cursor.lexeme?_eq_stages, hstages]
  rfl

variable (hall : Lexeme.all (braced source) 0 =
  openingBrace :: e.outer [closingBrace source.length])
include hall

theorem begin_braced : (State.begin (braced source) 0).cursor.Before
      (openingBrace :: e.outer [closingBrace source.length]) ∧
    State.SameBooks { cursor := (State.begin (braced source) 0).cursor }
      (State.begin (braced source) 0) := by
  have hbefore := State.before_begin (braced source)
  rw [hall] at hbefore
  refine ⟨hbefore, State.sameBooks_begin ?_⟩
  rw [(hbefore.lexeme? rfl).2]
  exact List.forall_mem_nil _

theorem advance_braced {s : State} (hs : s.cursor = (State.begin (braced source) 0).cursor) :
    s.advance.cursor.Before (e.outer [closingBrace source.length]) ∧
      State.SameBooks s s.advance := by
  obtain ⟨hbefore, -⟩ := begin_braced hall
  rw [← hs] at hbefore
  have hbehind := hbefore.advance rfl
  rw [← State.cursor_advance] at hbehind
  refine ⟨hbehind, State.sameBooks_advance fun l hl => ?_⟩
  exact Enclosure.quiet_outer (List.forall_mem_singleton.2 rfl) l (hbehind.mem_of_mem_gap hl)

open Grammar

theorem bare_braced {n : Nat} {s t : State} {cs : List Tree}
    (hs : s.cursor = (State.begin (braced source) 0).cursor) (hcount : s.count = 1)
    (hbody : Run n (.entries .bracketed none) s.alloc.state.advance (Read.many ⟨cs, t⟩))
    (ht : t.cursor.stages = [(closingBrace source.length, [])]) :
    Run (n + 1) (.bare .top []) s
      (Read.one ⟨.node 1 (bracedData source.length) [] cs, t.advance⟩) := by
  obtain ⟨hbefore, -⟩ := begin_braced hall
  rw [← hs] at hbefore
  obtain ⟨hlexeme, -⟩ := hbefore.lexeme? rfl
  have hsymbol : s.cursor.symbol? = some 0x7B := by
    rw [Cursor.symbol?, hlexeme]
    rfl
  have ho : s.cursor.opens? = some .brace := by
    rw [Cursor.opens?, hsymbol]
    rfl
  have hc : t.cursor.closes? = some .brace := by
    rw [Cursor.closes?, Cursor.symbol?, Cursor.lexeme?_eq_stages, ht]
    rfl
  have hpos : s.cursor.pos = 0 := by
    rw [Cursor.pos, Cursor.span_of_lexeme hlexeme]
    rfl
  obtain ⟨-, hgap, hprev, -⟩ := Cursor.advance_of_stages ht
  rw [← State.cursor_advance] at hgap hprev
  -- Nothing stands behind the closing bracket, so the node takes no comment.
  have hclaim : t.advance.claim = ⟨"", t.advance⟩ := by
    rw [State.claim, Cursor.trivia, hgap]
    rfl
  have hset : close 1 0 .main noLabel { opened := some .brace, closed := some .brace } cs
      t.advance = ⟨.node 1 (bracedData source.length) [] cs, t.advance⟩ := by
    rw [close, hclaim, State.spanFrom, hprev, Nat.max_zero]
    rfl
  have hrun := @Run.unlabeled (n + 1) .top [] s .brace _ (Cursor.label?_of_reserved hsymbol rfl) ho
    (.bracketedClosed ho hbody hc)
  rw [hcount, hpos] at hrun
  rw [← hset]
  exact hrun

theorem run_braced {n : Nat} {s t : State} {cs : List Tree}
    (hs : s.cursor = (State.begin (braced source) 0).cursor) (hcount : s.count = 1)
    (hbody : Run n (.entries .bracketed none) s.alloc.state.advance (Read.many ⟨cs, t⟩))
    (ht : t.cursor.stages = [(closingBrace source.length, [])]) :
    Run (n + 1) (.entries .top none) s
      (Read.many ⟨[.node 1 (bracedData source.length) [] cs], t.advance⟩) := by
  have hbare := bare_braced hall hs hcount hbody ht
  obtain ⟨hbefore, -⟩ := begin_braced hall
  rw [← hs] at hbefore
  obtain ⟨hlexeme, hgap⟩ := hbefore.lexeme? rfl
  have hsymbol : s.cursor.symbol? = some 0x7B := by
    rw [Cursor.symbol?, hlexeme]
    rfl
  have hat : s.cursor.isAt tagMark = false := by
    rw [Cursor.isAt, hsymbol]
    rfl
  have hentry : Run (n + 1) (.entry .top) s
      (Read.one ⟨.node 1 (bracedData source.length) [] cs, t.advance⟩) := by
    have hnode := @Run.node _ .top s ⟨[], s⟩ _ (.tagsEnd hat) hbare
    rw [Cursor.trivia, hgap] at hnode
    exact .entry hnode
  have hmore : ¬s.entriesEnd .top := by
    rintro (hnone | ⟨hctx, -⟩)
    · rw [Cursor.atEnd_of_symbol hsymbol] at hnone
      cases hnone
    · cases hctx
  have hsep : s.cursor.separator? = none := by
    rw [Cursor.separator?, hsymbol]
    rfl
  obtain ⟨hstages, -⟩ := Cursor.advance_of_stages ht
  rw [← State.cursor_advance] at hstages
  have hend : t.advance.cursor.atEnd = true := by
    rw [← Cursor.isEmpty_stages, hstages]
    rfl
  have hsep' : t.advance.cursor.separator? = none := by
    rw [Cursor.separator?, Cursor.symbol?, Cursor.lexeme?_eq_stages, hstages]
    rfl
  exact @Run.unseparated _ _ _ _ _ ⟨[], t.advance⟩ hmore hsep hentry hsep' (.entriesEnd (.inl hend))

/-- The entries of the document are read between the brackets. -/
theorem exists_run_braced {n : Nat} (hinner : e.inner = Lexeme.all source 0)
    (hbreak : e.core = [] ∨ 0 < (Trivia.ofGap true e.lead').newlines)
    {r : Read (List Tree)}
    (hrun : Run n (.entries .top none) (State.begin source 0).alloc.state r.many)
    (hq : r.state.reports = []) :
    ∃ t, Run n (.entries .bracketed none)
        (State.begin (braced source) 0).alloc.state.alloc.state.advance
        (Read.many ⟨(Relocation.shift 2 (· + 1)).trees r.value, t⟩) ∧
      t.cursor.stages = [(closingBrace source.length, [])] ∧ t.reports = [] := by
  obtain ⟨-, hstart⟩ := begin_braced hall
  obtain ⟨hbefore', hbehind⟩ :=
    @advance_braced _ _ hall (State.begin (braced source) 0).alloc.state.alloc.state rfl
  have hbefore : (State.begin source 0).alloc.state.cursor.Before e.inner :=
    hinner ▸ State.before_begin source
  have hbooked : State.Booked (.shift 2 (· + 1)) (State.begin source 0).alloc.state
      (State.begin (braced source) 0).alloc.state.alloc.state.advance := by
    have hbase (c c' : Cursor) : State.Booked (.shift 2 (· + 1)) { cursor := c, count := 1 }
        { cursor := c', count := 2 } := ⟨fun j => Nat.add_right_comm 1 j 1, rfl, rfl⟩
    have hbegin : State.SameBooks { cursor := (State.begin source 0).cursor }
        (State.begin source 0) :=
      State.sameBooks_begin fun l hl => e.quiet_inner l (hbefore.mem_of_mem_gap hl)
    exact (hbase _ _).congr hbegin.alloc (hstart.alloc.alloc.trans hbehind)
  have hstarted : (State.begin source 0).alloc.state.cursor.started = false :=
    State.started_begin source
  generalize (State.begin (braced source) 0).alloc.state.alloc.state.advance = s' at *
  generalize (State.begin source 0).alloc.state = s at *
  cases hend : s.cursor.atEnd with
  | true =>
    -- Without words there are no entries.
    have hat : s'.cursor.At (e.sequel _ free_closingBrace) :=
      Enclosure.at_of_atEnd hbefore hend hbefore'
    obtain ⟨hstages, hends⟩ := ends_closingBrace hat
    obtain rfl : r = ⟨[], s⟩ := hrun.eq_nil_of_entriesEnd (.inl hend)
    refine ⟨s', .entriesEnd hends, hstages, ?_⟩
    rw [hbooked.reports, hq]
    rfl
  | false =>
    have hcore : e.core ≠ [] := by
      intro hnil
      have hstages := Cursor.stages_ne_nil hend
      rw [Enclosure.stages_inner hbefore, hnil] at hstages
      exact hstages rfl
    have hlike : State.Like _ (some (e.sequel _ free_closingBrace)) s s' :=
      e.like hbefore hbefore' hend hstarted (fun _ => hbreak.resolve_left hcore) hbooked
    have hctx : Context.bracketed ≠ .line := by decide
    obtain ⟨t, base, hat, hbase, hbooks, hmore⟩ := e.exists_run hctx hlike hend hrun hq
    obtain ⟨hstages, hends⟩ := ends_closingBrace hat
    refine ⟨t, ?_, hstages, ?_⟩
    · have hread := hmore ⟨[], t⟩ (.entriesEnd hends)
      rwa [List.append_nil] at hread
    · have hlead : ∀ l ∈ (e.sequel [closingBrace source.length] free_closingBrace).lead,
          l.error = none := List.forall_mem_singleton.2 e.blank_stop.2
      rw [State.foldl_reportTrivium_quiet hlead] at hbooks
      rw [hbooks.reports, hbase.reports, hq]
      rfl

end Braced

/-- What is read without a diagnostic, with sets around it one less deep than they may be, is read
in the same way as the set that curly brackets make of it. -/
theorem document_braced (source : Source) (hq : (document source).diagnostics = [])
    (hdepth : Tree.nestingAll (document source).entries ≤ 127) :
    (document (braced source)).diagnostics = [] ∧
      (document (braced source)).root = some (.node 0 (rootData (braced source)) []
        [.node 1 (bracedData source.length) []
          ((Relocation.shift 2 (· + 1)).trees (document source).entries)]) := by
  have htokens := error_of_quiet hq
  have hrun := Grammar.run_entries Grammar.maxDepth .top (State.begin source 0).alloc.state
  rw [document_of_run hrun] at hq hdepth ⊢
  have hreports := List.map_eq_nil_iff.1 hq
  obtain ⟨e, hinner, hall, hbreak⟩ := exists_fits_braced htokens
  obtain ⟨t, hbody, hstages, ht⟩ := exists_run_braced hall hinner hbreak
    (hrun.with_levels hreports hdepth) hreports
  have hcount : (State.begin (braced source) 0).count = 0 := (begin_braced hall).2.count
  have hgap : t.advance.cursor.gap = [] := by
    rw [State.cursor_advance]
    exact (Cursor.advance_of_stages hstages).2.1
  have hbehind : State.SameBooks t t.advance := State.sameBooks_advance (by rw [hgap]; exact List.forall_mem_nil _)
  rw [document_of_run (run_braced hall rfl (congrArg (· + 1) hcount) hbody hstages), hcount]
  refine ⟨?_, rfl⟩
  rw [diagnostics, ofState, hbehind.reports, ht, List.map_nil]

/-- A comment at the end of the line, a tag with arguments and a set without brackets. -/
theorem document_braced_tagged :
    let source : Source := ⟨"d", Utf8.ofString "// a\n@t(x) b: c: (d) // e\n\nf;"⟩
    (document source).diagnostics = [] ∧ Tree.nestingAll (document source).entries ≤ 127 ∧
      (document (braced source)).diagnostics = [] ∧
      (document (braced source)).root = some (.node 0 (rootData (braced source)) []
        [.node 1 (bracedData source.length) []
          ((Relocation.shift 2 (· + 1)).trees (document source).entries)]) :=
  ⟨by decide +kernel, by decide +kernel,
    document_braced _ (by decide +kernel) (by decide +kernel)⟩

end Parse

end Metadoc
