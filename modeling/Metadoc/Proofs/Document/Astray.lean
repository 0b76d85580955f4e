import Metadoc.Proofs.Document.Stepwise
import Metadoc.Proofs.Token.Reads

/-!
# Faults in trivia

Whatever part of a document is read, one stray node is made for each faulty piece of the trivia that
is read with it, and no other.

* `Token.isFaultyTrivium_eq` : trivia are faulty if they are bad characters or comments that are not
  closed;
* `State.Behind source pos s read` says that `read` are the lexemes behind a state, and that its
  stray nodes are those of the faulty trivia among them;
* `State.behind_begin`, `State.steps_behind` : that is so before the first word, and reading keeps
  it up;
* `State.Behind.eq_filter` : the lexemes behind are those that begin before the word ahead.
-/

namespace Metadoc

/-! ### Which trivia are faulty -/

/-- Whether a token is a faulty piece of trivia: a bad character, or a block comment that is not
closed. -/
def Token.isFaultyTrivium (t : Token) : Bool :=
  t.kind = .badCharacter || (t.kind = .comment && t.error = some .unterminatedComment)

theorem Scan.Reads.faulty {b : UInt8} {rest : Bytes} {scan : Scan} (h : Reads b rest scan) :
    (decide (scan.kind = .badCharacter) ||
      (decide (scan.kind = .comment) && decide (scan.error = some .unterminatedComment))) =
        (scan.kind.isTrivia && scan.error.isSome) := by
  cases h with
  | @block body slash star =>
    unfold blockComment
    cases hend : (blockLength body).2 <;> simp [hend, TokenKind.isTrivia]
  | _ => rfl

namespace Token

variable {text : Bytes} {pos : Nat} {t : Token}

theorem isFaultyTrivium_of_isTrivia (h : t.isTrivia = false) : t.isFaultyTrivium = false := by
  unfold isTrivia at h
  unfold isFaultyTrivium
  generalize t.kind = k at h
  cases k <;> first | rfl | cases h

/-- Trivia are faulty if a fault is recorded on them. -/
theorem isFaultyTrivium_eq (h : t ∈ all text pos) :
    t.isFaultyTrivium = (t.isTrivia && t.error.isSome) := by
  obtain ⟨b, rest, -, hhead⟩ := exists_of_mem_allFrom h
  rw [hhead]
  exact (Scan.reads_first b rest).faulty

end Token

namespace Lexeme

variable {source : Source} {pos : Nat} {l : Lexeme}

theorem isFaultyTrivium_eq (h : l ∈ all source pos) :
    l.isFaultyTrivium = (l.isTrivia && l.error.isSome) := by
  rw [all_eq_map] at h
  obtain ⟨t, ht, rfl⟩ := List.mem_map.1 h
  exact Token.isFaultyTrivium_eq ht

theorem filter_isFaultyTrivium {gap : List Lexeme}
    (h : ∀ l ∈ gap, l ∈ all source pos ∧ l.isTrivia = true) :
    gap.filter (·.isFaultyTrivium) = gap.filter (·.error.isSome) := by
  refine List.filter_congr fun l hl => ?_
  rw [isFaultyTrivium_eq (h l hl).1, (h l hl).2, Bool.true_and]

end Lexeme

/-! ### What lies behind -/

/-- The lexemes ahead, with the trivia behind each. -/
def Cursor.lexemesAhead (c : Cursor) : List Lexeme := c.stages.flatMap fun x => x.1 :: x.2

theorem Word.flatMap_stages (ws : List Word) (tail : List Lexeme) :
    gapBefore ws tail ++ (stages ws tail).flatMap (fun x => x.1 :: x.2) =
      ws.flatMap lexemes ++ tail := by
  induction ws with
  | nil => rw [stages, List.flatMap_nil, List.append_nil, List.flatMap_nil, List.nil_append]; rfl
  | cons w ws ih =>
    rw [stages, List.flatMap_cons, List.flatMap_cons, List.append_assoc, ← ih]
    simp [gapBefore, lexemes]

namespace State

theorem strays_foldl_reportTrivium (ls : List Lexeme) (s : State) :
    (ls.foldl reportTrivium s).strays.map Prod.snd =
      s.strays.map Prod.snd ++ (ls.filter (·.error.isSome)).map strayData := by
  induction ls generalizing s with
  | nil => simp
  | cons l ls ih =>
    rw [List.foldl_cons, ih]
    cases he : l.error with
    | none => simp [reportTrivium, he]
    | some e => simp [reportTrivium, reportFault, report, he, alloc]

/-- Whether `read` are the lexemes of a document behind a state, and the stray nodes are those of
the faulty trivia among them. -/
structure Behind (source : Source) (pos : Nat) (s : State) (read : List Lexeme) : Prop where
  /-- What is ahead is the last part of the document. -/
  within : s.Within source pos
  /-- The document has kept its length. -/
  length : s.cursor.length = source.length
  /-- The other lexemes are ahead. -/
  lexemes : Lexeme.all source pos = read ++ s.cursor.lexemesAhead
  /-- There is a stray node for each faulty piece of trivia. -/
  strays : s.strays.map Prod.snd = (read.filter (·.isFaultyTrivium)).map strayData

variable {source : Source} {pos : Nat} {s : State} {read : List Lexeme}

theorem Behind.of_eq {s' : State} (h : Behind source pos s read) (hc : s'.cursor = s.cursor)
    (hs : s'.strays = s.strays) : Behind source pos s' read :=
  ⟨by rw [Within, hc]; exact h.within, by rw [hc, h.length], by rw [hc, h.lexemes],
    by rw [hs, h.strays]⟩

/-- Before the first word, the gap before it is behind. -/
theorem behind_begin (source : Source) (pos : Nat) :
    Behind source pos (begin source pos) (begin source pos).cursor.gap := by
  let c := Cursor.ofLexemes source.length pos (Lexeme.all source pos)
  have hcursor : (begin source pos).cursor = c := cursor_ofLexemes ..
  have htrivia : ∀ l ∈ c.gap, l ∈ Lexeme.all source pos ∧ l.isTrivia = true := by
    rw [Cursor.gap_eq]
    exact fun l hl => Word.trivia_of_mem_gapBefore hl
  rw [hcursor]
  refine ⟨List.suffix_rfl, ?_, ?_, ?_⟩
  · rw [hcursor]
    rfl
  · rw [hcursor, Cursor.gap_eq, Cursor.lexemesAhead, Cursor.stages, Word.flatMap_stages]
    exact Word.split_eq _
  · rw [Lexeme.filter_isFaultyTrivium htrivia]
    exact strays_foldl_reportTrivium c.gap { cursor := c }

theorem Within.of_stages (hs : s.Within source pos) {l : Lexeme} {gap : List Lexeme}
    {rest : List (Lexeme × List Lexeme)} (h : s.cursor.stages = (l, gap) :: rest) :
    l.isTrivia = false ∧ ∀ m ∈ gap, m ∈ Lexeme.all source pos ∧ m.isTrivia = true := by
  have hmem : (l, gap) ∈ (begin source pos).cursor.stages := by
    refine hs.subset ?_
    rw [h]
    exact List.mem_cons_self
  rw [stages_begin] at hmem
  have hword : l ∈ (Lexeme.all source pos).filter (!·.isTrivia) := by
    rw [← Word.map_fst_stages _ []]
    exact List.mem_map_of_mem hmem
  exact ⟨by simpa using (List.mem_filter.1 hword).2, fun m hm => Word.trivia_of_mem_stages hmem hm⟩

/-- Stepping over a word leaves it behind, and the gap behind it. -/
theorem Behind.advance (h : Behind source pos s read) :
    ∃ read', Behind source pos s.advance read' := by
  unfold State.advance
  split
  · exact ⟨read, h⟩
  · rename_i hend
    obtain ⟨l, gap, rest, hstages⟩ := Cursor.exists_stages (Bool.not_eq_true _ ▸ hend)
    obtain ⟨hrest, hgap, -, -, hlength⟩ := Cursor.advance_of_stages hstages
    obtain ⟨hl, htrivia⟩ := h.within.of_stages hstages
    refine ⟨read ++ l :: gap, ?_, ?_, ?_, ?_⟩
    · rw [Within, cursor_reportGap, hrest]
      exact (hstages ▸ List.suffix_cons _ _ : rest <:+ s.cursor.stages).trans h.within
    · rw [cursor_reportGap, hlength, h.length]
    · rw [h.lexemes, Cursor.lexemesAhead, Cursor.lexemesAhead, cursor_reportGap, hrest, hstages,
        List.flatMap_cons, List.append_assoc]
    · have hfaulty : l.isFaultyTrivium = false := Token.isFaultyTrivium_of_isTrivia hl
      rw [reportGap, hgap, strays_foldl_reportTrivium, h.strays, List.filter_append,
        List.filter_cons_of_neg (by simp [hfaulty]), List.map_append,
        Lexeme.filter_isFaultyTrivium htrivia]

theorem strays_claim (s : State) : s.claim.state.strays = s.strays := by
  unfold claim
  split
  · split <;> rfl
  · rfl

/-- Reading makes a stray node for each faulty piece of trivia that it leaves behind. -/
theorem steps_behind (source : Source) (pos : Nat) :
    Steps fun s s' => (∃ read, Behind source pos s read) → ∃ read, Behind source pos s' read where
  refl _ := id
  trans h h' := h' ∘ h
  advance _ := fun ⟨_, h⟩ => h.advance
  alloc _ := fun ⟨read, h⟩ => ⟨read, h.of_eq rfl rfl⟩
  report _ _ _ _ := fun ⟨read, h⟩ => ⟨read, h.of_eq rfl rfl⟩
  claim s := fun ⟨read, h⟩ => ⟨read, h.of_eq (cursor_claim s) (strays_claim s)⟩

theorem Behind.eq_all (h : Behind source pos s read) (hend : s.cursor.atEnd = true) :
    read = Lexeme.all source pos := by
  rw [h.lexemes, Cursor.lexemesAhead, Cursor.stages_eq_nil hend, List.flatMap_nil, List.append_nil]

/-- The lexemes behind are those that begin before the word ahead. -/
theorem Behind.eq_filter (h : Behind source pos s read) :
    read = (Lexeme.all source pos).filter (·.start < s.cursor.pos) := by
  cases hend : s.cursor.atEnd with
  | true =>
    rw [h.eq_all hend, Cursor.pos_of_atEnd hend, h.length, eq_comm, List.filter_eq_self]
    exact fun l hl => decide_eq_true (Lexeme.start_lt_of_mem_all hl)
  | false =>
    obtain ⟨l, gap, rest, hstages⟩ := Cursor.exists_stages hend
    have hahead : s.cursor.lexemesAhead = l :: (gap ++ rest.flatMap fun x => x.1 :: x.2) := by
      rw [Cursor.lexemesAhead, hstages, List.flatMap_cons, List.cons_append]
    have hsorted := Lexeme.pairwise_lt_all source pos
    rw [h.lexemes, hahead, List.pairwise_append] at hsorted
    obtain ⟨-, hrest, hbefore⟩ := hsorted
    rw [List.pairwise_cons] at hrest
    rw [h.lexemes, hahead, Cursor.pos_of_stages hstages, List.filter_append,
      List.filter_cons_of_neg (by simp), List.filter_eq_self.2, List.filter_eq_nil_iff.2, List.append_nil]
    · exact fun m hm => by simpa using Nat.le_of_lt (hrest.1 m hm)
    · exact fun m hm => decide_eq_true (hbefore m hm l List.mem_cons_self)

end State

end Metadoc
