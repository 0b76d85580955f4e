import Metadoc.Proofs.Document.Flawless
import Metadoc.Proofs.Document.Relocation

/-!
# States that look alike

Two readings stand alike when the same words are ahead, each found where it has been moved to, and
the gaps between them say the same.  The second of the texts may go on where the first ends.

* `Gap.Like` compares what two gaps say: their line breaks, as far as they matter, the comments
  beside them and their faults;
* `Ahead` compares what is ahead, and `Sequel` is what the second text goes on with;
* `State.Like` compares states.  `State.Inside` says that the first text is not used up where the
  second goes on;
* every step of a state leads from states that are alike to such states: `State.Like.alloc`,
  `State.Like.report`, `State.Like.advance`, `State.Like.claim`.
-/

namespace Metadoc

/-! ### Gaps -/

namespace Gap

/-- The texts of the comments of a gap that may belong to the nodes beside it, the one behind the
word before and the one above the word after. -/
def trailingText (gap : List Lexeme) : Option String :=
  (Trivia.ofGap true gap).trailing.map (·.commentText)

/-- Whether two gaps say the same.  Line breaks matter up to the second. -/
structure Like (ρ : Relocation) (gap gap' : List Lexeme) : Prop where
  /-- There are as many line breaks. -/
  newlines : min (Trivia.ofGap true gap').newlines 2 = min (Trivia.ofGap true gap).newlines 2
  /-- The comment behind the word before says the same. -/
  trailing : trailingText gap' = trailingText gap
  /-- The comment above the word after says the same. -/
  leading : (Trivia.ofGap true gap').leadingText = (Trivia.ofGap true gap).leadingText
  /-- The words beside the gap touch in both places. -/
  isEmpty : gap'.isEmpty = gap.isEmpty
  /-- The same lexemes are faulty. -/
  faults : gap'.filter (·.error.isSome) = (gap.filter (·.error.isSome)).map ρ.lexeme
  /-- Each of them is found in one piece. -/
  rigid : ∀ l ∈ gap, l.error.isSome = true → ρ.Rigid l

/-- Whether a gap at the end of a text, which is without fault, says as much about the word before
it as one that the line ends in and that goes on with `lead`. -/
structure Seam (lead gap gap' : List Lexeme) : Prop where
  /-- The comment behind the word before says the same. -/
  trailing : trailingText gap' = trailingText gap
  /-- The line ends. -/
  newlines : 0 < (Trivia.ofGap true gap').newlines
  /-- Nothing is to be reported. -/
  quiet : ∀ l ∈ gap, l.error = none
  /-- Nothing is to be reported before the other gap goes on. -/
  own : ∃ own, gap' = own ++ lead ∧ ∀ l ∈ own, l.error = none

end Gap

/-! ### What is ahead -/

/-- The gap before the first of the words, or at the end of the text. -/
def Word.gapBefore : List Word → List Lexeme → List Lexeme
  | [], tail => tail
  | w :: _, _ => w.gap

/-- The lexemes of words, each with the gap behind it. -/
def Word.stages : List Word → List Lexeme → List (Lexeme × List Lexeme)
  | [], _ => []
  | w :: ws, tail => (w.lexeme, gapBefore ws tail) :: stages ws tail

/-- The lexemes ahead, each with the gap behind it. -/
def Cursor.stages (c : Cursor) : List (Lexeme × List Lexeme) := Word.stages c.ahead c.tail

/-- What a text goes on with behind another. -/
structure Sequel where
  /-- The rest of the gap. -/
  lead : List Lexeme
  /-- The lexemes, each with the gap behind it. -/
  stages : List (Lexeme × List Lexeme)
  /-- The first of them is no separator. -/
  free : ∀ x ∈ stages.head?, x.1.symbol?.bind Separator.ofByte? = none

section Ahead

variable (ρ : Relocation) (k : Option Sequel)

/-- Whether the gap before `ahead` says the same in both places.  Where a sequel follows at once, it
is a seam. -/
structure Between (ahead : List (Lexeme × List Lexeme)) (gap gap' : List Lexeme) : Prop where
  /-- Before a lexeme or the end of both texts, the gaps say the same. -/
  like : k = none ∨ ahead ≠ [] → Gap.Like ρ gap gap'
  /-- Before the sequel, the line ends. -/
  seam : ∀ q ∈ k, ahead = [] → Gap.Seam q.lead gap gap'

variable {ρ} in
/-- Where both texts end, the gaps need only say the same. -/
theorem Between.of_like {ahead : List (Lexeme × List Lexeme)} {gap gap' : List Lexeme}
    (h : Gap.Like ρ gap gap') : Between ρ none ahead gap gap' :=
  ⟨fun _ => h, fun q hq => by cases hq⟩

/-- Whether the same lexemes are ahead, with a sequel behind those of the second text. -/
inductive Ahead : List (Lexeme × List Lexeme) → List (Lexeme × List Lexeme) → Prop
  | nil : Ahead [] ((k.map Sequel.stages).getD [])
  | cons {l gap gap' ahead ahead'} (rigid : ρ.Rigid l) (between : Between ρ k ahead gap gap')
      (rest : Ahead ahead ahead') : Ahead ((l, gap) :: ahead) ((ρ.lexeme l, gap') :: ahead')

end Ahead

/-! ### States -/

namespace State

/-- Whether the numbers that are handed out, the stray nodes and the reports are found in the other
place. -/
structure Booked (ρ : Relocation) (s s' : State) : Prop where
  /-- The numbers to come are found in order. -/
  count : ∀ j, ρ.number (s.count + j) = s'.count + j
  /-- The stray nodes are found. -/
  strays : s'.strays = s.strays.map ρ.stray
  /-- The reports are found. -/
  reports : s'.reports = s.reports.map ρ.report

/-- Whether two states have handed out, put aside and reported the same. -/
structure SameBooks (s s' : State) : Prop where
  /-- As many numbers are handed out. -/
  count : s'.count = s.count
  /-- The stray nodes are the same. -/
  strays : s'.strays = s.strays
  /-- The reports are the same. -/
  reports : s'.reports = s.reports

/-- Whether a text is not used up, if another goes on behind it. -/
def Inside (k : Option Sequel) (s : State) : Prop := k = none ∨ s.cursor.atEnd = false

/-- Whether two states look alike.  Before the first word of the first text nothing is behind. -/
structure Like (ρ : Relocation) (k : Option Sequel) (s s' : State) : Prop where
  /-- The same lexemes are ahead. -/
  ahead : Ahead ρ k s.cursor.stages s'.cursor.stages
  /-- The texts end in the same place. -/
  length : k = none → s'.cursor.length = ρ.place s.cursor.length
  /-- The comment above the word ahead says the same. -/
  leading : Inside k s → s'.cursor.trivia.leadingText = s.cursor.trivia.leadingText
  /-- Where a word is behind, it is behind in both texts. -/
  started : s.cursor.started = true → s'.cursor.started = true
  /-- It ends in the same place. -/
  prevEnd : s.cursor.started = true → s'.cursor.prevEnd = ρ.place s.cursor.prevEnd
  /-- The comment behind it is claimed in both or in none. -/
  claimed : s.cursor.started = true → s'.claimed = s.claimed
  /-- The gaps behind it say the same. -/
  gap : s.cursor.started = true → Between ρ k s.cursor.stages s.cursor.gap s'.cursor.gap
  /-- The books agree. -/
  booked : Inside k s → Booked ρ s s'
  /-- Where the second text goes on, only the faults of the gap have been added. -/
  overrun : ¬Inside k s → ∃ base, Booked ρ s base ∧
    SameBooks (s'.cursor.gap.foldl reportTrivium base) s'

end State

/-! ### Gaps between words -/

namespace Word

theorem gap_of_mem_stages {ws : List Word} {tail : List Lexeme} {x : Lexeme × List Lexeme}
    (h : x ∈ stages ws tail) : (∃ w ∈ ws, x.2 = w.gap) ∨ x.2 = tail := by
  induction ws with
  | nil => cases h
  | cons w ws ih =>
    rcases List.mem_cons.1 h with rfl | h
    · cases ws with
      | nil => exact .inr rfl
      | cons w' ws => exact .inl ⟨w', List.mem_cons_of_mem _ List.mem_cons_self, rfl⟩
    · exact (ih h).imp_left fun ⟨w', hw', hx⟩ => ⟨w', List.mem_cons_of_mem _ hw', hx⟩

/-- The gaps before words and behind the last one hold nothing but trivia. -/
theorem trivia_of_gap {ls gap : List Lexeme}
    (h : (∃ w ∈ (split ls).1, gap = w.gap) ∨ gap = (split ls).2) {l : Lexeme} (hl : l ∈ gap) :
    l ∈ ls ∧ l.isTrivia = true := by
  rcases h with ⟨w, hw, rfl⟩ | rfl
  · exact ⟨mem_lexemes_of_mem_split hw (List.mem_append_left _ hl),
      (wellFormed_of_mem_split hw).gap l hl⟩
  · refine ⟨?_, isTrivia_of_mem_split hl⟩
    rw [split_eq ls]
    exact List.mem_append_right _ hl

theorem trivia_of_mem_stages {ls : List Lexeme} {x : Lexeme × List Lexeme}
    (h : x ∈ stages (split ls).1 (split ls).2) {l : Lexeme} (hl : l ∈ x.2) :
    l ∈ ls ∧ l.isTrivia = true := trivia_of_gap (gap_of_mem_stages h) hl

theorem trivia_of_mem_gapBefore {ls : List Lexeme} {l : Lexeme}
    (hl : l ∈ gapBefore (split ls).1 (split ls).2) : l ∈ ls ∧ l.isTrivia = true := by
  refine trivia_of_gap ?_ hl
  cases (split ls).1 with
  | nil => exact .inr rfl
  | cons w ws => exact .inl ⟨w, List.mem_cons_self, rfl⟩

end Word

/-! ### The cursor in stages -/

namespace Cursor

variable {c : Cursor}

theorem gap_eq (c : Cursor) : c.gap = Word.gapBefore c.ahead c.tail := by
  unfold gap Word.gapBefore
  cases c.ahead <;> rfl

theorem lexeme?_eq_stages (c : Cursor) : c.lexeme? = c.stages.head?.map Prod.fst := by
  unfold lexeme? word? stages
  cases c.ahead <;> rfl

theorem isEmpty_stages (c : Cursor) : c.stages.isEmpty = c.atEnd := by
  unfold atEnd stages
  cases c.ahead <;> rfl

theorem exists_lexeme (h : c.atEnd = false) : ∃ l, c.lexeme? = some l := by
  unfold atEnd at h
  unfold lexeme? word?
  cases hahead : c.ahead with
  | nil => simp [hahead] at h
  | cons w ws => exact ⟨w.lexeme, rfl⟩

theorem span_of_lexeme {l : Lexeme} (h : c.lexeme? = some l) : c.span = l.span := by
  obtain ⟨w, ws, hahead, rfl⟩ := exists_ahead_of_lexeme h
  simp only [span, hahead]

theorem span_of_atEnd (h : c.atEnd = true) : c.span = ⟨c.length, c.length⟩ := by
  simp only [span, List.isEmpty_iff.1 h]

theorem stages_ne_nil (h : c.atEnd = false) : c.stages ≠ [] := by
  intro hnil
  rw [← isEmpty_stages, hnil] at h
  cases h

theorem stages_eq_nil (h : c.atEnd = true) : c.stages = [] := by
  rw [← isEmpty_stages] at h
  exact List.isEmpty_iff.1 h

theorem exists_stages (h : c.atEnd = false) : ∃ l gap rest, c.stages = (l, gap) :: rest := by
  obtain ⟨⟨l, gap⟩, rest, hstages⟩ := List.exists_cons_of_ne_nil (stages_ne_nil h)
  exact ⟨l, gap, rest, hstages⟩

theorem pos_of_atEnd (h : c.atEnd = true) : c.pos = c.length :=
  congrArg Span.start (span_of_atEnd h)

theorem pos_of_stages {l : Lexeme} {gap : List Lexeme} {rest : List (Lexeme × List Lexeme)}
    (h : c.stages = (l, gap) :: rest) : c.pos = l.start := by
  refine congrArg Span.start (span_of_lexeme ?_)
  rw [lexeme?_eq_stages, h]
  rfl

/-- Stepping over a lexeme leads behind it, into the gap there. -/
theorem advance_of_stages {l : Lexeme} {gap : List Lexeme} {rest : List (Lexeme × List Lexeme)}
    (h : c.stages = (l, gap) :: rest) :
    c.advance.stages = rest ∧ c.advance.gap = gap ∧ c.advance.prevEnd = l.stop ∧
      c.advance.started = true ∧ c.advance.length = c.length := by
  unfold stages at h
  cases hahead : c.ahead with
  | nil =>
    rw [hahead] at h
    cases h
  | cons w ws =>
    rw [hahead] at h
    cases h
    have hadvance : c.advance =
        { c with ahead := ws, prevEnd := w.lexeme.stop, started := true } := by
      simp only [advance, hahead]
    rw [hadvance, gap_eq]
    exact ⟨rfl, rfl, rfl, rfl, rfl⟩

theorem trivia_of_started (h : c.started = true) : c.trivia = Trivia.ofGap true c.gap := by
  rw [trivia, h]

end Cursor

/-! ### Books -/

namespace State

theorem foldl_reportTrivium_filter (ls : List Lexeme) (s : State) :
    ls.foldl reportTrivium s = (ls.filter (·.error.isSome)).foldl reportTrivium s := by
  induction ls generalizing s with
  | nil => rfl
  | cons l ls ih =>
    cases he : l.error with
    | none =>
      have hs : s.reportTrivium l = s := by simp [reportTrivium, he]
      rw [List.foldl_cons, hs, ih, List.filter_cons_of_neg (by simp [he])]
    | some e => rw [List.foldl_cons, ih, List.filter_cons_of_pos (by simp [he]), List.foldl_cons]

theorem foldl_reportTrivium_quiet {ls : List Lexeme} (h : ∀ l ∈ ls, l.error = none) (s : State) :
    ls.foldl reportTrivium s = s := by
  have hnil : ls.filter (·.error.isSome) = [] := by
    rw [List.filter_eq_nil_iff]
    intro l hl
    simp [h l hl]
  rw [foldl_reportTrivium_filter, hnil]
  rfl

theorem claimed_foldl_reportTrivium (ls : List Lexeme) (s : State) :
    (ls.foldl reportTrivium s).claimed = s.claimed := by
  induction ls generalizing s with
  | nil => rfl
  | cons l ls ih =>
    rw [List.foldl_cons, ih]
    unfold reportTrivium reportFault
    split
    · rfl
    · split <;> rfl

namespace SameBooks

variable {s s' s'' : State}

theorem refl (s : State) : SameBooks s s := ⟨rfl, rfl, rfl⟩

theorem trans (h : SameBooks s s') (h' : SameBooks s' s'') : SameBooks s s'' :=
  ⟨h'.count.trans h.count, h'.strays.trans h.strays, h'.reports.trans h.reports⟩

theorem alloc (h : SameBooks s s') : SameBooks s.alloc.state s'.alloc.state :=
  ⟨congrArg (· + 1) h.count, h.strays, h.reports⟩

end SameBooks

namespace Booked

variable {ρ : Relocation} {s s' t t' : State}

theorem congr (h : Booked ρ s s') (ht : SameBooks s t) (ht' : SameBooks s' t') : Booked ρ t t' :=
  ⟨by rw [ht.count, ht'.count]; exact h.count, by rw [ht.strays, ht'.strays]; exact h.strays,
    by rw [ht.reports, ht'.reports]; exact h.reports⟩

theorem alloc (h : Booked ρ s s') : Booked ρ s.alloc.state s'.alloc.state :=
  ⟨fun j => by simpa [State.alloc, Nat.add_assoc] using h.count (1 + j), h.strays, h.reports⟩

theorem report (h : Booked ρ s s') (problem : Problem) (span : Span) (node : Nat) :
    Booked ρ (s.report problem span node)
      (s'.report problem (ρ.span span) (ρ.number node)) :=
  ⟨h.count, h.strays, by simp [State.report, h.reports, Relocation.report]⟩

theorem reportTrivium (h : Booked ρ s s') {l : Lexeme} (hl : l.error.isSome = true → ρ.Rigid l) :
    Booked ρ (s.reportTrivium l) (s'.reportTrivium (ρ.lexeme l)) := by
  cases he : l.error with
  | none =>
    have he' : (ρ.lexeme l).error = none := he
    simpa [State.reportTrivium, he, he'] using h
  | some e =>
    have he' : (ρ.lexeme l).error = some e := he
    have hrigid := hl (by rw [he]; rfl)
    have hcount : ρ.number s.count = s'.count := h.count 0
    have hdata : strayData (ρ.lexeme l) = ρ.data (strayData l) := by
      simp only [strayData, hrigid.span]
      rfl
    simp only [State.reportTrivium, reportFault, he, he']
    refine ⟨h.alloc.count, ?_, ?_⟩
    · simp [State.report, State.alloc, h.strays, Relocation.stray, hcount, hdata]
    · simp [State.report, State.alloc, h.reports, Relocation.report, hcount, hrigid.faultSpan]

/-- Faults of a gap are reported alike. -/
theorem foldl_reportTrivium (h : Booked ρ s s') {gap gap' : List Lexeme}
    (hgap : Gap.Like ρ gap gap') :
    Booked ρ (gap.foldl State.reportTrivium s) (gap'.foldl State.reportTrivium s') := by
  rw [foldl_reportTrivium_filter gap, foldl_reportTrivium_filter gap', hgap.faults, List.foldl_map]
  have hrigid : ∀ l ∈ gap.filter (·.error.isSome), ρ.Rigid l := fun l hl =>
    hgap.rigid l (List.mem_filter.1 hl).1 (List.mem_filter.1 hl).2
  generalize gap.filter (·.error.isSome) = ls at hrigid
  induction ls generalizing s s' with
  | nil => exact h
  | cons l ls ih =>
    have hl := h.reportTrivium fun _ => hrigid l List.mem_cons_self
    exact ih hl fun x hx => hrigid x (List.mem_cons_of_mem l hx)

end Booked

/-! ### What is seen ahead -/

namespace Inside

variable {k : Option Sequel} {s s' : State}

theorem of_cursor_eq (h : Inside k s) (hc : s'.cursor = s.cursor) : Inside k s' := by
  rwa [Inside, hc]

theorem stages (h : Inside k s) : k = none ∨ s.cursor.stages ≠ [] :=
  h.imp_right Cursor.stages_ne_nil

end Inside

namespace Like

variable {ρ : Relocation} {k : Option Sequel} {s s' : State}

/-- Inside the first text, the lexeme ahead is found in the second one. -/
theorem lexeme? (h : Like ρ k s s') (hi : Inside k s) :
    s'.cursor.lexeme? = s.cursor.lexeme?.map ρ.lexeme := by
  have hahead := h.ahead
  have hstages := hi.stages
  rw [Cursor.lexeme?_eq_stages, Cursor.lexeme?_eq_stages]
  generalize s.cursor.stages = ls at hahead hstages
  generalize s'.cursor.stages = ls' at hahead
  cases hahead with
  | nil =>
    obtain rfl := hstages.resolve_right (fun h => h rfl)
    rfl
  | cons rigid between rest => rfl

theorem rigid (h : Like ρ k s s') {l : Lexeme} (hl : s.cursor.lexeme? = some l) : ρ.Rigid l := by
  have hahead := h.ahead
  rw [Cursor.lexeme?_eq_stages] at hl
  generalize s.cursor.stages = ls at hahead hl
  generalize s'.cursor.stages = ls' at hahead
  cases hahead with
  | nil => cases hl
  | cons rigid between rest =>
    cases hl
    exact rigid

theorem symbol? (h : Like ρ k s s') (hi : Inside k s) :
    s'.cursor.symbol? = s.cursor.symbol? := by
  rw [Cursor.symbol?, h.lexeme? hi, Cursor.symbol?]
  cases s.cursor.lexeme? <;> rfl

theorem opens? (h : Like ρ k s s') (hi : Inside k s) : s'.cursor.opens? = s.cursor.opens? := by
  rw [Cursor.opens?, h.symbol? hi, Cursor.opens?]

theorem closes? (h : Like ρ k s s') (hi : Inside k s) :
    s'.cursor.closes? = s.cursor.closes? := by
  rw [Cursor.closes?, h.symbol? hi, Cursor.closes?]

theorem isAt (h : Like ρ k s s') (hi : Inside k s) (b : UInt8) :
    s'.cursor.isAt b = s.cursor.isAt b := by
  rw [Cursor.isAt, h.symbol? hi, Cursor.isAt]

theorem label? (h : Like ρ k s s') (hi : Inside k s) :
    s'.cursor.label? = s.cursor.label?.map ρ.lexeme := by
  rw [Cursor.label?, h.lexeme? hi, Cursor.label?, Option.filter_map]
  rfl

theorem atEnd (h : Like ρ k s s') (hi : Inside k s) : s'.cursor.atEnd = s.cursor.atEnd := by
  have hlexeme := h.lexeme? hi
  rw [Cursor.lexeme?_eq_stages, Cursor.lexeme?_eq_stages] at hlexeme
  rw [← Cursor.isEmpty_stages, ← Cursor.isEmpty_stages]
  cases hs : s.cursor.stages <;> cases hs' : s'.cursor.stages <;> simp_all

/-- What the second text goes on with is no separator. -/
theorem separator? (h : Like ρ k s s') : s'.cursor.separator? = s.cursor.separator? := by
  by_cases hi : Inside k s
  · rw [Cursor.separator?, h.symbol? hi, Cursor.separator?]
  · obtain ⟨hk, hend⟩ := not_or.1 hi
    obtain ⟨q, rfl⟩ := Option.ne_none_iff_exists'.1 hk
    have hnil := Cursor.stages_eq_nil (Bool.not_eq_false _ ▸ hend)
    have hahead := h.ahead
    rw [hnil] at hahead
    generalize hs' : s'.cursor.stages = ls' at hahead
    cases hahead
    rw [Cursor.separator?, Cursor.symbol?, Cursor.lexeme?_eq_stages, hs', Cursor.separator?,
      Cursor.symbol?, Cursor.lexeme?_eq_stages, hnil]
    have hfree := q.free
    simp only [Option.map_some, Option.getD_some]
    cases hq : q.stages with
    | nil => rfl
    | cons x xs => simpa using hfree x (by rw [hq]; rfl)

theorem atLineEnd (h : Like ρ k s s') (hi : Inside k s) :
    s'.cursor.atLineEnd = s.cursor.atLineEnd := by
  rw [Cursor.atLineEnd, h.atEnd hi, h.closes? hi, h.separator?, Cursor.atLineEnd]

theorem atNodeStart (h : Like ρ k s s') (hi : Inside k s) :
    s'.cursor.atNodeStart = s.cursor.atNodeStart := by
  rw [Cursor.atNodeStart, h.label? hi, h.opens? hi, h.isAt hi, Cursor.atNodeStart,
    Option.isSome_map]

theorem span (h : Like ρ k s s') (hi : Inside k s) : s'.cursor.span = ρ.span s.cursor.span := by
  cases hend : s.cursor.atEnd with
  | true =>
    have hk : k = none := hi.resolve_right (by simp [hend])
    rw [Cursor.span_of_atEnd hend, Cursor.span_of_atEnd ((h.atEnd hi).trans hend), h.length hk]
    rfl
  | false =>
    obtain ⟨l, hl⟩ := Cursor.exists_lexeme hend
    have hl' : s'.cursor.lexeme? = some (ρ.lexeme l) := by rw [h.lexeme? hi, hl]; rfl
    rw [Cursor.span_of_lexeme hl, Cursor.span_of_lexeme hl', (h.rigid hl).span]

theorem pos (h : Like ρ k s s') (hi : Inside k s) : s'.cursor.pos = ρ.place s.cursor.pos := by
  rw [Cursor.pos, h.span hi]
  rfl

/-! ### What is seen behind -/

/-- Where the second text goes on behind the first, the line ends. -/
theorem seam (h : Like ρ k s s') (hs : s.cursor.started = true) (hi : ¬Inside k s) :
    ∃ q ∈ k, Gap.Seam q.lead s.cursor.gap s'.cursor.gap := by
  obtain ⟨hk, hend⟩ := not_or.1 hi
  obtain ⟨q, hq⟩ := Option.ne_none_iff_exists'.1 hk
  exact ⟨q, hq, (h.gap hs).seam q hq (Cursor.stages_eq_nil (Bool.not_eq_false _ ▸ hend))⟩

theorem gapLike (h : Like ρ k s s') (hs : s.cursor.started = true) (hi : Inside k s) :
    Gap.Like ρ s.cursor.gap s'.cursor.gap := (h.gap hs).like hi.stages

theorem newlines (h : Like ρ k s s') (hs : s.cursor.started = true) (hi : Inside k s) :
    min s'.cursor.newlines 2 = min s.cursor.newlines 2 := by
  rw [Cursor.newlines, Cursor.newlines, Cursor.trivia_of_started hs,
    Cursor.trivia_of_started (h.started hs)]
  exact (h.gapLike hs hi).newlines

theorem newlines_pos (h : Like ρ k s s') (hs : s.cursor.started = true) (hi : ¬Inside k s) :
    0 < s'.cursor.newlines := by
  obtain ⟨q, -, hseam⟩ := h.seam hs hi
  rw [Cursor.newlines, Cursor.trivia_of_started (h.started hs)]
  exact hseam.newlines

theorem adjacent (h : Like ρ k s s') (hs : s.cursor.started = true) (hi : Inside k s) :
    s'.cursor.adjacent = s.cursor.adjacent := by
  rw [Cursor.adjacent, Cursor.adjacent, hs, h.started hs, (h.gapLike hs hi).isEmpty]

theorem not_adjacent (h : Like ρ k s s') (hs : s.cursor.started = true) (hi : ¬Inside k s) :
    s'.cursor.adjacent = false := by
  obtain ⟨q, -, hseam⟩ := h.seam hs hi
  have hpos := hseam.newlines
  cases hgap : s'.cursor.gap with
  | nil =>
    rw [hgap] at hpos
    cases hpos
  | cons l ls => simp [Cursor.adjacent, hgap]

theorem trailing (h : Like ρ k s s') (hs : s.cursor.started = true) :
    s'.cursor.trivia.trailing.map (·.commentText) =
      s.cursor.trivia.trailing.map (·.commentText) := by
  rw [Cursor.trivia_of_started hs, Cursor.trivia_of_started (h.started hs)]
  by_cases hi : Inside k s
  · exact (h.gapLike hs hi).trailing
  · obtain ⟨q, -, hseam⟩ := h.seam hs hi
    exact hseam.trailing

/-! ### Steps -/

/-- What changes the books alike leaves states alike. -/
theorem of_booked (h : Like ρ k s s') (hi : Inside k s) {t t' : State}
    (hc : t.cursor = s.cursor) (hc' : t'.cursor = s'.cursor) (hclaimed : t.claimed = s.claimed)
    (hclaimed' : t'.claimed = s'.claimed) (hb : Booked ρ t t') : Like ρ k t t' where
  ahead := by rw [hc, hc']; exact h.ahead
  length := by rw [hc, hc']; exact h.length
  leading _ := by rw [hc, hc']; exact h.leading hi
  started := by rw [hc, hc']; exact h.started
  prevEnd := by rw [hc, hc']; exact h.prevEnd
  claimed := by rw [hc, hclaimed, hclaimed']; exact h.claimed
  gap := by rw [hc, hc']; exact h.gap
  booked _ := hb
  overrun ht := absurd (hi.of_cursor_eq hc) ht

theorem alloc (h : Like ρ k s s') (hi : Inside k s) : Like ρ k s.alloc.state s'.alloc.state :=
  h.of_booked hi rfl rfl rfl rfl (h.booked hi).alloc

theorem count (h : Like ρ k s s') (hi : Inside k s) : s'.count = ρ.number s.count :=
  ((h.booked hi).count 0).symm

theorem report (h : Like ρ k s s') (hi : Inside k s) (problem : Problem) (span : Span)
    (node : Nat) : Like ρ k (s.report problem span node)
      (s'.report problem (ρ.span span) (ρ.number node)) :=
  h.of_booked hi rfl rfl rfl rfl ((h.booked hi).report problem span node)

/-- Behind a word, states are alike once the faults of the gap there are reported, if they were
but for these. -/
theorem of_between (ahead : Ahead ρ k s.cursor.stages s'.cursor.stages)
    (length : k = none → s'.cursor.length = ρ.place s.cursor.length)
    (started : s.cursor.started = true) (started' : s'.cursor.started = true)
    (prevEnd : s'.cursor.prevEnd = ρ.place s.cursor.prevEnd) (claimed : s'.claimed = s.claimed)
    (between : Between ρ k s.cursor.stages s.cursor.gap s'.cursor.gap) (booked : Booked ρ s s') :
    Like ρ k s.reportGap s'.reportGap where
  ahead := by simpa using ahead
  length := by simpa using length
  leading hi := by
    have hgap := between.like (hi.of_cursor_eq (cursor_reportGap s).symm).stages
    simpa [Cursor.trivia_of_started, started, started'] using hgap.leading
  started _ := by simpa using started'
  prevEnd _ := by simpa using prevEnd
  claimed _ := by
    rw [reportGap, reportGap, claimed_foldl_reportTrivium, claimed_foldl_reportTrivium]
    exact claimed
  gap _ := by simpa using between
  booked hi :=
    booked.foldl_reportTrivium (between.like (hi.of_cursor_eq (cursor_reportGap s).symm).stages)
  overrun hi := by
    obtain ⟨hk, hend⟩ := not_or.1 hi
    rw [cursor_reportGap, Bool.not_eq_false] at hend
    obtain ⟨q, hq⟩ := Option.ne_none_iff_exists'.1 hk
    have hquiet := (between.seam q hq (Cursor.stages_eq_nil hend)).quiet
    refine ⟨s', ?_, ?_⟩
    · rwa [reportGap, foldl_reportTrivium_quiet hquiet]
    · rw [cursor_reportGap]
      exact .refl _

/-- Stepping over a word leads from states that are alike to such states. -/
theorem advance (h : Like ρ k s s') (hi : Inside k s) : Like ρ k s.advance s'.advance := by
  cases hend : s.cursor.atEnd with
  | true =>
    have hend' : s'.cursor.atEnd = true := (h.atEnd hi).trans hend
    rwa [State.advance, if_pos hend, State.advance, if_pos hend']
  | false =>
    have hend' : s'.cursor.atEnd = false := (h.atEnd hi).trans hend
    obtain ⟨l, gap, rest, hstages⟩ := Cursor.exists_stages hend
    have hahead := h.ahead
    rw [hstages] at hahead
    generalize hstages' : s'.cursor.stages = ls' at hahead
    obtain - | ⟨hrigid, hbetween, hrest⟩ := hahead
    obtain ⟨hs, hgap, hprev, hstarted, hlength⟩ := Cursor.advance_of_stages hstages
    obtain ⟨hs', hgap', hprev', hstarted', hlength'⟩ := Cursor.advance_of_stages hstages'
    rw [State.advance, if_neg (by simp [hend]), State.advance, if_neg (by simp [hend'])]
    refine of_between ?_ ?_ hstarted hstarted' ?_ rfl ?_ ?_
    · rwa [hs, hs']
    · rw [hlength, hlength']
      exact h.length
    · rw [hprev, hprev', hrigid.stop]
    · rwa [hs, hgap, hgap']
    · exact (h.booked hi).congr ⟨rfl, rfl, rfl⟩ ⟨rfl, rfl, rfl⟩

theorem with_claimed (h : Like ρ k s s') (b : Bool) :
    Like ρ k { s with claimed := b } { s' with claimed := b } where
  ahead := h.ahead
  length := h.length
  leading := h.leading
  started := h.started
  prevEnd := h.prevEnd
  claimed _ := rfl
  gap := h.gap
  booked hi := (h.booked hi).congr ⟨rfl, rfl, rfl⟩ ⟨rfl, rfl, rfl⟩
  overrun hi := by
    obtain ⟨base, hbase, hbooks⟩ := h.overrun hi
    exact ⟨base, hbase.congr ⟨rfl, rfl, rfl⟩ (.refl base), hbooks.trans ⟨rfl, rfl, rfl⟩⟩

/-- The comment behind a word is claimed in both texts alike. -/
theorem claim (h : Like ρ k s s') (hs : s.cursor.started = true) :
    s'.claim.value = s.claim.value ∧ Like ρ k s.claim.state s'.claim.state := by
  have htrailing := h.trailing hs
  have hclaimed := h.claimed hs
  unfold State.claim
  cases ht : s.cursor.trivia.trailing with
  | none =>
    rw [ht, Option.map_none, Option.map_eq_none_iff] at htrailing
    simpa only [htrailing, true_and] using h
  | some c =>
    obtain ⟨c', ht', htext⟩ := Option.map_eq_some_iff.1 (htrailing.trans (by rw [ht]; rfl))
    simp only [ht', hclaimed]
    split
    · exact ⟨rfl, h⟩
    · exact ⟨htext, h.with_claimed true⟩

end Like

end State

end Metadoc
