import Metadoc.Proofs.Document.Extension
import Metadoc.Proofs.Token.Joined
import Mathlib.Data.List.TakeWhile

/-!
# A text inside another

A text without lexical faults may stand inside another one, with blanks on both sides of it and a
line break behind.  Its tokens are found there, but for the blanks at its ends.

* `Enclosure.exists_fits` : so the lexemes of the text are found in the other one;
* `State.Like.behind` says where reading stands behind the text;
* `State.sameBooks_begin` and `State.sameBooks_advance` : where no lexeme is faulty, nothing is
  reported before a word.
-/

namespace Metadoc

open Ascii

/-! ### Tokens -/

namespace Token

theorem exists_blanks (text : Bytes) : ∃ w text', text = w ++ text' ∧
    (∀ b ∈ w, isBlank b = true) ∧ ∀ b ∈ text'.head?, isBlank b = false := by
  refine ⟨text.takeWhile isBlank, text.dropWhile isBlank, List.takeWhile_append_dropWhile.symm,
    fun b => List.mem_takeWhile_imp, fun b hb => ?_⟩
  simpa [Option.mem_def.1 hb] using List.head?_dropWhile_not isBlank text

theorem all_zero (text : Bytes) : all text 0 = allFrom 0 0 text := by
  rw [all, Nat.zero_min, List.drop_zero]

theorem newlines_of_blanks {xs : Bytes} (hxs : ∀ x ∈ xs, isBlank x = true) (pos : Nat)
    (started : Bool) : (Trivia.ofGap started ((allFrom pos 0 xs).map alone)).newlines =
      Bytes.lineFeeds xs := by
  by_cases hne : xs = []
  · subst hne
    rfl
  · have hall := allFrom_blanks (v := []) hne hxs nofun pos
    rw [List.append_nil] at hall
    rw [hall]
    exact Nat.zero_add _

end Token

theorem Relocation.rigid_shift (n : Nat) (number : Nat → Nat) (l : Lexeme) :
    (shift n number).Rigid l := fun k _ => Nat.add_right_comm l.start k n

theorem Lexeme.like_shift (n : Nat) (number : Nat → Nat) (ts : List Token) :
    List.Forall₂ (Lexeme.Like (.shift n number)) (ts.map Token.alone)
      ((ts.map (·.shift n)).map Token.alone) := by
  induction ts with
  | nil => exact .nil
  | cons t ts ih => exact .cons (.found (Relocation.rigid_shift n number t.alone)) ih

/-! ### Enclosures -/

namespace Enclosure

theorem blank_of_blanks {xs : Bytes} (hxs : ∀ x ∈ xs, isBlank x = true) (pos : Nat) :
    ∀ l ∈ (Token.allFrom pos 0 xs).map Token.alone, l.Blank := by
  intro l hl
  obtain ⟨t, ht, rfl⟩ := List.mem_map.1 hl
  exact Token.kind_of_blanks hxs pos t ht

variable {x y z : Bytes} {pos n : Nat}

theorem lineFeeds_pos (hbreak : y.head? = some Bytes.lineFeed) : 0 < Bytes.lineFeeds y := by
  obtain ⟨y', rfl⟩ := List.head?_eq_some_iff.1 hbreak
  exact List.count_pos_iff.2 List.mem_cons_self

/-- What is asked of an enclosure of a text between the blanks `x` and `y`, before `z`, to say where
its lexemes are found from position `pos` on. -/
structure Fits (text x y z : Bytes) (pos : Nat) {ρ : Relocation} (e : Enclosure ρ) : Prop where
  /-- The lexemes of the text. -/
  inner : e.inner = (Token.all text 0).map Token.alone
  /-- Those of the other one. -/
  outer : (Token.allFrom pos 0 (x ++ (text ++ (y ++ z)))).map Token.alone =
    e.outer ((Token.allFrom (pos + x.length + text.length + y.length) 0 z).map Token.alone)
  /-- The blanks before are no less. -/
  before : e.core = [] ∨ Bytes.lineFeeds x ≤ (Trivia.ofGap true e.lead').newlines
  /-- Nor are those behind. -/
  behind : Bytes.lineFeeds y ≤ Bytes.lineFeeds e.stop.bytes

theorem fits_of_blanks {w : Bytes} (hw : ∀ b ∈ w, isBlank b = true)
    (hx : ∀ b ∈ x, isBlank b = true) (hy : ∀ b ∈ y, isBlank b = true)
    (hbreak : y.head? = some Bytes.lineFeed) (hz : ∀ b ∈ z.head?, isBlank b = false)
    (pos : Nat) (ρ : Relocation) : ∃ e : Enclosure ρ, e.Fits w x y z pos := by
  have hall : ∀ b ∈ x ++ (w ++ y), isBlank b = true :=
    List.forall_mem_append.2 ⟨hx, List.forall_mem_append.2 ⟨hw, hy⟩⟩
  have hfeeds : Bytes.lineFeeds y ≤ Bytes.lineFeeds (x ++ (w ++ y)) := by
    rw [Bytes.lineFeeds_append, Bytes.lineFeeds_append]
    omega
  have hne : x ++ (w ++ y) ≠ [] := by
    intro hnil
    rw [hnil] at hfeeds
    exact Nat.not_lt.2 hfeeds (lineFeeds_pos hbreak)
  refine ⟨⟨(Token.all w 0).map Token.alone, [], [], [], [],
    Token.alone ⟨.whitespace, pos, x ++ (w ++ y), none, none⟩, ?_, List.forall_mem_nil _,
    List.forall_mem_nil _, ⟨rfl, rfl⟩, (lineFeeds_pos hbreak).trans_le hfeeds, .nil,
    List.forall_mem_nil _⟩, List.append_nil _, ?_, .inl rfl, hfeeds⟩
  · rw [Token.all_zero]
    exact blank_of_blanks hw 0
  · have hread := Token.allFrom_blanks hne hall hz pos
    rw [List.append_assoc, List.append_assoc] at hread
    rw [hread, List.length_append, List.length_append, ← Nat.add_assoc, ← Nat.add_assoc]
    rfl

/-- Blanks with a line break may follow tokens in the place of blanks. -/
theorem behind_of_blanks {w' : Bytes} {core later : List Token}
    (hall : Token.allFrom pos 0 (core.flatMap Token.bytes ++ w') = core ++ later)
    (hlast : ∀ t ∈ core.getLast?, t.kind ≠ .whitespace) (hquiet : ∀ t ∈ core, t.error = none)
    (hw' : ∀ b ∈ w', isBlank b = true) (hbreak : y.head? = some Bytes.lineFeed) :
    Token.Behind core w' (w' ++ y ++ z) := by
  have hsealed {xs : Bytes} (hxs : ∀ b ∈ xs.head?, isBlank b = true) : Scan.Sealed xs :=
    fun b hb => Scan.foreign_of_isBlank (hxs b hb)
  have hhead : (w' ++ y ++ z).head? = (w'.head?).or (some Bytes.lineFeed) := by
    rw [List.append_assoc, List.head?_append, List.head?_append, hbreak, Option.some_or]
  refine ⟨hsealed fun b hb => hw' b (List.mem_of_mem_head? hb), hsealed fun b hb => ?_,
    fun t ht hopen => ?_, fun t ht hline b hb => ?_, fun t ht hk => absurd hk (hlast t ht)⟩
  · rw [hhead] at hb
    cases w' with
    | nil => cases hb; rfl
    | cons b' w' => cases hb; exact hw' b List.mem_cons_self
  · rw [hquiet t (List.mem_of_mem_getLast? ht)] at hopen
    exact absurd hopen Scan.not_unclosed_none
  · -- The line that the comment stands on ends behind the text.
    rw [hhead] at hb
    obtain ⟨before, rfl⟩ := List.getLast?_eq_some_iff.1 ht
    rw [List.flatMap_append, List.flatMap_singleton, List.append_assoc, List.append_assoc] at hall
    have hbehind := Token.head_of_isLineComment (Token.allFrom_later hall) hline
    cases w' with
    | nil => cases hb; rfl
    | cons b' w' => cases hb; exact hbehind b rfl

/-- Tokens that blanks surround are found between other blanks. -/
theorem fits_of_core {w w' : Bytes} {core : List Token} (hne : core ≠ [])
    (hall : Token.allFrom w.length 0 (core.flatMap Token.bytes ++ w') =
      core ++ Token.allFrom (w.length + (core.flatMap Token.bytes).length) 0 w')
    (hhead : ∀ b ∈ (core.flatMap Token.bytes ++ w').head?, isBlank b = false)
    (hlast : ∀ t ∈ core.getLast?, t.kind ≠ .whitespace) (hquiet : ∀ t ∈ core, t.error = none)
    (hw : ∀ b ∈ w, isBlank b = true) (hw' : ∀ b ∈ w', isBlank b = true)
    (hx : ∀ b ∈ x, isBlank b = true) (hy : ∀ b ∈ y, isBlank b = true)
    (hbreak : y.head? = some Bytes.lineFeed) (hz : ∀ b ∈ z.head?, isBlank b = false)
    (pos : Nat) (number : Nat → Nat) : ∃ e : Enclosure (.shift (pos + x.length) number),
      e.Fits (w ++ (core.flatMap Token.bytes ++ w')) x y z pos := by
  have hlead : ∀ b ∈ x ++ w, isBlank b = true := List.forall_mem_append.2 ⟨hx, hw⟩
  have htrail : ∀ b ∈ w' ++ y, isBlank b = true := List.forall_mem_append.2 ⟨hw', hy⟩
  have hfeeds : Bytes.lineFeeds y ≤ Bytes.lineFeeds (w' ++ y) := by
    rw [Bytes.lineFeeds_append]
    omega
  have htrailing : w' ++ y ≠ [] := by
    intro hnil
    rw [hnil] at hfeeds
    exact Nat.not_lt.2 hfeeds (lineFeeds_pos hbreak)
  refine ⟨⟨(Token.allFrom 0 0 w).map Token.alone, core.map Token.alone,
    (Token.allFrom (w.length + (core.flatMap Token.bytes).length) 0 w').map Token.alone,
    (Token.allFrom pos 0 (x ++ w)).map Token.alone,
    (core.map (·.shift (pos + x.length))).map Token.alone,
    Token.alone ⟨.whitespace, pos + (x ++ w).length + (core.flatMap Token.bytes).length, w' ++ y,
      none, none⟩, blank_of_blanks hw _, blank_of_blanks hw' _, blank_of_blanks hlead _, ⟨rfl, rfl⟩,
    (lineFeeds_pos hbreak).trans_le hfeeds, Lexeme.like_shift .., ?_⟩, ?_, ?_, .inr ?_, hfeeds⟩
  · exact List.forall_mem_map.2 hquiet
  · have htext := Token.allFrom_append_of_blanks hw hhead 0
    rw [Nat.zero_add, hall] at htext
    rw [Token.all_zero, htext, List.map_append, List.map_append]
    rfl
  · have hcore : core.flatMap Token.bytes ≠ [] := by
      obtain ⟨t, core, rfl⟩ := List.exists_cons_of_ne_nil hne
      have hbytes := (Token.allFrom_eq_cons hall).1
      rw [List.flatMap_cons]
      exact fun hnil => hbytes (List.append_eq_nil_iff.1 hnil).1
    have hhead' : ∀ b ∈ (core.flatMap Token.bytes ++ (w' ++ y ++ z)).head?, isBlank b = false := by
      rw [List.head?_append_of_ne_nil _ hcore] at hhead ⊢
      exact hhead
    have hbehind := @behind_of_blanks y z _ w' core _ hall hlast hquiet hw' hbreak
    have hmoved := Token.allFrom_moved hbehind hall (pos + x.length)
    have htext : x ++ (w ++ (core.flatMap Token.bytes ++ w') ++ (y ++ z)) =
        x ++ w ++ (core.flatMap Token.bytes ++ (w' ++ y ++ z)) := by
      simp only [List.append_assoc]
    have hstart : pos + (x ++ w).length = w.length + (pos + x.length) := by
      rw [List.length_append]
      omega
    have hstop : w.length + (pos + x.length) + (core.flatMap Token.bytes).length +
        (w' ++ y).length = pos + x.length + (w ++ (core.flatMap Token.bytes ++ w')).length +
          y.length := by
      simp only [List.length_append]
      omega
    rw [htext, Token.allFrom_append_of_blanks hlead hhead', hstart, hmoved,
      Token.allFrom_blanks htrailing htrail hz, hstop]
    simp only [List.map_append, List.map_cons, outer]
  · rw [Token.newlines_of_blanks hlead, Bytes.lineFeeds_append]
    exact Nat.le_add_right _ _

/-- A text without lexical faults is found between blanks, if the line ends behind it. -/
theorem exists_fits {text : Bytes} (hquiet : ∀ t ∈ Token.all text 0, t.error = none)
    (hx : ∀ b ∈ x, isBlank b = true) (hy : ∀ b ∈ y, isBlank b = true)
    (hbreak : y.head? = some Bytes.lineFeed) (hz : ∀ b ∈ z.head?, isBlank b = false)
    (pos : Nat) (number : Nat → Nat) :
    ∃ e : Enclosure (.shift (pos + x.length) number), e.Fits text x y z pos := by
  obtain ⟨w, text', rfl, hw, hhead⟩ := Token.exists_blanks text
  obtain ⟨core, w', rfl, hw', hcore, hlast⟩ := Token.exists_core w.length text'
  by_cases hne : core = []
  · subst hne
    exact fits_of_blanks (List.forall_mem_append.2 ⟨hw, hw'⟩) hx hy hbreak hz pos _
  · refine fits_of_core hne hcore hhead hlast (fun t ht => hquiet t ?_) hw hw' hx hy hbreak hz pos
      number
    rw [Token.all_zero, Token.allFrom_append_of_blanks hw hhead, Nat.zero_add, hcore]
    exact List.mem_append_right _ (List.mem_append_left _ ht)

end Enclosure

/-! ### Before the first word -/

namespace Cursor.Before

variable {c : Cursor} {ls : List Lexeme}

theorem mem_of_mem_gap (h : c.Before ls) {l : Lexeme} (hl : l ∈ c.gap) : l ∈ ls := by
  rw [h.gap] at hl
  exact (Word.trivia_of_mem_gapBefore hl).1

end Cursor.Before

namespace State

theorem started_begin (source : Source) : (begin source 0).cursor.started = false := by
  rw [begin, cursor_ofLexemes]
  rfl

theorem length_begin (source : Source) : (begin source 0).cursor.length = source.length := by
  rw [begin, cursor_ofLexemes]
  rfl

theorem begin_eq (source : Source) : begin source 0 =
    (begin source 0).cursor.gap.foldl reportTrivium { cursor := (begin source 0).cursor } := by
  rw [begin, cursor_ofLexemes]
  rfl

/-- Before a gap without faults there is nothing to report. -/
theorem sameBooks_begin {source : Source} (h : ∀ l ∈ (begin source 0).cursor.gap, l.error = none) :
    SameBooks { cursor := (begin source 0).cursor } (begin source 0) := by
  have hbegin := begin_eq source
  rw [foldl_reportTrivium_quiet h] at hbegin
  rw [← hbegin]
  exact .refl _

/-- Before a gap without faults there is nothing to report. -/
theorem sameBooks_advance {s : State} (h : ∀ l ∈ s.advance.cursor.gap, l.error = none) :
    SameBooks s s.advance := by
  rw [cursor_advance] at h
  unfold advance
  split
  · exact .refl s
  · rw [reportGap, foldl_reportTrivium_quiet h]
    exact ⟨rfl, rfl, rfl⟩

end State

theorem Enclosure.quiet_outer {ρ : Relocation} {e : Enclosure ρ} {more : List Lexeme}
    (h : ∀ l ∈ more, l.error = none) : ∀ l ∈ e.outer more, l.error = none :=
  List.forall_mem_append.2 ⟨fun l hl => (e.blank_lead' l hl).2, List.forall_mem_append.2
    ⟨Lexeme.quiet_of_forall₂ e.found e.quiet, List.forall_mem_cons.2 ⟨e.blank_stop.2, h⟩⟩⟩

/-- A text without fault is without fault where it is enclosed. -/
theorem Enclosure.quiet_inner {ρ : Relocation} (e : Enclosure ρ) : ∀ l ∈ e.inner, l.error = none :=
  List.forall_mem_append.2 ⟨fun l hl => (e.blank_lead l hl).2, List.forall_mem_append.2
    ⟨e.quiet, fun l hl => (e.blank_trail l hl).2⟩⟩

theorem Enclosure.quiet_gap {ρ : Relocation} {e : Enclosure ρ} {more : List Lexeme} {c c' : Cursor}
    (hc : c.Before e.inner) (hend : c.atEnd = false) (hc' : c'.Before (e.outer more)) :
    ∀ l ∈ c'.gap, l.error = none := by
  have hgap : ∀ l ∈ c.gap, l.error = none := fun l hl => e.quiet_inner l (hc.mem_of_mem_gap hl)
  rw [gap_inner hc] at hgap
  rw [gap_outer hc']
  exact List.forall_mem_append.2 ⟨fun l hl => (e.blank_lead' l hl).2,
    Lexeme.quiet_of_forall₂ (gapBefore_like hc hend) (List.forall_mem_append.1 hgap).2⟩

/-! ### Behind the text -/

/-- Whether what a text goes on with is ahead, in a gap without faults up to there. -/
structure Cursor.At (q : Sequel) (c : Cursor) : Prop where
  /-- The lexemes are ahead. -/
  stages : c.stages = q.stages
  /-- The gap goes on with the lexemes before them. -/
  gap : ∃ own, c.gap = own ++ q.lead ∧ ∀ l ∈ own, l.error = none

/-- Behind the text, the faults before what it goes on with are reported. -/
theorem State.Like.behind {ρ : Relocation} {q : Sequel} {s t : State} (h : Like ρ (some q) s t)
    (hend : s.cursor.atEnd = true) (hs : s.cursor.started = true) :
    t.cursor.At q ∧ ∃ base, Booked ρ s base ∧ SameBooks (q.lead.foldl reportTrivium base) t := by
  have hout : ¬Inside (some q) s := by simp [Inside, hend]
  have hahead := h.ahead
  rw [Cursor.stages_eq_nil hend] at hahead
  obtain ⟨q, ⟨⟩, hseam⟩ := h.seam hs hout
  obtain ⟨own, hgap, hown⟩ := hseam.own
  obtain ⟨base, hbase, hbooks⟩ := h.overrun hout
  refine ⟨⟨?_, own, hgap, hown⟩, base, hbase, ?_⟩
  · generalize t.cursor.stages = ls at hahead
    cases hahead
    rfl
  · rwa [hgap, List.foldl_append, foldl_reportTrivium_quiet hown] at hbooks

namespace Enclosure

open Grammar State

variable {ρ : Relocation} {e : Enclosure ρ} {more : List Lexeme}
  {hfree : ∀ x ∈ (Word.stages (Word.split more).1 (Word.split more).2).head?,
    x.1.symbol?.bind Separator.ofByte? = none} {c c' : Cursor}

theorem at_of_atEnd (hc : c.Before e.inner) (hend : c.atEnd = true)
    (hc' : c'.Before (e.outer more)) : c'.At (e.sequel more hfree) := by
  obtain ⟨hwords, htail⟩ := Word.splitAfter_like e.found .nil
  have hnone : (Word.split e.core').1 = [] := by
    have hstages := Cursor.stages_eq_nil hend
    rw [stages_inner hc] at hstages
    cases hsplit : (Word.split e.core).1 with
    | nil =>
      rw [Word.split] at hsplit
      rw [hsplit] at hwords
      exact List.forall₂_nil_left_iff.1 hwords
    | cons w ws =>
      rw [hsplit] at hstages
      cases hstages
  obtain ⟨hstages, hgap⟩ := Word.splitAfter_gap more ((Word.split e.core').2 ++ [e.stop])
  refine ⟨?_, e.lead' ++ (Word.split e.core').2, ?_, List.forall_mem_append.2 ⟨?_, ?_⟩⟩
  · rw [stages_outer hc', hnone, List.nil_append]
    exact hstages
  · rw [gap_outer hc', hnone, List.nil_append, behind, hgap]
    simp only [sequel, List.append_assoc, List.singleton_append]
  · exact fun l hl => (e.blank_lead' l hl).2
  · exact Lexeme.quiet_of_forall₂ htail e.quiet_tail

/-- The entries of a text are read inside the other one, and reading goes on behind them. -/
theorem exists_run {n : Nat} {ctx : Context} (hctx : ctx ≠ .line) {s s' : State}
    (hs : Like ρ (some (e.sequel more hfree)) s s') (hend : s.cursor.atEnd = false)
    {r : Read (List Tree)} (h : Run n (.entries .top none) s r.many) (hq : r.state.reports = []) :
    ∃ t base, t.cursor.At (e.sequel more hfree) ∧ Booked ρ r.state base ∧
      SameBooks ((e.sequel more hfree).lead.foldl reportTrivium base) t ∧
      ∀ rest : Read (List Tree),
        Run n (.entries ctx (Tree.separatorBehind none r.value)) t rest.many →
          Run n (.entries ctx none) s'
            (Read.many ⟨ρ.trees r.value ++ rest.value, rest.state⟩) := by
  obtain ⟨t, ht, hmore⟩ := h.extends hctx hq hs
  have hend' : r.state.cursor.atEnd = true :=
    h.entriesEnd_state.resolve_right fun hclosed => absurd hclosed.1 (by decide)
  have hleft : r.state.left < s.left := by
    have hzero : r.state.left = 0 := List.length_eq_zero_iff.2 (List.isEmpty_iff.1 hend')
    rw [hzero]
    refine Nat.pos_of_ne_zero fun hnone => ?_
    rw [atEnd_of_left_eq_zero hnone] at hend
    cases hend
  obtain ⟨hat, base, hbase, hbooks⟩ := ht.behind hend' (h.moves.started_of_left_lt hleft)
  exact ⟨t, base, hat, hbase, hbooks, hmore⟩

end Enclosure

end Metadoc
