import Metadoc.Proofs.Document.Alike
import Mathlib.Data.List.Forall2

/-!
# Lexemes that stand for others

Where two texts have the same tokens but for the blanks between them, their words are the same and
the gaps between these say the same, so that the readings of both begin in states that look alike.

* `Lexeme.Like` says which lexeme may stand for another;
* `Gap.like_of_forall₂` : gaps of such lexemes say the same;
* `Word.Like` compares words, and `Word.splitAfter_like` cuts lists of lexemes that stand for each
  other into words that do;
* `Cursor.ahead_stages` : what is ahead of such words is the same;
* `State.like_begin` : the readings of both texts begin alike.
-/

namespace Metadoc

variable {ρ : Relocation}

/-! ### Lexemes -/

/-- Which lexeme may stand for another: that lexeme where it has been moved to, and for blanks
others that break as many lines, up to the second. -/
inductive Lexeme.Like (ρ : Relocation) (l : Lexeme) : Lexeme → Prop
  | found (rigid : ρ.Rigid l) : Like ρ l (ρ.lexeme l)
  | blanks {l' : Lexeme} (kind : l.kind = .whitespace) (kind' : l'.kind = .whitespace)
      (feeds : min (Bytes.lineFeeds l'.bytes) 2 = min (Bytes.lineFeeds l.bytes) 2)
      (error : l.error = none) (error' : l'.error = none) : Like ρ l l'

namespace Lexeme.Like

variable {l l' : Lexeme}

theorem kind (h : l.Like ρ l') : l'.kind = l.kind := by
  cases h with
  | found rigid => rfl
  | blanks kind kind' feeds error error' => rw [kind, kind']

theorem isTrivia (h : l.Like ρ l') : l'.isTrivia = l.isTrivia := by
  rw [Token.isTrivia, h.kind, Token.isTrivia]

theorem feeds (h : l.Like ρ l') :
    min (Bytes.lineFeeds l'.bytes) 2 = min (Bytes.lineFeeds l.bytes) 2 := by
  cases h with
  | found rigid => rfl
  | blanks kind kind' feeds error error' => exact feeds

theorem eq_lexeme (h : l.Like ρ l') (hk : l.kind ≠ .whitespace) :
    ρ.Rigid l ∧ l' = ρ.lexeme l := by
  cases h with
  | found rigid => exact ⟨rigid, rfl⟩
  | blanks kind kind' feeds error error' => exact absurd kind hk

theorem error (h : l.Like ρ l') : l'.error = l.error := by
  cases h with
  | found rigid => rfl
  | blanks kind kind' feeds error error' => rw [error, error']

theorem rigid (h : l.Like ρ l') (he : l.error.isSome = true) : ρ.Rigid l ∧ l' = ρ.lexeme l := by
  cases h with
  | found rigid => exact ⟨rigid, rfl⟩
  | blanks kind kind' feeds error error' =>
    rw [error] at he
    cases he

end Lexeme.Like

theorem Lexeme.quiet_of_forall₂ {ls ls' : List Lexeme}
    (h : List.Forall₂ (Lexeme.Like ρ) ls ls') (hquiet : ∀ l ∈ ls, l.error = none) :
    ∀ l ∈ ls', l.error = none := by
  induction h with
  | nil => exact List.forall_mem_nil _
  | cons hl _ ih =>
    obtain ⟨he, hquiet⟩ := List.forall_mem_cons.1 hquiet
    exact List.forall_mem_cons.2 ⟨hl.error.trans he, ih hquiet⟩

/-! ### Gaps -/

namespace Trivia

/-- Whether two comments above a word say the same: both are the same comment with as many line
breaks behind it, up to the second, or none of them is near enough. -/
def Leads (c c' : Option (Lexeme × Nat)) : Prop :=
  c'.map (fun c => (c.1.commentText, min c.2 2)) = c.map (fun c => (c.1.commentText, min c.2 2)) ∨
    (∀ x ∈ c, 2 ≤ x.2) ∧ ∀ x ∈ c', 2 ≤ x.2

theorem leads_none : Leads none none := .inl rfl

theorem Leads.add_feeds {c c' : Option (Lexeme × Nat)} (h : Leads c c') {n n' : Nat}
    (hn : min n' 2 = min n 2) :
    Leads (c.map fun c => (c.1, c.2 + n)) (c'.map fun c => (c.1, c.2 + n')) := by
  rcases h with hsame | ⟨hfar, hfar'⟩
  · left
    cases c with
    | none =>
      rw [Option.map_none, Option.map_eq_none_iff] at hsame
      rw [hsame]
      rfl
    | some x =>
      obtain ⟨x', rfl, heq⟩ := Option.map_eq_some_iff.1 hsame
      obtain ⟨htext, hafter⟩ := Prod.mk.inj heq
      have hboth : min (x'.2 + n') 2 = min (x.2 + n) 2 := by omega
      simp only [Option.map_some, htext, hboth]
  · have hstay {c : Option (Lexeme × Nat)} (hc : ∀ x ∈ c, 2 ≤ x.2) (n : Nat) :
        ∀ x ∈ c.map fun c => (c.1, c.2 + n), 2 ≤ x.2 := by
      intro x hx
      obtain ⟨y, hy, rfl⟩ := Option.map_eq_some_iff.1 hx
      exact Nat.le_add_right_of_le (hc y hy)
    exact .inr ⟨hstay hfar n, hstay hfar' n'⟩

theorem Leads.leadingText {t t' : Trivia} (h : Leads t.leading t'.leading) :
    t'.leadingText = t.leadingText := by
  rcases h with hsame | ⟨hfar, hfar'⟩
  · unfold Trivia.leadingText
    cases hc : t.leading with
    | none =>
      rw [hc, Option.map_none, Option.map_eq_none_iff] at hsame
      rw [hsame]
    | some c =>
      obtain ⟨c', hc', heq⟩ := Option.map_eq_some_iff.1 (hsame.trans (by rw [hc]; rfl))
      obtain ⟨htext, hafter⟩ := Prod.mk.inj heq
      have hnear : c'.2 < 2 ↔ c.2 < 2 := by omega
      simp only [hc', hnear, htext]
  · have hempty {t : Trivia} (ht : ∀ x ∈ t.leading, 2 ≤ x.2) : t.leadingText = "" := by
      unfold Trivia.leadingText
      cases hc : t.leading with
      | none => rfl
      | some c => exact if_neg (Nat.not_lt.2 (ht c hc))
    exact (hempty hfar').trans (hempty hfar).symm

/-- Whether two gaps are summed up alike. -/
structure Like (t t' : Trivia) : Prop where
  /-- There are as many line breaks, up to the second. -/
  newlines : min t'.newlines 2 = min t.newlines 2
  /-- The comment behind the word before says the same. -/
  trailing : t'.trailing.map (·.commentText) = t.trailing.map (·.commentText)
  /-- The comment above the word after says the same. -/
  leading : Leads t.leading t'.leading

namespace Like

variable {t t' : Trivia}

theorem add_blanks (h : t.Like t') {l l' : Lexeme} (hk : l.kind = .whitespace) (hl : l.Like ρ l')
    (started : Bool) : (t.add started l).Like (t'.add started l') := by
  have hfeeds := hl.feeds
  have hnewlines := h.newlines
  simp only [add, hk, hl.kind.trans hk]
  exact ⟨by dsimp only; omega, h.trailing, h.leading.add_feeds hfeeds⟩

theorem add_found (h : t.Like t') {l : Lexeme} (hk : l.kind ≠ .whitespace) (started : Bool) :
    (t.add started l).Like (t'.add started (ρ.lexeme l)) := by
  have hkind : (ρ.lexeme l).kind = l.kind := rfl
  have hzero : t'.newlines = 0 ↔ t.newlines = 0 := by
    have hnewlines := h.newlines
    omega
  unfold add
  rw [hkind]
  cases hc : l.kind with
  | whitespace => exact absurd hc hk
  | comment =>
    simp only [hzero]
    split
    · refine ⟨h.newlines, ?_, h.leading⟩
      have htrailing := h.trailing
      cases ht : t.trailing <;> cases ht' : t'.trailing <;> simp_all
      rfl
    · exact ⟨h.newlines, h.trailing, .inl rfl⟩
  | _ => exact h

theorem add (h : t.Like t') {l l' : Lexeme} (hl : l.Like ρ l') (started : Bool) :
    (t.add started l).Like (t'.add started l') := by
  by_cases hk : l.kind = .whitespace
  · exact h.add_blanks hk hl started
  · obtain ⟨-, rfl⟩ := hl.eq_lexeme hk
    exact h.add_found hk started

theorem foldl_add {gap gap' : List Lexeme} (hgap : List.Forall₂ (Lexeme.Like ρ) gap gap')
    (started : Bool) : ∀ {t t' : Trivia}, t.Like t' →
      (gap.foldl (Trivia.add started) t).Like (gap'.foldl (Trivia.add started) t') := by
  induction hgap with
  | nil => intro t t' h; exact h
  | cons hl _ ih => intro t t' h; exact ih (h.add hl started)

theorem ofGap {gap gap' : List Lexeme} (hgap : List.Forall₂ (Lexeme.Like ρ) gap gap')
    (started : Bool) : (Trivia.ofGap started gap).Like (Trivia.ofGap started gap') :=
  foldl_add hgap started ⟨rfl, rfl, leads_none⟩

end Like

/-! ### Gaps that begin differently -/

theorem newlines_le_foldl {started : Bool} (gap : List Lexeme) :
    ∀ t : Trivia, t.newlines ≤ (gap.foldl (add started) t).newlines := by
  induction gap with
  | nil => exact fun t => Nat.le_refl _
  | cons l gap ih =>
    intro t
    refine Nat.le_trans ?_ (ih (t.add started l))
    rw [newlines_add]
    exact Nat.le_add_right _ _

/-- Behind a line break no comment belongs to the word before. -/
theorem trailing_foldl {started : Bool} (gap : List Lexeme) :
    ∀ {t : Trivia}, 0 < t.newlines → (gap.foldl (add started) t).trailing = t.trailing := by
  induction gap with
  | nil => intro t _; rfl
  | cons l gap ih =>
    intro t h
    have hnext : 0 < (t.add started l).newlines := by
      rw [newlines_add]
      exact Nat.lt_add_right _ h
    have hstep : (t.add started l).trailing = t.trailing := by
      unfold add
      split
      · rfl
      · rw [if_neg (fun hzero => Nat.ne_of_gt h hzero.1)]
      · rfl
    rw [List.foldl_cons, ih hnext, hstep]

theorem trailing_foldl_blanks {started : Bool} {gap : List Lexeme}
    (hgap : ∀ l ∈ gap, l.kind = .whitespace) :
    ∀ t : Trivia, (gap.foldl (add started) t).trailing = t.trailing := by
  induction gap with
  | nil => exact fun t => rfl
  | cons l gap ih =>
    intro t
    obtain ⟨hl, hgap⟩ := List.forall_mem_cons.1 hgap
    rw [List.foldl_cons, ih hgap, add, hl]

theorem leading_foldl_blanks {started : Bool} {gap : List Lexeme}
    (hgap : ∀ l ∈ gap, l.kind = .whitespace) :
    ∀ {t : Trivia}, t.leading = none → (gap.foldl (add started) t).leading = none := by
  induction gap with
  | nil => exact fun h => h
  | cons l gap ih =>
    intro t h
    obtain ⟨hl, hgap⟩ := List.forall_mem_cons.1 hgap
    refine ih hgap ?_
    rw [add, hl]
    simp only [h, Option.map_none]

/-- Gaps that go on alike lead to comments that say the same, if both lines end before. -/
theorem leads_foldl {started : Bool} {gap gap' : List Lexeme}
    (hgap : List.Forall₂ (Lexeme.Like ρ) gap gap') :
    ∀ {t t' : Trivia}, Leads t.leading t'.leading → (started = true → 0 < t'.newlines) →
      Leads (gap.foldl (add false) t).leading (gap'.foldl (add started) t').leading := by
  induction hgap with
  | nil => intro t t' h _; exact h
  | @cons l l' gap gap' hl _ ih =>
    intro t t' h hstarted
    refine ih ?_ fun hs => ?_
    · have hline : ¬(t'.newlines = 0 ∧ started = true) := fun hzero =>
        Nat.ne_of_gt (hstarted hzero.2) hzero.1
      by_cases hk : l.kind = .whitespace
      · simp only [add, hk, hl.kind.trans hk]
        exact h.add_feeds hl.feeds
      · obtain ⟨-, rfl⟩ := hl.eq_lexeme hk
        have hkind : (ρ.lexeme l).kind = l.kind := rfl
        unfold add
        rw [hkind]
        cases hc : l.kind with
        | whitespace => exact absurd hc hk
        | comment =>
          simp only [if_neg hline, Bool.false_eq_true, and_false, if_false]
          exact .inl rfl
        | _ => exact h
    · rw [newlines_add]
      exact Nat.lt_add_right _ (hstarted hs)

end Trivia

theorem Gap.faults_of_forall₂ {gap gap' : List Lexeme}
    (h : List.Forall₂ (Lexeme.Like ρ) gap gap') :
    gap'.filter (·.error.isSome) = (gap.filter (·.error.isSome)).map ρ.lexeme := by
  induction h with
  | nil => rfl
  | @cons l l' gap gap' hl _ ih =>
    cases he : l.error.isSome with
    | true =>
      have he' : l'.error.isSome = true := by rw [hl.error, he]
      rw [List.filter_cons, if_pos he', List.filter_cons, if_pos he, ih, List.map_cons,
        (hl.rigid he).2]
    | false =>
      have he' : l'.error.isSome = false := by rw [hl.error, he]
      rw [List.filter_cons, if_neg (by simp [he']), List.filter_cons, if_neg (by simp [he]), ih]

/-- Gaps whose lexemes stand for each other say the same. -/
theorem Gap.like_of_forall₂ {gap gap' : List Lexeme}
    (h : List.Forall₂ (Lexeme.Like ρ) gap gap') : Gap.Like ρ gap gap' where
  newlines := (Trivia.Like.ofGap h true).newlines
  trailing := (Trivia.Like.ofGap h true).trailing
  leading := (Trivia.Like.ofGap h true).leading.leadingText
  isEmpty := by cases h <;> rfl
  faults := faults_of_forall₂ h
  rigid := by
    induction h with
    | nil => exact List.forall_mem_nil _
    | cons hl _ ih => exact List.forall_mem_cons.2 ⟨fun he => (hl.rigid he).1, ih⟩

theorem Gap.seam_of_forall₂ {gap gap' trail more : List Lexeme} {w : Lexeme}
    (h : List.Forall₂ (Lexeme.Like ρ) gap gap') (hquiet : ∀ l ∈ gap, l.error = none)
    (htrail : ∀ l ∈ trail, l.kind = .whitespace ∧ l.error = none) (hw : w.kind = .whitespace)
    (hfeeds : 0 < Bytes.lineFeeds w.bytes) :
    Gap.Seam (w :: more) (gap ++ trail) (gap' ++ w :: more) := by
  have hbroken : 0 < ((Trivia.ofGap true gap').add true w).newlines := by
    rw [Trivia.newlines_add, if_pos hw]
    exact Nat.lt_of_lt_of_le hfeeds (Nat.le_add_left _ _)
  have hfold : Trivia.ofGap true (gap' ++ w :: more) =
      more.foldl (Trivia.add true) ((Trivia.ofGap true gap').add true w) := by
    rw [Trivia.ofGap, List.foldl_append, List.foldl_cons]
    rfl
  refine ⟨?_, ?_, ?_, gap', rfl, Lexeme.quiet_of_forall₂ h hquiet⟩
  · have hsame := (Trivia.Like.ofGap h true).trailing
    have hadd : ((Trivia.ofGap true gap').add true w).trailing =
        (Trivia.ofGap true gap').trailing := by rw [Trivia.add, hw]
    rw [trailingText, hfold, Trivia.trailing_foldl more hbroken, hadd, hsame, trailingText,
      Trivia.ofGap, Trivia.ofGap, List.foldl_append,
      Trivia.trailing_foldl_blanks fun l hl => (htrail l hl).1]
  · rw [hfold]
    exact Nat.lt_of_lt_of_le hbroken (Trivia.newlines_le_foldl more _)
  · intro l hl
    rcases List.mem_append.1 hl with hl | hl
    · exact hquiet l hl
    · exact (htrail l hl).2

/-! ### Words -/

/-- Whether a word stands for another. -/
structure Word.Like (ρ : Relocation) (w w' : Word) : Prop where
  /-- The lexemes of the gap stand for those of the other. -/
  gap : List.Forall₂ (Lexeme.Like ρ) w.gap w'.gap
  /-- The lexeme is found in one piece. -/
  rigid : ρ.Rigid w.lexeme
  /-- It is the lexeme where it has been moved to. -/
  lexeme : w'.lexeme = ρ.lexeme w.lexeme

namespace Word

theorem splitAfter_like {ls ls' : List Lexeme} (h : List.Forall₂ (Lexeme.Like ρ) ls ls') :
    ∀ {gap gap' : List Lexeme}, List.Forall₂ (Lexeme.Like ρ) gap gap' →
      List.Forall₂ (Word.Like ρ) (splitAfter gap ls).1 (splitAfter gap' ls').1 ∧
        List.Forall₂ (Lexeme.Like ρ) (splitAfter gap ls).2 (splitAfter gap' ls').2 := by
  induction h with
  | nil => intro gap gap' hgap; exact ⟨.nil, hgap⟩
  | @cons l l' ls ls' hl _ ih =>
    intro gap gap' hgap
    unfold splitAfter
    rw [hl.isTrivia]
    split
    · exact ih (List.rel_append hgap (.cons hl .nil))
    · rename_i htrivia
      have hk : l.kind ≠ .whitespace := by
        intro hk
        rw [Token.isTrivia, hk] at htrivia
        exact htrivia rfl
      obtain ⟨hrigid, rfl⟩ := hl.eq_lexeme hk
      obtain ⟨hwords, htail⟩ := ih .nil
      exact ⟨.cons ⟨hgap, hrigid, rfl⟩ hwords, htail⟩

/-- The words of a list of lexemes go on with those of a list behind it, the gap between them
included. -/
theorem splitAfter_append_list (ls ls' : List Lexeme) : ∀ gap,
    splitAfter gap (ls ++ ls') =
      ((splitAfter gap ls).1 ++ (splitAfter (splitAfter gap ls).2 ls').1,
        (splitAfter (splitAfter gap ls).2 ls').2) := by
  induction ls with
  | nil => intro gap; rfl
  | cons l ls ih =>
    intro gap
    rw [List.cons_append, splitAfter, splitAfter]
    split
    · exact ih _
    · rw [ih]
      rfl

theorem splitAfter_gap (ls : List Lexeme) : ∀ gap,
    stages (splitAfter gap ls).1 (splitAfter gap ls).2 = stages (split ls).1 (split ls).2 ∧
      gapBefore (splitAfter gap ls).1 (splitAfter gap ls).2 =
        gap ++ gapBefore (split ls).1 (split ls).2 := by
  induction ls with
  | nil => intro gap; exact ⟨rfl, (List.append_nil gap).symm⟩
  | cons l ls ih =>
    intro gap
    rw [split, splitAfter, splitAfter]
    split
    · obtain ⟨hstages, hgap⟩ := ih (gap ++ [l])
      obtain ⟨hstages', hgap'⟩ := ih ([] ++ [l])
      refine ⟨hstages.trans hstages'.symm, ?_⟩
      rw [hgap, hgap', List.nil_append, List.append_assoc]
    · exact ⟨rfl, (List.append_nil gap).symm⟩

/-- What is ahead of words that stand for each other is the same, if what comes behind them is. -/
theorem ahead_stages {k : Option Sequel} {ws ws' next : List Word} {tail tail' : List Lexeme}
    (hws : List.Forall₂ (Word.Like ρ) ws ws')
    (hnext : stages next tail' = (k.map Sequel.stages).getD [])
    (hbetween : Between ρ k [] tail (gapBefore next tail')) :
    Ahead ρ k (stages ws tail) (stages (ws' ++ next) tail') := by
  induction hws with
  | nil =>
    rw [List.nil_append, hnext]
    exact .nil
  | @cons w w' ws ws' hw hws ih =>
    rw [List.cons_append, stages, stages, hw.lexeme]
    refine .cons hw.rigid ?_ ih
    cases hws with
    | nil => exact hbetween
    | @cons u u' us us' hu _ =>
      exact ⟨fun _ => Gap.like_of_forall₂ hu.gap, fun _ _ h => nomatch h⟩

theorem gapBefore_like {ws ws' : List Word} {tail tail' : List Lexeme}
    (hws : List.Forall₂ (Word.Like ρ) ws ws') (htail : List.Forall₂ (Lexeme.Like ρ) tail tail') :
    List.Forall₂ (Lexeme.Like ρ) (gapBefore ws tail) (gapBefore ws' tail') := by
  cases hws with
  | nil => exact htail
  | cons hw _ => exact hw.gap

end Word

/-! ### Where reading begins -/

namespace State

/-- The readings of two texts whose lexemes stand for each other begin alike. -/
theorem like_begin {source source' : Source}
    (h : List.Forall₂ (Lexeme.Like ρ) (Lexeme.all source 0) (Lexeme.all source' 0))
    (hlength : source'.length = ρ.place source.length) (hnumber : ∀ j, ρ.number j = j) :
    Like ρ none (begin source 0) (begin source' 0) := by
  obtain ⟨hwords, htail⟩ := Word.splitAfter_like h .nil
  have hahead := @Word.ahead_stages ρ none _ _ [] _ _ hwords rfl
    (.of_like (Gap.like_of_forall₂ htail))
  rw [List.append_nil] at hahead
  have hgap := Word.gapBefore_like hwords htail
  have hgap_eq (source : Source) : (Cursor.ofLexemes source.length 0 (Lexeme.all source 0)).gap =
      Word.gapBefore (Word.split (Lexeme.all source 0)).1 (Word.split (Lexeme.all source 0)).2 :=
    Cursor.gap_eq _
  have hstart : Booked ρ { cursor := Cursor.ofLexemes source.length 0 (Lexeme.all source 0) }
      { cursor := Cursor.ofLexemes source'.length 0 (Lexeme.all source' 0) } :=
    ⟨fun j => hnumber _, rfl, rfl⟩
  have hstarted : (begin source 0).cursor.started = false := by
    rw [begin, cursor_ofLexemes]
    rfl
  simp only [begin, ofLexemes] at hstarted ⊢
  refine ⟨?_, ?_, fun _ => ?_, ?_, ?_, ?_, ?_, fun _ => ?_, fun hi => absurd (.inl rfl) hi⟩
  · rwa [cursor_reportGap, cursor_reportGap]
  · rw [cursor_reportGap, cursor_reportGap]
    exact fun _ => hlength
  · rw [cursor_reportGap, cursor_reportGap, Cursor.trivia, Cursor.trivia, hgap_eq, hgap_eq]
    exact (Trivia.Like.ofGap hgap false).leading.leadingText
  · exact fun h => absurd h (by rw [hstarted]; exact Bool.false_ne_true)
  · exact fun h => absurd h (by rw [hstarted]; exact Bool.false_ne_true)
  · exact fun h => absurd h (by rw [hstarted]; exact Bool.false_ne_true)
  · exact fun h => absurd h (by rw [hstarted]; exact Bool.false_ne_true)
  · refine hstart.foldl_reportTrivium (Gap.like_of_forall₂ ?_)
    rwa [hgap_eq, hgap_eq]

end State

end Metadoc
