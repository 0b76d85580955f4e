import Metadoc.Proofs.Document.Lossless

/-!
# Brackets that balance

Where a set in brackets ends is a matter of its brackets alone, whatever stands between them: any
bracket closes any other, and the end of the document closes all that are open.

* `Cursor.Balanced c c'` says that from `c` one gets to `c'` over single words and whole sets in
  brackets;
* `Cursor.exists_balanced`, `Cursor.Balanced.unique` : from each place one gets in this way to just
  one place where no more can be read, before a closing bracket or at the end;
* `Cursor.BehindSet c c'` says that `c'` is behind the set that begins at `c`;
* `Cursor.FirstLineEnd c c'` says that `c'` is the first place behind `c` where a line ends outside
  all brackets.
-/

namespace Metadoc

namespace Cursor

/-- Whether the brackets around leave nothing to be read here: a bracket closes, or the document
ends. -/
def Blocked (c : Cursor) : Prop := c.atEnd = true ∨ c.closes?.isSome = true

/-- From one place to another over words that are no brackets, and over sets: from the opening
bracket of a set over what is inside to where that is blocked, and over the bracket there. -/
inductive Balanced : Cursor → Cursor → Prop
  /-- Nothing is stepped over. -/
  | refl (c : Cursor) : Balanced c c
  /-- A word that is no bracket comes first. -/
  | word {c c' : Cursor} (hb : ¬c.Blocked) (ho : c.opens? = none) (rest : Balanced c.advance c') :
      Balanced c c'
  /-- A set comes first. -/
  | set {c m c' : Cursor} (ho : c.opens?.isSome = true) (inside : Balanced c.advance m)
      (hm : m.Blocked) (rest : Balanced m.advance c') : Balanced c c'

variable {c c' c'' : Cursor}

/-! ### What is ahead -/

theorem advance_of_atEnd (h : c.atEnd = true) : c.advance = c := by
  simp only [advance, List.isEmpty_iff.1 h]

theorem closes?_of_opens (h : c.opens?.isSome = true) : c.closes? = none := by
  obtain ⟨d, hd⟩ := Option.isSome_iff_exists.1 h
  obtain ⟨b, hb, ho⟩ := Option.bind_eq_some_iff.1 hd
  rw [closes?, hb, Delimiter.ofOpen?_eq_some ho]
  cases d <;> rfl

theorem opens?_of_closes (h : c.closes?.isSome = true) : c.opens? = none := by
  by_contra ho
  rw [closes?_of_opens (Option.isSome_iff_ne_none.2 ho)] at h
  cases h

theorem not_blocked_of_opens (h : c.opens?.isSome = true) : ¬c.Blocked := by
  obtain ⟨d, hd⟩ := Option.isSome_iff_exists.1 h
  simp [Blocked, closes?_of_opens h, atEnd_of_opens hd]

theorem atEnd_of_not_blocked (h : ¬c.Blocked) : c.atEnd = false :=
  Bool.eq_false_iff.2 fun hend => h (.inl hend)

theorem closes?_of_not_blocked (h : ¬c.Blocked) : c.closes? = none := by
  simpa using fun hc => h (.inr hc)

theorem plain_of_symbol {b : UInt8} (hb : c.symbol? = some b) (ho : Delimiter.ofOpen? b = none)
    (hc : Delimiter.ofClose? b = none) : ¬c.Blocked ∧ c.opens? = none := by
  simp [Blocked, opens?, closes?, hb, ho, hc, atEnd_of_symbol hb]

theorem plain_of_isAt {b : UInt8} (hb : c.isAt b = true) (ho : Delimiter.ofOpen? b = none)
    (hc : Delimiter.ofClose? b = none) : ¬c.Blocked ∧ c.opens? = none :=
  plain_of_symbol (of_decide_eq_true hb) ho hc

theorem plain_of_separator (h : c.separator?.isSome = true) : ¬c.Blocked ∧ c.opens? = none := by
  obtain ⟨sep, hsep⟩ := Option.isSome_iff_exists.1 h
  obtain ⟨b, hb, hs⟩ := Option.bind_eq_some_iff.1 hsep
  refine plain_of_symbol hb ?_ ?_ <;> rw [Separator.ofByte?_eq_some hs] <;> cases sep <;> rfl

/-- A label is a single word: brackets are reserved. -/
theorem plain_of_label {l : Lexeme} (h : c.label? = some l) : ¬c.Blocked ∧ c.opens? = none := by
  obtain ⟨hl, hlabel⟩ := Option.filter_eq_some_iff.1 h
  have hsymbol : c.symbol? = l.symbol? := by rw [symbol?, hl]; rfl
  cases hb : l.symbol? with
  | none => simp [Blocked, opens?, closes?, hsymbol, hb, atEnd_of_label h]
  | some b =>
    have hkind : l.kind = .symbol := by
      unfold Token.symbol? at hb
      split at hb
      · assumption
      · cases hb
    have hfree : reservedSymbols.contains b = false := by
      simpa [Lexeme.isLabel, hkind, hb] using hlabel
    have hnot {x : UInt8} (hx : reservedSymbols.contains x = true) : x ≠ b := by
      rintro rfl
      rw [hfree] at hx
      cases hx
    refine plain_of_symbol (hsymbol.trans hb) ?_ ?_
    · refine Option.eq_none_iff_forall_ne_some.2 fun d hd => ?_
      exact hnot (by cases d <;> decide) (Delimiter.ofOpen?_eq_some hd).symm
    · refine Option.eq_none_iff_forall_ne_some.2 fun d hd => ?_
      exact hnot (by cases d <;> decide) (Delimiter.ofClose?_eq_some hd).symm

/-! ### Getting from place to place -/

namespace Balanced

theorem single (h : ¬c.Blocked ∧ c.opens? = none) : Balanced c c.advance := .word h.1 h.2 (.refl _)

theorem eq_of_blocked (h : Balanced c c') (hb : c.Blocked) : c' = c := by
  cases h with
  | refl => rfl
  | word hb' _ _ => exact absurd hb hb'
  | set ho _ _ _ => exact absurd hb (not_blocked_of_opens ho)

theorem trans (h : Balanced c c') (h' : Balanced c' c'') : Balanced c c'' := by
  induction h with
  | refl => exact h'
  | word hb ho _ ih => exact .word hb ho (ih h')
  | set ho inside hm _ _ ih => exact .set ho inside hm (ih h')

theorem length_le (h : Balanced c c') : c'.ahead.length ≤ c.ahead.length := by
  induction h with
  | refl => exact Nat.le_refl _
  | word _ _ _ ih => exact ih.trans (length_advance_le _)
  | set _ _ _ _ ihInside ihRest =>
    exact ihRest.trans ((length_advance_le _).trans (ihInside.trans (length_advance_le _)))

/-- The first place where nothing can be read is the only one. -/
theorem unique (h : Balanced c c') (hb : c'.Blocked) (h' : Balanced c c'') (hb' : c''.Blocked) :
    c'' = c' := by
  -- What is ahead decides the rule, and inside a set the induction gives one place to leave it.
  induction h generalizing c'' with
  | refl => exact h'.eq_of_blocked hb
  | word hplain ho _ ih =>
    cases h' with
    | refl => exact absurd hb' hplain
    | word _ _ rest => exact ih hb rest hb'
    | set ho' _ _ _ => simp [ho] at ho'
  | set ho _ hm _ ihInside ihRest =>
    cases h' with
    | refl => exact absurd hb' (not_blocked_of_opens ho)
    | word _ ho' _ => simp [ho'] at ho
    | set _ inside hm' rest =>
      obtain rfl := ihInside hm inside hm'
      exact ihRest hb rest hb'

end Balanced

/-- Whether `c'` is behind the set that an opening bracket begins here: behind the bracket that
balances it, or at the end of the document. -/
def BehindSet (c c' : Cursor) : Prop := ∃ m, Balanced c.advance m ∧ m.Blocked ∧ c' = m.advance

namespace BehindSet

theorem balanced (h : BehindSet c c') (ho : c.opens?.isSome = true) : Balanced c c' := by
  obtain ⟨m, inside, hm, rfl⟩ := h
  exact .set ho inside hm (.refl _)

theorem unique (h : BehindSet c c') (h' : BehindSet c c'') : c'' = c' := by
  obtain ⟨m, inside, hm, rfl⟩ := h
  obtain ⟨m', inside', hm', rfl⟩ := h'
  rw [inside.unique hm inside' hm']

theorem length_le (h : BehindSet c c') : c'.ahead.length ≤ c.advance.ahead.length := by
  obtain ⟨m, inside, -, rfl⟩ := h
  exact (length_advance_le m).trans inside.length_le

end BehindSet

/-- One item further on: behind the word or the set that comes first. -/
def Item (c c' : Cursor) : Prop :=
  (¬c.Blocked ∧ c.opens? = none ∧ c' = c.advance) ∨ (c.opens?.isSome = true ∧ BehindSet c c')

namespace Item

theorem of_plain (h : ¬c.Blocked ∧ c.opens? = none) : Item c c.advance := .inl ⟨h.1, h.2, rfl⟩

theorem of_set (ho : c.opens?.isSome = true) (h : BehindSet c c') : Item c c' := .inr ⟨ho, h⟩

theorem not_blocked (h : Item c c') : ¬c.Blocked := by
  rcases h with ⟨hb, -, -⟩ | ⟨ho, -⟩
  · exact hb
  · exact not_blocked_of_opens ho

theorem balanced (h : Item c c') : Balanced c c' := by
  rcases h with ⟨hb, ho, rfl⟩ | ⟨ho, hset⟩
  · exact .word hb ho (.refl _)
  · exact hset.balanced ho

theorem length_lt (h : Item c c') : c'.ahead.length < c.ahead.length := by
  have hlt := length_advance_lt (atEnd_of_not_blocked h.not_blocked)
  rcases h with ⟨-, -, rfl⟩ | ⟨-, hset⟩
  · exact hlt
  · exact hset.length_le.trans_lt hlt

theorem rest (h : Item c c') (hb : Balanced c c'') (hne : c'' ≠ c) : Balanced c' c'' := by
  cases hb with
  | refl => exact absurd rfl hne
  | word hb' ho rest =>
    rcases h with ⟨-, -, rfl⟩ | ⟨ho', -⟩
    · exact rest
    · simp [ho] at ho'
  | set ho inside hm rest =>
    rcases h with ⟨-, ho', -⟩ | ⟨-, hset⟩
    · simp [ho'] at ho
    · rwa [BehindSet.unique ⟨_, inside, hm, rfl⟩ hset]

end Item

namespace Balanced

theorem length_lt (h : Balanced c c') (hne : c' ≠ c) : c'.ahead.length < c.ahead.length := by
  cases h with
  | refl => exact absurd rfl hne
  | word hb ho rest => exact rest.length_le.trans_lt (Item.of_plain ⟨hb, ho⟩).length_lt
  | set ho inside hm rest =>
    exact rest.length_le.trans_lt (Item.of_set ho ⟨_, inside, hm, rfl⟩).length_lt

theorem antisymm (h : Balanced c c') (h' : Balanced c' c) : c' = c := by
  by_contra hne
  exact Nat.not_lt.2 h'.length_le (h.length_lt hne)

/-- Of two places further on, one lies behind the other. -/
theorem total (h : Balanced c c') (h' : Balanced c c'') : Balanced c' c'' ∨ Balanced c'' c' := by
  induction h with
  | refl => exact .inl h'
  | @word c c' hb ho rest ih =>
    by_cases hne : c'' = c
    · exact .inr (hne ▸ .word hb ho rest)
    · exact ih ((Item.of_plain ⟨hb, ho⟩).rest h' hne)
  | @set c m c' ho inside hm rest _ ih =>
    by_cases hne : c'' = c
    · exact .inr (hne ▸ .set ho inside hm rest)
    · exact ih ((Item.of_set ho ⟨m, inside, hm, rfl⟩).rest h' hne)

end Balanced

/-- From each place one gets to where nothing can be read. -/
theorem exists_balanced (c : Cursor) : ∃ m, Balanced c m ∧ m.Blocked := by
  induction hn : c.ahead.length using Nat.strong_induction_on generalizing c with
  | _ n ih =>
    by_cases hb : c.Blocked
    · exact ⟨c, .refl c, hb⟩
    · have hlt := length_advance_lt (atEnd_of_not_blocked hb)
      obtain ⟨m, hm, hmb⟩ := ih _ (hn ▸ hlt) c.advance rfl
      cases ho : c.opens? with
      | none => exact ⟨m, .word hb ho hm, hmb⟩
      | some d =>
        -- The first place is inside the set, and the second one is found behind its bracket.
        have hle := (length_advance_le m).trans hm.length_le
        obtain ⟨m', hm', hmb'⟩ := ih _ (hn ▸ hle.trans_lt hlt) m.advance rfl
        exact ⟨m', .set (by rw [ho]; rfl) hm hmb hm', hmb'⟩

theorem exists_behindSet (c : Cursor) : ∃ c', BehindSet c c' := by
  obtain ⟨m, inside, hm⟩ := exists_balanced c.advance
  exact ⟨m.advance, m, inside, hm, rfl⟩

/-! ### The ends of lines -/

/-- Whether the entries of a set without brackets end here. -/
def LineEnds (c : Cursor) : Prop := 0 < c.newlines ∨ c.atLineEnd = true

instance (c : Cursor) : Decidable c.LineEnds := inferInstanceAs (Decidable (_ ∨ _))

theorem lineEnds_of_atEnd (h : c.atEnd = true) : c.LineEnds := .inr (by simp [atLineEnd, h])

theorem atLineEnd_of_blocked (h : c.Blocked) : c.atLineEnd = true := by
  rcases h with h | h <;> simp [atLineEnd, h]

theorem not_blocked_of_atLineEnd (h : c.atLineEnd = false) : ¬c.Blocked := by
  intro hb
  rw [atLineEnd_of_blocked hb] at h
  cases h

/-- Whether `c'` is the first place behind `c`, outside all brackets, where a line ends. -/
structure FirstLineEnd (c c' : Cursor) : Prop where
  /-- It is behind some words and sets. -/
  balanced : Balanced c c'
  /-- There is one at least. -/
  ne : c' ≠ c
  /-- A line ends there. -/
  ends : c'.LineEnds
  /-- None ends between the words and sets before. -/
  first : ∀ m, Balanced c m → Balanced m c' → m ≠ c → m.LineEnds → m = c'

namespace FirstLineEnd

/-- A line ends behind the first item. -/
theorem of_item (h : Item c c') (hends : c'.LineEnds) : FirstLineEnd c c' where
  balanced := h.balanced
  ne hc := Nat.lt_irrefl _ (hc ▸ h.length_lt)
  ends := hends
  first _ hm hm' hne _ := hm'.antisymm (h.rest hm hne) ▸ rfl

theorem cons (h : Item c c') (hends : ¬c'.LineEnds) (hfirst : FirstLineEnd c' c'') :
    FirstLineEnd c c'' where
  balanced := h.balanced.trans hfirst.balanced
  ne hc := Nat.not_lt.2 hfirst.balanced.length_le (hc ▸ h.length_lt)
  ends := hfirst.ends
  first m hm hm' hne hmends := by
    refine hfirst.first m (h.rest hm hne) hm' ?_ hmends
    rintro rfl
    exact hends hmends

theorem balanced_of_ends {m : Cursor} (h : FirstLineEnd c c') (hm : Balanced c m) (hne : m ≠ c)
    (hends : m.LineEnds) : Balanced c' m := by
  rcases h.balanced.total hm with hm' | hm'
  · exact hm'
  · exact h.first m hm hm' hne hends ▸ .refl _

theorem eq_iff {m : Cursor} (h : FirstLineEnd c c') (hm : Balanced c' m) :
    c' = m ↔ ∀ x, Balanced c x → Balanced x m → x ≠ c → x.LineEnds → x = m := by
  constructor
  · rintro rfl
    exact h.first
  · exact fun hx => hx c' h.balanced hm h.ne h.ends

end FirstLineEnd

end Cursor

end Metadoc
