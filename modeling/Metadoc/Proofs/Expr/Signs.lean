import Metadoc.Proofs.Expr.Numerals

/-!
# Where negative values come from

* `readInt_unsigned` : a literal that begins with a digit, and has no sign right behind the mark of
  its base, has no negative value, and none at all if there is a sign in it;
* `readInt_signBehindMark` : a sign right behind the mark is that of the number;
* `Atom.MayBeNegative`, `Expr.MayBeNegative` say which parts of an expression may have a
  negative value although their operands have none;
* `Expr.evaluateInt_signs` : a negative value comes from such a part.
-/

namespace Metadoc

theorem Integer.Spelling.sign_mem {cs body : List Char} {base? : Option Nat} {c : Char}
    (h : Spelling cs base? body) (hc : c ∈ cs) (hsign : c = '+' ∨ c = '-') :
    c ∈ dropGaps body := by
  have hzero : c ≠ '0' := by rcases hsign with rfl | rfl <;> decide
  have hbody : c ∈ body := by
    cases h with
    | @marked mark base _ hmark =>
      have hno : c ≠ mark := by
        rintro rfl
        rcases hsign with rfl | rfl <;> simp [mem_marks] at hmark
      simpa [hzero, hno] using hc
    | octal gaps => simpa [hzero] using hc
    | plain => exact hc
  have hgap : c ≠ '_' := by rcases hsign with rfl | rfl <;> decide
  exact List.mem_filter.2 ⟨hbody, decide_eq_true hgap⟩

/-- An unsigned literal that has a value has no sign in it, and the value is not negative. -/
theorem readInt_unsigned {text : String} {v : Int64} (h : Integer.Unsigned text.toList)
    (hv : readInt text = .ok v) : 0 ≤ v.toInt ∧ '+' ∉ text.toList ∧ '-' ∉ text.toList := by
  obtain ⟨base?, body, hspelling⟩ := Integer.exists_spelling text.toList
  rw [readInt_eq hspelling (Integer.splitSign_of_head (hspelling.head_ne_sign h))] at hv
  obtain ⟨hdigits, hvalue⟩ := toInt_of_readSpelled hv
  have hsign (c : Char) (hc : c = '+' ∨ c = '-') : c ∉ text.toList := fun hmem => by
    have hdigit := List.all_eq_true.1 hdigits c (hspelling.sign_mem hmem hc)
    rw [Integer.digit?_sign hspelling.base_mem.1 hc] at hdigit
    cases hdigit
  rw [hvalue, one_mul]
  exact ⟨Int.natCast_nonneg _, hsign '+' (.inl rfl), hsign '-' (.inr rfl)⟩

/-- A sign right behind the mark of a base is that of the number. -/
theorem readInt_signBehindMark {text : String} {c sign : Char} {base : Nat} {gap rest : List Char}
    (hmark : (c, base) ∈ Integer.marks) (hgap : ∀ x ∈ gap, x = '_')
    (hsign : sign = '+' ∨ sign = '-') (htext : text.toList = '0' :: c :: (gap ++ sign :: rest)) :
    readInt text =
      readSpelled text (some base) (if sign = '-' then -1 else 1) (Integer.dropGaps rest) := by
  have hspelling : Integer.Spelling text.toList (some base) (gap ++ sign :: rest) :=
    htext ▸ .marked hmark
  have hleft : Integer.dropGaps (gap ++ sign :: rest) = sign :: Integer.dropGaps rest := by
    have hnone : gap.filter (· ≠ '_') = [] := by simpa using hgap
    have hscore : sign ≠ '_' := by rcases hsign with rfl | rfl <;> decide
    rw [Integer.dropGaps, List.filter_append, hnone, List.nil_append,
      List.filter_cons_of_pos (by simpa using hscore), Integer.dropGaps]
  exact readInt_eq hspelling (by rw [hleft, Integer.splitSign_cons hsign])

variable {constants : OrderedMap Key.hash Int64}

namespace Atom

/-- Whether an atom may have a negative value: a name for one, or a number that is not unsigned. -/
def MayBeNegative (constants : OrderedMap Key.hash Int64) : Atom → Prop
  | number text => ¬Integer.Unsigned text.toList
  | name text => ∃ v, constants.get? (.ofText text) = some v ∧ v.toInt < 0
  | other _ => False

theorem evaluateInt_nonneg {a : Atom} {v : Int64} (h : ¬a.MayBeNegative constants)
    (hv : a.evaluateInt constants = .ok v) : 0 ≤ v.toInt := by
  cases a with
  | number text => exact (readInt_unsigned (not_not.1 h) hv).1
  | name text =>
    simp only [evaluateInt, constant] at hv
    split at hv
    · rename_i w hget
      cases hv
      exact Int.not_lt.1 fun hneg => h ⟨v, hget, hneg⟩
    · cases hv
  | other text => cases hv

end Atom

theorem ExprKind.value?_nonneg {kind : ExprKind} {a b n : Int} (hkind : kind ≠ .subtract)
    (ha : 0 ≤ a) (hb : 0 ≤ b) (hn : kind.value? a b = some n) : 0 ≤ n := by
  cases kind with
  | add =>
    cases hn
    exact Int.add_nonneg ha hb
  | subtract => exact absurd rfl hkind
  | multiply =>
    cases hn
    exact Int.mul_nonneg ha hb
  | divide =>
    rw [value?, Option.ite_none_left_eq_some] at hn
    obtain ⟨-, hn⟩ := hn
    cases hn
    exact Int.tdiv_nonneg ha hb
  | modulo =>
    rw [value?, Option.ite_none_left_eq_some] at hn
    obtain ⟨-, hn⟩ := hn
    cases hn
    exact Int.tmod_nonneg b ha
  | atom | negate | pointer | array => cases hn

namespace Expr

/-- Whether a part of an expression may have a negative value although its operands have none: a
change of sign, a difference, or such an atom. -/
def MayBeNegative (constants : OrderedMap Key.hash Int64) : Expr → Prop
  | missing => False
  | node kind text origin _ _ =>
    kind = .negate ∨ kind = .subtract ∨
      kind = .atom ∧ (Atom.classify text origin).MayBeNegative constants

/-- A value is not negative if no part that evaluation comes to may have a negative one. -/
theorem value?_nonneg {e : Expr} {n : Int} (h : ∀ p ∈ e.visited, ¬p.MayBeNegative constants)
    (hn : e.value? constants = some n) : 0 ≤ n := by
  induction e generalizing n with
  | missing => cases hn
  | node kind text origin l r ihl ihr =>
    by_cases hkind : kind.joins = true
    · rw [visited_joins hkind, List.forall_mem_append, List.forall_mem_append,
        List.forall_mem_singleton] at h
      obtain ⟨hl, hr, hself⟩ := h
      rw [value?_joins hkind, Option.bind_eq_some_iff] at hn
      obtain ⟨a, ha, hn⟩ := hn
      obtain ⟨b, hb, hn⟩ := Option.bind_eq_some_iff.1 hn
      exact ExprKind.value?_nonneg (fun hsub => hself (.inr (.inl hsub))) (ihl hl ha) (ihr hr hb) hn
    cases kind with
    | atom =>
      have hself := h _ (List.mem_singleton_self _)
      rw [value?, Option.map_eq_some_iff] at hn
      obtain ⟨v, hv, rfl⟩ := hn
      cases hread : (Atom.classify text origin).evaluateInt constants with
      | error err =>
        rw [hread] at hv
        cases hv
      | ok w =>
        rw [hread] at hv
        cases hv
        exact Atom.evaluateInt_nonneg (fun hatom => hself (.inr (.inr ⟨rfl, hatom⟩))) hread
    | negate => exact absurd (.inl rfl) (h _ (List.mem_append_right _ (List.mem_singleton_self _)))
    | pointer | array => simp [value?, ExprKind.value?] at hn
    | _ => exact absurd rfl hkind

theorem evaluateInt_atom_of_digit {text : String}
    (h : ∃ c ∈ text.toList.head?, c.isDigit = true) :
    (atom text).evaluateInt constants = readInt text := by
  obtain ⟨c, hc, hdigit⟩ := h
  obtain ⟨cs, hcs⟩ := List.head?_eq_some_iff.1 hc
  have hclass : Atom.classify text none = .number text := by
    rw [Atom.classify, hcs]
    exact if_pos (Integer.isDigit_iff.1 hdigit)
  rw [atom, evaluateInt_atom, hclass]
  rfl

/-- A literal by itself that begins with a digit, and has no sign right behind the mark of its base,
has no negative value, and none at all if there is a sign in it.  A sign right behind the mark is
that of the number.  In general a negative value comes from a change of sign, a difference, a name
for one, or a number that is not of the first kind. -/
theorem evaluateInt_signs (constants : OrderedMap Key.hash Int64) :
    (∀ text : String, Integer.Unsigned text.toList →
      (∀ v, (atom text).evaluateInt constants = .ok v → 0 ≤ v.toInt) ∧
      ('+' ∈ text.toList ∨ '-' ∈ text.toList →
        ∃ err, (atom text).evaluateInt constants = .error err)) ∧
    (∀ (text : String) c base gap sign rest, (c, base) ∈ Integer.marks → (∀ x ∈ gap, x = '_') →
      (sign = '+' ∨ sign = '-') → text.toList = '0' :: c :: (gap ++ sign :: rest) →
      (atom text).evaluateInt constants =
        readSpelled text (some base) (if sign = '-' then -1 else 1) (Integer.dropGaps rest)) ∧
    ∀ (e : Expr) v, e.evaluateInt constants = .ok v → v.toInt < 0 →
      ∃ p ∈ e.visited, p.MayBeNegative constants := by
  refine ⟨fun text hunsigned => ?_, fun text c base gap sign rest hmark hgap hsign htext => ?_,
    fun e v hv hneg => ?_⟩
  · rw [evaluateInt_atom_of_digit hunsigned.digit]
    refine ⟨fun v hv => (readInt_unsigned hunsigned hv).1, fun hsign => ?_⟩
    cases hread : readInt text with
    | error err => exact ⟨err, rfl⟩
    | ok v =>
      obtain ⟨-, hplus, hminus⟩ := readInt_unsigned hunsigned hread
      exact absurd hsign (not_or.2 ⟨hplus, hminus⟩)
  · rw [evaluateInt_atom_of_digit ⟨'0', by rw [htext]; rfl, rfl⟩]
    exact readInt_signBehindMark hmark hgap hsign htext
  · by_contra hno
    have hsettles := settles constants e
    rw [hv] at hsettles
    have hnonneg := value?_nonneg (fun p hp hmay => hno ⟨p, hp, hmay⟩) hsettles.2
    omega

/-- A sign right behind the mark of a base is taken as that of the number. -/
theorem evaluateInt_signBehindMark :
    (∃ c ∈ "0x-5".toList.head?, c.isDigit = true) ∧ '-' ∈ "0x-5".toList ∧
      (atom "0x-5").evaluateInt .empty = .ok (-5) :=
  ⟨⟨'0', rfl, rfl⟩, by decide, rfl⟩

end Expr

end Metadoc
