import Mathlib.Data.List.TakeWhile
import Mathlib.Data.Nat.Digits.Defs
import Metadoc.Number.Integer

/-!
# Integers and the digits that write them

* `Integer.Fits` says which integers have 64 bits;
* `Integer.value` is the number that the digits of a base write, whatever its size, and
  `Integer.ofDigits_eq` says what is read from digits with a sign or without;
* `Integer.Spelling` says which base a literal names and what is left to be read in it, and
  `Integer.Unsigned` which literals leave no sign (`Spelling.head_ne_sign`).
-/

namespace Metadoc

namespace Integer

/-! ### Integers of 64 bits -/

/-- Whether an integer is one of 64 bits. -/
def Fits (n : Int) : Prop := -2 ^ 63 ≤ n ∧ n < 2 ^ 63

instance (n : Int) : Decidable (Fits n) := inferInstanceAs (Decidable (_ ∧ _))

theorem toInt_ofInt {n : Int} (h : Fits n) : (Int64.ofInt n).toInt = n :=
  Int64.toInt_ofInt_of_le h.1 h.2

theorem checked?_eq (n : Int) : checked? n = if Fits n then some (Int64.ofInt n) else none := by
  have hfits : Int64.minValue.toInt ≤ n ∧ n ≤ Int64.maxValue.toInt ↔ Fits n := by
    rw [Int64.toInt_minValue, Int64.toInt_maxValue, Fits]
    omega
  exact if_congr hfits rfl rfl

/-! ### Digits -/

/-- The digit of a base that a character is.  Letters in either case come after `9`. -/
def digit? (base : Nat) (c : Char) : Option Nat :=
  (List.range base).find? fun d => c = d.digitChar ∨ c = d.digitChar.toUpper

/-- The digits of a base at the head of a text. -/
def leading (base : Nat) (cs : List Char) : List Char :=
  cs.takeWhile fun c => (digit? base c).isSome

/-- The number that digits of a base write. -/
def value (base : Nat) (cs : List Char) : Nat :=
  Nat.ofDigits base (cs.filterMap (digit? base)).reverse

/-! ### The parts of a literal -/

/-- The letters that name a base behind a zero. -/
def marks : List (Char × Nat) := [('x', 16), ('X', 16), ('b', 2), ('B', 2), ('o', 8), ('O', 8)]

/-- Which base a literal names, if any, and what is left to be read. -/
inductive Spelling : List Char → Option Nat → List Char → Prop
  /-- A zero and a letter name the base. -/
  | marked {c base cs} (mark : (c, base) ∈ marks) : Spelling ('0' :: c :: cs) (some base) cs
  /-- A zero before digits and underscores, at least one of them, names the base eight. -/
  | octal {c cs} (gaps : ∀ x ∈ c :: cs, x.isDigit = true ∨ x = '_') :
      Spelling ('0' :: c :: cs) (some 8) (c :: cs)
  /-- Anything else names no base. -/
  | plain {cs} (mark : ∀ c base rest, (c, base) ∈ marks → cs ≠ '0' :: c :: rest)
      (gaps : ∀ c rest, cs = '0' :: c :: rest → ∃ x ∈ c :: rest, x.isDigit = false ∧ x ≠ '_') :
      Spelling cs none cs

/-- A sign right behind the mark of a base, but for underscores. -/
def SignBehindMark (cs : List Char) : Prop :=
  ∃ c base gap sign rest, (c, base) ∈ marks ∧ (∀ x ∈ gap, x = '_') ∧ (sign = '+' ∨ sign = '-') ∧
    cs = '0' :: c :: (gap ++ sign :: rest)

/-- A literal that begins with a digit and has no sign right behind the mark of a base. -/
structure Unsigned (cs : List Char) : Prop where
  /-- It begins with a digit. -/
  digit : ∃ c ∈ cs.head?, c.isDigit = true
  /-- No sign comes right behind the mark of a base. -/
  mark : ¬SignBehindMark cs

variable {base n d : Nat} {c : Char} {cs body : List Char}

/-! ### Reading digits -/

theorem toNat_digitChar : ∀ d < 16,
    (d < 10 → d.digitChar.toNat = d + 48 ∧ d.digitChar.toUpper.toNat = d + 48) ∧
      (10 ≤ d → d.digitChar.toNat = d + 87 ∧ d.digitChar.toUpper.toNat = d + 55) := by
  decide

theorem digitValue?_eq_some_iff (h : base ≤ 16) :
    digitValue? base c = some d ↔ d < base ∧ (c = d.digitChar ∨ c = d.digitChar.toUpper) := by
  rw [digitValue?, Option.filter_eq_some_iff, decide_eq_true_eq, and_comm]
  refine and_congr_right fun hlt => ?_
  obtain ⟨hsmall, hlarge⟩ := toNat_digitChar d (Nat.lt_of_lt_of_le hlt h)
  simp only [← Char.toNat_inj]
  change (if 48 ≤ c.toNat ∧ c.toNat ≤ 57 then some (c.toNat - 48)
    else if 97 ≤ c.toNat ∧ c.toNat ≤ 102 then some (c.toNat - 97 + 10)
    else if 65 ≤ c.toNat ∧ c.toNat ≤ 70 then some (c.toNat - 65 + 10) else none) = some d ↔ _
  split
  · rw [Option.some_inj]
    omega
  split
  · rw [Option.some_inj]
    omega
  split
  · rw [Option.some_inj]
    omega
  · simp only [reduceCtorEq, false_iff]
    omega

theorem digit?_eq (h : base ≤ 16) (c : Char) : digit? base c = digitValue? base c := by
  cases hd : digit? base c with
  | some d =>
    rw [digit?] at hd
    have hlt := List.mem_range.1 (List.mem_of_find?_eq_some hd)
    exact ((digitValue?_eq_some_iff h).2 ⟨hlt, by simpa using List.find?_some hd⟩).symm
  | none =>
    refine (Option.eq_none_iff_forall_ne_some.2 fun d hvalue => ?_).symm
    obtain ⟨hlt, hc⟩ := (digitValue?_eq_some_iff h).1 hvalue
    exact List.find?_eq_none.1 hd d (List.mem_range.2 hlt) (decide_eq_true hc)

theorem digit?_sign (h : base ≤ 16) (hc : c = '+' ∨ c = '-') : digit? base c = none := by
  rw [digit?_eq h]
  rcases hc with rfl | rfl <;> rfl

theorem leading_cons_of_some (h : digit? base c = some d) :
    leading base (c :: cs) = c :: leading base cs :=
  List.takeWhile_cons_of_pos (by rw [h]; rfl)

theorem leading_cons_of_none (h : digit? base c = none) : leading base (c :: cs) = [] :=
  List.takeWhile_cons_of_neg (by simp [h])

theorem leading_eq_self_iff :
    leading base cs = cs ↔ (cs.all fun c => (digit? base c).isSome) = true :=
  List.takeWhile_eq_self_iff.trans List.all_eq_true.symm

theorem value_nil (base : Nat) : value base [] = 0 := rfl

theorem value_cons_leading (h : digit? base c = some d) (cs : List Char) :
    value base (c :: leading base cs) =
      d * base ^ (leading base cs).length + value base (leading base cs) := by
  have hlength : ((leading base cs).filterMap (digit? base)).length = (leading base cs).length :=
    List.filterMap_length_eq_length.2 fun c hc => List.all_eq_true.1 List.all_takeWhile c hc
  rw [value, List.filterMap_cons_some h, List.reverse_cons, Nat.ofDigits_append,
    List.length_reverse, hlength, Nat.ofDigits_singleton, value]
  ring

/-- The number written by digits that are read behind the number `n`. -/
def behind (base n : Nat) (cs : List Char) : Nat := n * base ^ cs.length + value base cs

theorem behind_cons_leading (h : digit? base c = some d) (n : Nat) (cs : List Char) :
    behind base n (c :: leading base cs) = behind base (n * base + d) (leading base cs) := by
  rw [behind, behind, value_cons_leading h, List.length_cons]
  ring

theorem fits_of_le {sign : Int} (hsign : sign = 1 ∨ sign = -1) {m : Nat} (h : Fits (sign * m))
    (hle : n ≤ m) : Fits (sign * n) := by
  simp only [Fits] at h ⊢
  rcases hsign with rfl | rfl <;> omega

/-- Digits are read from left to right, up to where the number gets too large: what comes behind
does not matter then. -/
theorem readFrom_eq (hbase : base ≤ 16) (hpos : 0 < base) {sign : Int}
    (hsign : sign = 1 ∨ sign = -1) (hn : Fits (sign * n)) (cs : List Char) :
    readFrom base sign (sign * n) cs =
      if Fits (sign * behind base n (leading base cs)) then
        if leading base cs = cs then .ok (Int64.ofInt (sign * behind base n cs))
        else .error .malformed
      else .error .overflow := by
  induction cs generalizing n with
  | nil =>
    have hbehind : behind base n [] = n := by simp [behind, value_nil]
    rw [readFrom, leading, List.takeWhile_nil, if_pos rfl, hbehind, if_pos hn]
  | cons c cs ih =>
    rw [readFrom, ← digit?_eq hbase]
    cases hd : digit? base c with
    | none =>
      have hbehind : behind base n [] = n := by simp [behind, value_nil]
      rw [leading_cons_of_none hd, hbehind, if_pos hn, if_neg nofun]
    | some d =>
      have hcast : sign * n * base + sign * d = sign * (n * base + d : Nat) := by
        push_cast
        ring
      dsimp only
      rw [hcast, checked?_eq, leading_cons_of_some hd, behind_cons_leading hd]
      by_cases hfits : Fits (sign * (n * base + d : Nat))
      · rw [if_pos hfits, if_pos Option.isSome_some, ih hfits]
        refine if_congr Iff.rfl ?_ rfl
        by_cases hall : leading base cs = cs
        · rw [if_pos hall, if_pos (by rw [hall]), ← hall, behind_cons_leading hd, hall]
        · rw [if_neg hall, if_neg (by simpa using hall)]
      · have hle : n * base + d ≤ behind base (n * base + d) (leading base cs) :=
          Nat.le_add_right_of_le (Nat.le_mul_of_pos_right _ (Nat.pow_pos hpos))
        rw [if_neg hfits, if_neg nofun, if_neg fun h => hfits (fits_of_le hsign h hle)]

/-- The sign that comes before digits, one if there is none, and the digits. -/
def splitSign : List Char → Int × List Char
  | [] => (1, [])
  | c :: cs => if c = '+' then (1, cs) else if c = '-' then (-1, cs) else (1, c :: cs)

theorem splitSign_cons (hc : c = '+' ∨ c = '-') (cs : List Char) :
    splitSign (c :: cs) = (if c = '-' then -1 else 1, cs) := by
  rcases hc with rfl | rfl <;> rfl

theorem splitSign_of_head (hsign : ∀ c ∈ cs.head?, c ≠ '+' ∧ c ≠ '-') :
    splitSign cs = (1, cs) := by
  cases cs with
  | nil => rfl
  | cons c cs =>
    obtain ⟨hplus, hminus⟩ := hsign c rfl
    rw [splitSign, if_neg hplus, if_neg hminus]

/-- What digits with a sign write. -/
def signed (base : Nat) (sign : Int) (ds : List Char) : Except Fault Int64 :=
  if Fits (sign * value base (leading base ds)) then
    if ds ≠ [] ∧ ds.all fun c => (digit? base c).isSome then
      .ok (Int64.ofInt (sign * value base ds))
    else .error .malformed
  else .error .overflow

theorem signed_nil (base : Nat) (sign : Int) : signed base sign [] = .error .malformed := by
  simp [signed, leading, value_nil, Fits]

theorem readFrom_zero (hbase : base ≤ 16) (hpos : 0 < base) {sign : Int}
    (hsign : sign = 1 ∨ sign = -1) (hne : cs ≠ []) :
    readFrom base sign 0 cs = signed base sign cs := by
  have hzero : Fits (sign * (0 : Nat)) := by rcases hsign with rfl | rfl <;> decide
  have hread := readFrom_eq hbase hpos hsign hzero cs
  simp only [behind, Nat.zero_mul, Nat.zero_add, Nat.cast_zero, mul_zero,
    leading_eq_self_iff] at hread
  simpa [signed, hne] using hread

/-- Digits, with a sign before them or without, write the number that they have in their base, if it
is not too large and nothing else is among them. -/
theorem ofDigits_eq (hbase : base ≤ 16) (hpos : 0 < base) (cs : List Char) :
    ofDigits base cs = signed base (splitSign cs).1 (splitSign cs).2 := by
  cases cs with
  | nil => exact (signed_nil base 1).symm
  | cons c cs =>
    by_cases hc : c = '+' ∨ c = '-'
    · rw [ofDigits, if_pos hc, splitSign_cons hc]
      cases cs with
      | nil => exact (signed_nil base _).symm
      | cons d ds =>
        refine readFrom_zero hbase hpos ?_ (List.cons_ne_nil d ds)
        split
        · exact .inr rfl
        · exact .inl rfl
    · have hhead : ∀ d ∈ (c :: cs).head?, d ≠ '+' ∧ d ≠ '-' := by
        rintro d ⟨⟩
        exact not_or.1 hc
      rw [ofDigits, if_neg hc, splitSign_of_head hhead]
      exact readFrom_zero hbase hpos (.inl rfl) (List.cons_ne_nil c cs)

/-! ### Reading literals -/

theorem isDigit_iff : c.isDigit = true ↔ '0' ≤ c ∧ c ≤ '9' := by
  simp [Char.isDigit, Char.le_def]

theorem isDigitOrGap_iff : isDigitOrGap c = true ↔ c.isDigit = true ∨ c = '_' := by
  simp [isDigitOrGap, isDigit_iff]

theorem mem_marks {m : Nat} : (c, m) ∈ marks ↔
    (c = 'x' ∨ c = 'X') ∧ m = 16 ∨ (c = 'b' ∨ c = 'B') ∧ m = 2 ∨ (c = 'o' ∨ c = 'O') ∧ m = 8 := by
  simp only [marks, List.mem_cons, List.not_mem_nil, Prod.mk.injEq]
  tauto

theorem radix?_of_not_mark (h : ∀ m, (c, m) ∉ marks) (cs : List Char) :
    radix? ('0' :: c :: cs) =
      if (c :: cs).all isDigitOrGap then some (8, c :: cs) else none := by
  have hx : ¬(c = 'x' ∨ c = 'X') := fun hc => h 16 (mem_marks.2 (.inl ⟨hc, rfl⟩))
  have hb : ¬(c = 'b' ∨ c = 'B') := fun hc => h 2 (mem_marks.2 (.inr (.inl ⟨hc, rfl⟩)))
  have ho : ¬(c = 'o' ∨ c = 'O') := fun hc => h 8 (mem_marks.2 (.inr (.inr ⟨hc, rfl⟩)))
  rw [radix?, if_neg hx, if_neg hb, if_neg ho]

namespace Spelling

variable {base? : Option Nat}

theorem radix?_eq (h : Spelling cs base? body) :
    radix? cs = base?.map (·, body) ∧ (base? = none → body = cs) := by
  cases h with
  | @marked c base _ mark =>
    refine ⟨?_, nofun⟩
    rcases mem_marks.1 mark with ⟨rfl | rfl, rfl⟩ | ⟨rfl | rfl, rfl⟩ | ⟨rfl | rfl, rfl⟩ <;> rfl
  | @octal c rest gaps =>
    have hmark (m : Nat) : (c, m) ∉ marks := fun hm => by
      have hc := gaps c List.mem_cons_self
      rcases mem_marks.1 hm with ⟨rfl | rfl, -⟩ | ⟨rfl | rfl, -⟩ | ⟨rfl | rfl, -⟩ <;>
        exact absurd hc (by decide)
    have hall : (c :: rest).all isDigitOrGap = true :=
      List.all_eq_true.2 fun x hx => isDigitOrGap_iff.2 (gaps x hx)
    exact ⟨by rw [radix?_of_not_mark hmark, if_pos hall]; rfl, nofun⟩
  | plain mark gaps =>
    refine ⟨?_, fun _ => rfl⟩
    unfold radix?
    split
    · rename_i c rest
      obtain ⟨x, hx, hdigit, hgap⟩ := gaps c rest rfl
      have hall : ¬(c :: rest).all isDigitOrGap = true := fun hall => by
        have hx := isDigitOrGap_iff.1 (List.all_eq_true.1 hall x hx)
        simp [hdigit, hgap] at hx
      exact (radix?_of_not_mark (fun m hm => mark c m rest hm rfl) rest).trans (if_neg hall)
    · rfl

/-- What is read of a literal are the digits that are left of it. -/
theorem read_eq (h : Spelling cs base? body) :
    read cs = ofDigits (base?.getD 10) (dropGaps body) := by
  obtain ⟨hradix, hbody⟩ := h.radix?_eq
  rw [read, hradix]
  cases base? with
  | none => rw [hbody rfl]; rfl
  | some base => rfl

theorem base_mem (h : Spelling cs base? body) : base?.getD 10 ≤ 16 ∧ 0 < base?.getD 10 := by
  cases h with
  | marked mark => rcases mem_marks.1 mark with ⟨-, rfl⟩ | ⟨-, rfl⟩ | ⟨-, rfl⟩ <;> decide
  | octal | plain => decide

end Spelling

theorem exists_spelling (cs : List Char) : ∃ base? body, Spelling cs base? body := by
  by_cases hmark : ∃ c base rest, (c, base) ∈ marks ∧ cs = '0' :: c :: rest
  · obtain ⟨c, base, rest, hmark, rfl⟩ := hmark
    exact ⟨_, _, .marked hmark⟩
  by_cases hgaps : ∃ c rest, cs = '0' :: c :: rest ∧ ∀ x ∈ c :: rest, x.isDigit = true ∨ x = '_'
  · obtain ⟨c, rest, rfl, hgaps⟩ := hgaps
    exact ⟨_, _, .octal hgaps⟩
  · push Not at hmark hgaps
    refine ⟨_, _, .plain hmark fun c rest heq => ?_⟩
    obtain ⟨x, hx, hno⟩ := hgaps c rest heq
    exact ⟨x, hx, by simpa using hno.1, hno.2⟩

/-- What is left of an unsigned literal begins with no sign. -/
theorem Spelling.head_ne_sign {base? : Option Nat} (h : Spelling cs base? body)
    (hu : Unsigned cs) : ∀ c ∈ (dropGaps body).head?, c ≠ '+' ∧ c ≠ '-' := by
  intro sign hsign
  by_contra hno
  have hsigned : sign = '+' ∨ sign = '-' := by tauto
  -- Nothing but underscores stands before the first character that is left.
  obtain ⟨rest, hrest⟩ := List.head?_eq_some_iff.1 hsign
  obtain ⟨gap, behind, hbody, hgap, -, -⟩ := List.filter_eq_cons_iff.1 hrest
  have hgap : ∀ x ∈ gap, x = '_' := by simpa using hgap
  cases h with
  | marked mark => exact hu.mark ⟨_, _, gap, sign, behind, mark, hgap, hsigned, by rw [hbody]⟩
  | octal gaps =>
    have hdigit := gaps sign (by simp [hbody])
    rcases hsigned with rfl | rfl <;> exact absurd hdigit (by decide)
  | plain mark gaps =>
    obtain ⟨c, hc, hdigit⟩ := hu.digit
    rw [hbody] at hc
    cases gap with
    | nil =>
      cases hc
      rcases hsigned with rfl | rfl <;> exact absurd hdigit (by decide)
    | cons x gap =>
      cases hc
      rw [hgap c List.mem_cons_self] at hdigit
      exact absurd hdigit (by decide)

end Integer

end Metadoc
