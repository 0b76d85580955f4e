import Metadoc.Proofs.Expr.Atoms

/-!
# Numbers are read exactly

* `readSpelled` is what a literal is read as by its spelling (`readInt_eq`);
* `Scan.isChain_number` : in a number that is read from a document a sign comes behind an `e` only,
  so that it is `Integer.Unsigned` (`Token.unsigned_of_alone`);
* `Expr.evaluateInt_numeric` : such a number has the value that its digits write.
-/

namespace Metadoc

/-! ### The value of a literal -/

/-- What a literal is read as that names the base `base?`, if any, and writes the digits `ds` with
the sign `sign`.  It is no integer if it names no base and has a point or a power of ten.  The
digits up to the first character that is none must not write too large a number, and there must be
nothing behind them. -/
def readSpelled (text : String) (base? : Option Nat) (sign : Int) (ds : List Char) :
    Except EvalError Int64 :=
  let base := base?.getD 10
  if base? = none ∧ ('.' ∈ text.toList ∨ 'e' ∈ text.toList ∨ 'E' ∈ text.toList) then
    .error (.notInteger text)
  else if ¬Integer.Fits (sign * Integer.value base (Integer.leading base ds)) then .error .overflow
  else if ds ≠ [] ∧ ds.all fun c => (Integer.digit? base c).isSome then
    .ok (Int64.ofInt (sign * Integer.value base ds))
  else .error (.notNumeric text)

variable {text : String} {base? : Option Nat} {body ds : List Char} {sign : Int} {v : Int64}

theorem isFloatLiteral_iff (h : Integer.Spelling text.toList base? body) :
    isFloatLiteral text.toList = true ↔
      base? = none ∧ ('.' ∈ text.toList ∨ 'e' ∈ text.toList ∨ 'E' ∈ text.toList) := by
  rw [isFloatLiteral, h.radix?_eq.1]
  cases base? <;> simp [or_assoc, and_or_left, exists_or]

/-- Every literal is read as it is spelled, without its underscores. -/
theorem readInt_eq (h : Integer.Spelling text.toList base? body)
    (hds : Integer.splitSign (Integer.dropGaps body) = (sign, ds)) :
    readInt text = readSpelled text base? sign ds := by
  rw [readInt, readSpelled]
  refine if_congr (isFloatLiteral_iff h) rfl ?_
  rw [h.read_eq, Integer.ofDigits_eq h.base_mem.1 h.base_mem.2, hds, Integer.signed]
  by_cases hfits : Integer.Fits
      (sign * Integer.value (base?.getD 10) (Integer.leading (base?.getD 10) ds))
  · rw [if_pos hfits, if_neg (not_not.2 hfits)]
    by_cases hdigits : ds ≠ [] ∧ ds.all fun c => (Integer.digit? (base?.getD 10) c).isSome
    · rw [if_pos hdigits, if_pos hdigits]
    · rw [if_neg hdigits, if_neg hdigits]
  · rw [if_neg hfits, if_pos hfits]

example : readInt "0xfF_" = .ok 255 := by decide

example : readInt "0b1e+1" = .error (.notNumeric "0b1e+1") := by decide

/-- A literal that has a value is made of digits, and the value is what they write. -/
theorem toInt_of_readSpelled (h : readSpelled text base? sign ds = .ok v) :
    (ds.all fun c => (Integer.digit? (base?.getD 10) c).isSome) = true ∧
      v.toInt = sign * Integer.value (base?.getD 10) ds := by
  simp only [readSpelled] at h
  split at h
  · cases h
  split at h
  · cases h
  rename_i hfits
  split at h
  · rename_i hdigits
    cases h
    rw [Integer.leading_eq_self_iff.2 hdigits.2] at hfits
    exact ⟨hdigits.2, Integer.toInt_ofInt (not_not.1 hfits)⟩
  · cases h

/-! ### Numbers of documents -/

namespace Scan

open Ascii

/-- What may stand before a sign in a number. -/
def Leads (x y : UInt8) : Prop := y = 0x2B ∨ y = 0x2D → x = 0x65 ∨ x = 0x45

theorem isChain_number (hex : Bool) (xs : Bytes) :
    ∀ point last, List.IsChain Leads (last :: xs.take (numberLengthFrom hex point last xs)) := by
  induction xs with
  | nil => intro point last; exact .singleton last
  | cons x xs ih =>
    intro point last
    unfold numberLengthFrom
    split
    · rename_i hword
      refine .cons_cons ?_ (ih _ _)
      rintro (rfl | rfl) <;> cases hword
    split
    · rename_i hpoint
      simp only [Bool.and_eq_true, beq_iff_eq] at hpoint
      refine .cons_cons ?_ (ih _ _)
      rintro (rfl | rfl) <;> cases hpoint.1.1.1
    split
    · rename_i hsign
      simp only [Bool.and_eq_true, Bool.or_eq_true, beq_iff_eq] at hsign
      exact .cons_cons (fun _ => hsign.1.2) (ih _ _)
    · exact .singleton last

end Scan

theorem Utf8.lossyChars_of_ascii {bytes : Bytes} (h : ∀ b ∈ bytes, b < 0x80) :
    lossyChars bytes = bytes.map fun b => Char.ofNat b.toNat := by
  have hencode : encode (bytes.map fun b => Char.ofNat b.toNat) = bytes := by
    rw [encode, List.flatMap_map, List.flatMap_congr fun b hb => encodeChar_scalar_one
      (UInt8.lt_iff_toNat_lt.1 (h b hb)), List.flatMap_singleton']
  have hchars := lossyChars_encode (bytes.map fun b => Char.ofNat b.toNat)
  rwa [hencode] at hchars

namespace Token

variable {bytes : Bytes} {t : Token}

/-- What a text is that is one number by itself: a digit, and bytes of ASCII behind it, with a sign
only behind an `e`. -/
theorem number_of_alone (h : all bytes 0 = [t]) (hk : t.kind = .numeric) :
    ∃ b rest, bytes = b :: rest ∧ Ascii.isDigit b = true ∧ (∀ x ∈ b :: rest, x < 0x80) ∧
      List.IsChain Scan.Leads (b :: rest) := by
  obtain ⟨hne, -, behind, hbytes, hfirst, hlater⟩ := allFrom_eq_cons h
  have hbehind := flatMap_bytes_allFrom behind t.length 0
  rw [Nat.zero_min, Nat.zero_add] at hlater
  rw [hlater, List.flatMap_nil, List.drop_zero] at hbehind
  rw [← hbehind, List.append_nil] at hbytes
  obtain ⟨b, rest, hcons⟩ := List.exists_cons_of_ne_nil hne
  rw [hbytes, hcons] at hfirst
  have hkind : (Scan.first (b :: rest)).kind = .numeric := by rw [hfirst, hk]
  have hdigit := Scan.isDigit_of_kind hkind
  -- The whole text is the number, so that what holds of the number holds of the text.
  obtain ⟨hex, hnumber⟩ : ∃ hex, Scan.numberLength b rest =
      Scan.numberLengthFrom hex false b rest + 1 := ⟨_, rfl⟩
  have hlength := Scan.length_of_numeric hkind
  rw [hfirst, hnumber, length, hcons, List.length_cons] at hlength
  have hwhole : rest.take (Scan.numberLengthFrom hex false b rest) = rest := by
    rw [← Nat.succ.inj hlength, List.take_length]
  have hascii := @Scan.lt_of_mem_number hex rest false b
  have hchain := Scan.isChain_number hex rest false b
  rw [hwhole] at hascii hchain
  refine ⟨b, rest, hbytes.trans hcons, hdigit, fun x hx => ?_, hchain⟩
  rcases List.mem_cons.1 hx with rfl | hx
  · exact Scan.lt_of_isWord (by rw [Ascii.isWord, hdigit, Bool.or_true])
  · exact hascii x hx

theorem unsigned_of_alone (h : all bytes 0 = [t]) (hk : t.kind = .numeric) :
    Integer.Unsigned (Utf8.lossyChars bytes) := by
  obtain ⟨b, rest, rfl, hdigit, hascii, hchain⟩ := number_of_alone h hk
  have hchar (x : UInt8) : (Char.ofNat x.toNat).toNat = x.toNat :=
    Utf8.toNat_ofNat (.inl (Nat.lt_trans x.toNat_lt (by decide)))
  have hsigns : List.IsChain (fun x y : Char => y = '+' ∨ y = '-' → x = 'e' ∨ x = 'E')
      (Utf8.lossyChars (b :: rest)) := by
    rw [Utf8.lossyChars_of_ascii hascii]
    refine List.isChain_map_of_isChain _ (fun x y hxy hy => ?_) hchain
    have hy : y = 0x2B ∨ y = 0x2D := by
      rcases hy with hy | hy
      · exact .inl (UInt8.toNat_inj.1 ((hchar y).symm.trans (congrArg Char.toNat hy)))
      · exact .inr (UInt8.toNat_inj.1 ((hchar y).symm.trans (congrArg Char.toNat hy)))
    rcases hxy hy with rfl | rfl
    · exact .inl rfl
    · exact .inr rfl
  refine ⟨?_, ?_⟩
  · rw [Utf8.lossyChars_of_ascii hascii]
    refine ⟨_, rfl, Integer.isDigit_iff.2 ?_⟩
    change 0x30 ≤ (Char.ofNat b.toNat).toNat ∧ (Char.ofNat b.toNat).toNat ≤ 0x39
    rw [hchar]
    exact Ascii.isDigit_iff.1 hdigit
  · rintro ⟨c, base, gap, sign, behind, hmark, hgap, hsign, heq⟩
    rw [heq, ← List.cons_append, ← List.cons_append, List.isChain_append] at hsigns
    have hlast : ('0' :: c :: gap).getLast? =
        some ((c :: gap).getLast (List.cons_ne_nil c gap)) := by
      rw [List.getLast?_eq_some_getLast (List.cons_ne_nil _ _), List.getLast_cons]
    have he := hsigns.2.2 _ hlast sign rfl hsign
    have hmem := List.getLast_mem (List.cons_ne_nil c gap)
    -- What stands before the sign is the mark or an underscore, and no `e`.
    generalize (c :: gap).getLast (List.cons_ne_nil c gap) = x at he hmem
    rcases List.mem_cons.1 hmem with rfl | hx
    · rcases he with rfl | rfl <;> simp [Integer.mem_marks] at hmark
    · rw [hgap x hx] at he
      exact absurd he (by decide)

end Token

namespace Expr

/-- A text that is one number by itself is read as an atom with the value that it spells.  No sign
comes first of what is left to be read, so that a value is what the digits write, and not
negative. -/
theorem evaluateInt_numeric (path : String) (constants : OrderedMap Key.hash Int64)
    {bytes : Bytes} {t : Token} (h : Token.all bytes 0 = [t]) (hk : t.kind = .numeric) :
    ∃ e base? body, ofDocument? ⟨path, bytes⟩ = some e ∧
      Integer.Spelling (Utf8.lossyChars bytes) base? body ∧
      (∀ c ∈ (Integer.dropGaps body).head?, c ≠ '+' ∧ c ≠ '-') ∧
      e.evaluateInt constants =
        readSpelled (Utf8.lossy bytes) base? 1 (Integer.dropGaps body) ∧
      ∀ v, e.evaluateInt constants = .ok v →
        v.toInt = Integer.value (base?.getD 10) (Integer.dropGaps body) := by
  obtain ⟨b, rest, hcons, -, hascii, -⟩ := Token.number_of_alone h hk
  rw [← hcons] at hascii
  have hbytes : Utf8.ofString (Utf8.lossy bytes) = bytes := by
    have hshown := Utf8.ofString_lossy_shown bytes
    rwa [Utf8.shown_of_isValid (Utf8.isValid_of_ascii hascii)] at hshown
  have hchars : (Utf8.lossy bytes).toList = Utf8.lossyChars bytes := String.toList_ofList
  obtain ⟨base?, body, hspelling⟩ := Integer.exists_spelling (Utf8.lossyChars bytes)
  have hsign := hspelling.head_ne_sign (Token.unsigned_of_alone h hk)
  let a : AtomText := ⟨Utf8.lossy bytes, t, by rwa [hbytes], .inr hk⟩
  obtain ⟨id, he⟩ := a.exists_ofDocument? path
  have hliteral : a.label.label.literal = .numeric := by
    rcases a.literal_eq with ⟨hname, -⟩ | ⟨-, hliteral⟩
    · exact absurd (hk.symm.trans hname) nofun
    · exact hliteral
  have hvalue : (atomOf a.text ⟨id, some a.label.label.literal⟩).evaluateInt constants =
      readSpelled (Utf8.lossy bytes) base? 1 (Integer.dropGaps body) := by
    rw [atomOf, evaluateInt_atom, hliteral]
    exact readInt_eq (hchars ▸ hspelling) (Integer.splitSign_of_head hsign)
  refine ⟨_, base?, body, hbytes ▸ he, hspelling, hsign, hvalue, fun v hv => ?_⟩
  rw [(toInt_of_readSpelled (hvalue.symm.trans hv)).2, one_mul]

/-- The number `0x_fF`. -/
theorem evaluateInt_numeric_hexadecimal :
    let bytes : Bytes := [0x30, 0x78, 0x5F, 0x66, 0x46]
    Token.all bytes 0 = [⟨.numeric, 0, bytes, none, none⟩] ∧
      ∃ e base? body, ofDocument? ⟨"d", bytes⟩ = some e ∧
        Integer.Spelling (Utf8.lossyChars bytes) base? body ∧
        (∀ c ∈ (Integer.dropGaps body).head?, c ≠ '+' ∧ c ≠ '-') ∧
        e.evaluateInt .empty =
          readSpelled (Utf8.lossy bytes) base? 1 (Integer.dropGaps body) ∧
        ∀ v, e.evaluateInt .empty = .ok v →
          v.toInt = Integer.value (base?.getD 10) (Integer.dropGaps body) :=
  ⟨rfl, evaluateInt_numeric "d" .empty rfl rfl⟩

end Expr

end Metadoc
