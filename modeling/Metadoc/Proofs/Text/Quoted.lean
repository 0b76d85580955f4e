import Metadoc.Text.Quoted
import Mathlib.Data.List.Infix

/-!
# Codes that say where they end

A text that is put together from codes can be taken apart if each code says where it ends.

* `SelfDelimiting` says so of a code, with lemmas for codes that are put one behind the other, left
  out, or repeated up to a mark;
* `Quoted.Escaped` lists the ways in which a character is written inside quotes;
* `Quoted.selfDelimiting_escape` and `Quoted.selfDelimiting_encode` : so quoted text says where it
  ends.
-/

namespace Metadoc

/-- Whether a code says where it ends: texts that begin with codes are the same only if the codes
are those of the same thing. -/
def SelfDelimiting {α : Type} (code : α → List Char) : Prop :=
  ∀ ⦃a b : α⦄ ⦃x y : List Char⦄, code a ++ x = code b ++ y → a = b ∧ x = y

namespace SelfDelimiting

variable {α β : Type} {f : α → List Char} {g : β → List Char}

theorem of_isPrefix (h : ∀ a b, f a <+: f b → a = b) : SelfDelimiting f := by
  intro a b x y heq
  have hab : a = b := by
    have ha : f a <+: f b ++ y := heq ▸ List.prefix_append (f a) x
    rcases List.prefix_or_prefix_of_prefix ha (List.prefix_append (f b) y) with hle | hle
    · exact h a b hle
    · exact (h b a hle).symm
  subst hab
  exact ⟨rfl, List.append_cancel_left heq⟩

theorem append (hf : SelfDelimiting f) (hg : SelfDelimiting g) :
    SelfDelimiting fun p : α × β => f p.1 ++ g p.2 := by
  rintro ⟨a, b⟩ ⟨a', b'⟩ x y heq
  rw [List.append_assoc, List.append_assoc] at heq
  obtain ⟨rfl, hrest⟩ := hf heq
  obtain ⟨rfl, hxy⟩ := hg hrest
  exact ⟨rfl, hxy⟩

/-- A code for one thing is one for another that determines it. -/
theorem comp (hf : SelfDelimiting f) {e : β → α} (he : Function.Injective e) :
    SelfDelimiting (f ∘ e) := fun _ _ _ _ heq => (hf heq).imp_left (@he _ _)

/-- A code that is left out for one thing, and begins with a mark otherwise, before a code that does
not begin with the mark. -/
theorem optional {mark : List Char} {absent : α} {code : α → List Char} [DecidableEq α]
    (hcode : ∀ a, code a = if a = absent then [] else mark ++ f a)
    (hf : ∀ ⦃a b : α⦄ ⦃x y : List Char⦄, a ≠ absent → b ≠ absent → f a ++ x = f b ++ y →
      a = b ∧ x = y)
    (hg : SelfDelimiting g) (hmark : ∀ b x y, g b ++ x ≠ mark ++ y) :
    SelfDelimiting fun p : α × β => code p.1 ++ g p.2 := by
  rintro ⟨a, b⟩ ⟨a', b'⟩ x y heq
  simp only [hcode, List.append_assoc] at heq
  -- Where the code is left out on one side only, the rest there begins with the mark of the other.
  split_ifs at heq with ha ha' ha'
  · obtain ⟨rfl, hxy⟩ := hg heq
    exact ⟨by rw [ha, ha'], hxy⟩
  · exact absurd (by simpa using heq) (hmark b x (f a' ++ (g b' ++ y)))
  · exact absurd (by simpa using heq.symm) (hmark b' y (f a ++ (g b ++ x)))
  · rw [List.append_assoc, List.append_assoc, List.append_cancel_left_eq] at heq
    obtain ⟨rfl, hrest⟩ := hf ha ha' heq
    obtain ⟨rfl, hxy⟩ := hg hrest
    exact ⟨rfl, hxy⟩

/-- Codes one behind the other, up to a mark that none of them begins with. -/
theorem many (hf : SelfDelimiting f) {stop : Char} (hstop : ∀ a x y, f a ++ x ≠ stop :: y) :
    SelfDelimiting fun as : List α => as.flatMap f ++ [stop] := by
  intro as
  induction as with
  | nil =>
    intro bs x y heq
    cases bs with
    | nil => exact ⟨rfl, List.tail_eq_of_cons_eq heq⟩
    | cons b bs =>
      simp only [List.flatMap_cons, List.append_assoc] at heq
      exact absurd heq.symm (hstop b _ _)
  | cons a as ih =>
    intro bs x y heq
    cases bs with
    | nil =>
      simp only [List.flatMap_cons, List.append_assoc] at heq
      exact absurd heq (hstop a _ _)
    | cons b bs =>
      simp only [List.flatMap_cons, List.append_assoc] at heq
      obtain ⟨rfl, hrest⟩ := hf heq
      rw [← List.append_assoc, ← List.append_assoc] at hrest
      obtain ⟨rfl, hxy⟩ := ih hrest
      exact ⟨rfl, hxy⟩

theorem flatMap_inj (hf : SelfDelimiting f) (hne : ∀ a, f a ≠ []) :
    ∀ {as bs : List α}, as.flatMap f = bs.flatMap f → as = bs
  | [], [], _ => rfl
  | [], b :: bs, h => by
    rw [List.flatMap_cons, List.flatMap_nil] at h
    exact absurd (List.append_eq_nil_iff.1 h.symm).1 (hne b)
  | a :: as, [], h => by
    rw [List.flatMap_cons, List.flatMap_nil] at h
    exact absurd (List.append_eq_nil_iff.1 h).1 (hne a)
  | a :: as, b :: bs, h => by
    rw [List.flatMap_cons, List.flatMap_cons] at h
    obtain ⟨rfl, hrest⟩ := hf h
    rw [flatMap_inj hf hne hrest]

end SelfDelimiting

theorem append_stop_inj {stop : Char} : ∀ {xs ys x y : List Char}, stop ∉ xs → stop ∉ ys →
    xs ++ stop :: x = ys ++ stop :: y → xs = ys ∧ x = y
  | [], [], _, _, _, _, h => ⟨rfl, (List.cons.inj h).2⟩
  | [], _ :: _, _, _, _, hys, h => absurd (List.mem_cons.2 (.inl (List.cons.inj h).1)) hys
  | _ :: _, [], _, _, hxs, _, h => absurd (List.mem_cons.2 (.inl (List.cons.inj h).1.symm)) hxs
  | a :: xs, b :: ys, _, _, hxs, hys, h => by
    obtain ⟨rfl, hrest⟩ := List.cons.inj h
    obtain ⟨rfl, hxy⟩ := append_stop_inj (fun hm => hxs (List.mem_cons_of_mem _ hm))
      (fun hm => hys (List.mem_cons_of_mem _ hm)) hrest
    exact ⟨rfl, hxy⟩

namespace Quoted

/-! ### Numbers -/

theorem digitChar_inj : ∀ a < 16, ∀ b < 16, Nat.digitChar a = Nat.digitChar b → a = b := by
  decide

theorem digitChar_ne_brace : ∀ a < 16, Nat.digitChar a ≠ '\x7d' := by
  decide

theorem hexDigits_eq (n : Nat) : hexDigits n =
    if n < 16 then [Nat.digitChar n] else hexDigits (n / 16) ++ [Nat.digitChar (n % 16)] :=
  Nat.toDigits_eq_if (by decide)

theorem brace_notMem_hexDigits (n : Nat) : '\x7d' ∉ hexDigits n := by
  induction n using Nat.strongRecOn with
  | ind n ih =>
    rw [hexDigits_eq]
    split_ifs with hn
    · rw [List.mem_singleton]
      exact fun h => digitChar_ne_brace n hn h.symm
    · rw [List.mem_append, List.mem_singleton]
      rintro (h | h)
      · exact ih (n / 16) (Nat.div_lt_self (by omega) (by decide)) h
      · exact digitChar_ne_brace _ (Nat.mod_lt n (by decide)) h.symm

theorem hexDigits_injective : Function.Injective hexDigits := by
  intro n
  induction n using Nat.strongRecOn with
  | ind n ih =>
    intro m h
    have hne (k : Nat) : hexDigits k ≠ [] := Nat.toDigits_ne_nil
    rw [hexDigits_eq n, hexDigits_eq m] at h
    split_ifs at h with hn hm hm
    · exact digitChar_inj n hn m hm (List.cons.inj h).1
    · rw [← List.nil_append [Nat.digitChar n]] at h
      exact absurd (List.append_inj' h rfl).1.symm (hne _)
    · rw [← List.nil_append [Nat.digitChar m]] at h
      exact absurd (List.append_inj' h rfl).1 (hne _)
    · obtain ⟨hdiv, hlast⟩ := List.append_inj' h rfl
      have hquot := ih (n / 16) (Nat.div_lt_self (by omega) (by decide)) hdiv
      have hrem := digitChar_inj _ (Nat.mod_lt n (by decide)) _ (Nat.mod_lt m (by decide))
        (List.cons.inj hlast).1
      omega

/-! ### Characters -/

/-- The escapes of two characters, by their second character. -/
def shortEscapes : List (Char × Char) :=
  [('t', '\t'), ('r', '\r'), ('n', '\n'), ('\\', '\\'), ('"', '"'), ('0', '\x00')]

/-- The ways in which a character is written inside quotes. -/
inductive Escaped (c : Char) : List Char → Prop
  /-- As it is. -/
  | plain (slash : c ≠ '\\') (quote : c ≠ '"') : Escaped c [c]
  /-- By an escape of two characters. -/
  | short {key : Char} (key_mem : (key, c) ∈ shortEscapes) : Escaped c ['\\', key]
  /-- By its number. -/
  | number : Escaped c ('\\' :: 'u' :: '\x7b' :: (hexDigits c.toNat ++ ['\x7d']))

theorem escaped_escape (c : Char) : Escaped c (escape c) := by
  unfold escape
  split_ifs with ht hr hn hs hq h0 hp
  · exact .short (by simp [ht, shortEscapes])
  · exact .short (by simp [hr, shortEscapes])
  · exact .short (by simp [hn, shortEscapes])
  · exact .short (by simp [hs, shortEscapes])
  · exact .short (by simp [hq, shortEscapes])
  · have hc : c = '\x00' := Char.toNat_inj.1 h0
    exact .short (by simp [hc, shortEscapes])
  · exact .plain hs hq
  · exact .number

/-- An escape of two characters stands for one character, and is no number. -/
theorem shortEscapes_inj :
    ∀ p ∈ shortEscapes, p.1 ≠ 'u' ∧ ∀ q ∈ shortEscapes, p.1 = q.1 → p = q := by
  decide

/-- A character inside quotes says where it ends. -/
theorem selfDelimiting_escape : SelfDelimiting escape := by
  intro a b x y h
  have ha := escaped_escape a
  have hb := escaped_escape b
  -- The forms are told apart by their first two characters, and a number ends with its brace.
  generalize escape a = xs at h ha
  generalize escape b = ys at h hb
  cases ha with
  | plain hslash _ =>
    cases hb with
    | plain _ _ => exact List.cons.inj h
    | short _ | number => exact absurd (List.cons.inj h).1 hslash
  | short hkey =>
    cases hb with
    | plain hslash _ => exact absurd (List.cons.inj h).1.symm hslash
    | short hkey' =>
      obtain ⟨hk, hxy⟩ := List.cons.inj (List.cons.inj h).2
      exact ⟨congrArg Prod.snd ((shortEscapes_inj _ hkey).2 _ hkey' hk), hxy⟩
    | number =>
      exact absurd (List.cons.inj (List.cons.inj h).2).1 (shortEscapes_inj _ hkey).1
  | number =>
    cases hb with
    | plain hslash _ => exact absurd (List.cons.inj h).1.symm hslash
    | short hkey' =>
      exact absurd (List.cons.inj (List.cons.inj h).2).1.symm (shortEscapes_inj _ hkey').1
    | number =>
      simp only [List.cons_append, List.cons.injEq, true_and, List.append_assoc] at h
      obtain ⟨hdigits, hxy⟩ :=
        append_stop_inj (brace_notMem_hexDigits _) (brace_notMem_hexDigits _) h
      exact ⟨Char.toNat_inj.1 (hexDigits_injective hdigits), hxy⟩

theorem escape_append_ne (c : Char) (x y : List Char) : escape c ++ x ≠ '"' :: y := by
  have hc := escaped_escape c
  generalize escape c = xs at hc
  cases hc with
  | plain _ hquote => exact fun h => hquote (List.cons.inj h).1
  | short _ | number => exact fun h => absurd (List.cons.inj h).1 (by decide)

/-- Quoted text says where it ends. -/
theorem selfDelimiting_encode : SelfDelimiting fun s => (encode s).toList := by
  have hchars : SelfDelimiting encodeChars := fun cs ds x y h =>
    selfDelimiting_escape.many escape_append_ne (List.cons.inj h).2
  intro s t x y h
  simp only [encode, String.toList_ofList] at h
  obtain ⟨hst, hxy⟩ := hchars h
  exact ⟨String.toList_inj.1 hst, hxy⟩

end Quoted

end Metadoc
