import Metadoc.Proofs.Token.Layout

/-!
# The tokens of a text that stands in another

* `Token.allFrom_moved` : the tokens of a text are found in another one that it is a part of, as
  long as what follows there does not go on with the last of them;
* `Token.exists_core` : a text is a list of tokens that does not end with blanks, and the blanks
  behind it;
* `Token.allFrom_blanks` : blanks before what is no blank are one token.
-/

namespace Metadoc

namespace Token

open Ascii

variable {line : Bool} {t : Token} {ts : List Token} {v v' : Bytes}

theorem allFrom_later {later : List Token} :
    ∀ {pos : Nat}, allFrom pos 0 (ts.flatMap bytes ++ v) = ts ++ later →
      allFrom (pos + (ts.flatMap bytes).length) 0 v = later := by
  induction ts with
  | nil => intro pos h; exact h
  | cons t ts ih =>
    intro pos h
    obtain ⟨-, -, rest, hrest, -, htail⟩ := allFrom_eq_cons h
    rw [List.flatMap_cons, List.append_assoc] at hrest
    rw [← List.append_cancel_left hrest] at htail
    rw [List.flatMap_cons, List.length_append, ← Nat.add_assoc]
    exact ih htail

/-- Blanks before what is no blank are one token. -/
theorem allFrom_blanks {xs : Bytes} (hne : xs ≠ []) (hxs : ∀ x ∈ xs, isBlank x = true)
    (hv : ∀ b ∈ v.head?, isBlank b = false) (pos : Nat) :
    allFrom pos 0 (xs ++ v) =
      ⟨.whitespace, pos, xs, none, none⟩ :: allFrom (pos + xs.length) 0 v := by
  obtain ⟨x, xs, rfl⟩ := List.exists_cons_of_ne_nil hne
  have hfirst : Scan.first (x :: xs ++ v) = { kind := .whitespace, length := xs.length + 1 } :=
    Scan.first_blanks (hxs x List.mem_cons_self) (fun y hy => hxs y (List.mem_cons_of_mem x hy)) hv
  have happend := allFrom_append hne (congrArg Scan.length hfirst) pos
  rwa [hfirst] at happend

theorem kind_of_blanks {xs : Bytes} (hxs : ∀ x ∈ xs, isBlank x = true) (pos : Nat) :
    ∀ t ∈ allFrom pos 0 xs, t.kind = .whitespace ∧ t.error = none := by
  by_cases hne : xs = []
  · subst hne
    exact nofun
  · have hall := allFrom_blanks (v := []) hne hxs nofun pos
    rw [List.append_nil] at hall
    rw [hall]
    exact List.forall_mem_singleton.2 ⟨rfl, rfl⟩

/-- Blanks are read by themselves before what is no blank. -/
theorem allFrom_append_of_blanks {xs : Bytes} (hxs : ∀ x ∈ xs, isBlank x = true)
    (hv : ∀ b ∈ v.head?, isBlank b = false) (pos : Nat) :
    allFrom pos 0 (xs ++ v) = allFrom pos 0 xs ++ allFrom (pos + xs.length) 0 v := by
  by_cases hne : xs = []
  · subst hne
    rfl
  · have hall := allFrom_blanks (v := []) hne hxs nofun pos
    rw [List.append_nil] at hall
    rw [allFrom_blanks hne hxs hv, hall]
    rfl

theorem head_of_isLineComment {pos : Nat} (h : allFrom pos 0 (t.bytes ++ v) = t :: ts)
    (hline : t.isLineComment = true) : ∀ b ∈ v.head?, b = Bytes.lineFeed := by
  obtain ⟨-, -, rest, hrest, hfirst, -⟩ := allFrom_eq_cons h
  obtain rfl := (List.append_cancel_left hrest).symm
  simp only [isLineComment, Bool.and_eq_true, List.isPrefixOf_iff_prefix] at hline
  obtain ⟨xs, hxs⟩ := hline.2
  rw [length, ← hxs] at hfirst
  have hlength : (Scan.lineComment (0x2F :: xs ++ rest)).length = xs.length + 1 + 1 :=
    congrArg Scan.length ((Scan.first_lineComment rfl).symm.trans hfirst)
  have hrun := Scan.length_takeWhile_append.1 (Nat.succ_inj.1 hlength)
  intro b hb
  simpa using hrun.2 b hb

theorem isBlank_of_kind {pos : Nat} {text : Bytes} (h : allFrom pos 0 text = t :: ts)
    (hk : t.kind = .whitespace) :
    (∀ x ∈ t.bytes, isBlank x = true) ∧ ∀ u ∈ ts.head?, u.kind ≠ .whitespace := by
  obtain ⟨hne, -, rest, rfl, hfirst, htail⟩ := allFrom_eq_cons h
  obtain ⟨x, xs, hx⟩ := List.exists_cons_of_ne_nil hne
  have hlength : t.length = xs.length + 1 := by rw [length, hx]; rfl
  rw [hx, hlength, List.cons_append] at hfirst
  have hblank := (Scan.kind_first x (xs ++ rest)).1 ((congrArg Scan.kind hfirst).trans hk)
  rw [Scan.first, Scan.ofCons, if_pos hblank, Scan.mk.injEq, Nat.succ_inj,
    Scan.length_takeWhile_append] at hfirst
  obtain ⟨-, ⟨hin, hout⟩, -⟩ := hfirst
  refine ⟨hx ▸ List.forall_mem_cons.2 ⟨hblank, hin⟩, fun u hu hku => ?_⟩
  obtain ⟨us, rfl⟩ := List.head?_eq_some_iff.1 hu
  obtain ⟨hne', -, rest', rfl, hfirst', -⟩ := allFrom_eq_cons htail
  obtain ⟨y, ys, hy⟩ := List.exists_cons_of_ne_nil hne'
  rw [hy, List.cons_append] at hfirst' hout
  have hblank' := (Scan.kind_first y (ys ++ rest')).1 ((congrArg Scan.kind hfirst').trans hku)
  rw [hout y rfl] at hblank'
  cases hblank'

/-! ### Texts with the same blanks -/

/-- Every token stands for itself, with the break behind a comment to the end of the line. -/
theorem relaid_self {later : List Token} :
    ∀ {pos : Nat} {line : Bool}, allFrom pos 0 (ts.flatMap bytes ++ v) = ts ++ later →
      (line = true → ∀ b ∈ (ts.flatMap bytes ++ v).head?, b = Bytes.lineFeed) →
      Relaid line ts (ts.map bytes) := by
  induction ts with
  | nil => intros; exact .nil
  | cons t ts ih =>
    intro pos line hall hline
    obtain ⟨hne, -, rest, hrest, hfirst, htail⟩ := allFrom_eq_cons hall
    rw [List.flatMap_cons, List.append_assoc] at hrest hfirst hline
    obtain rfl := (List.append_cancel_left hrest).symm
    obtain ⟨x, xs, hx⟩ := List.exists_cons_of_ne_nil hne
    have hlength : t.length = xs.length + 1 := by rw [length, hx]; rfl
    rw [hx, hlength, List.cons_append] at hfirst
    rw [hx] at hline
    refine .cons ?_ (ih htail fun hcomment => ?_)
    · by_cases hk : t.kind = .whitespace
      · have hblank := (isBlank_of_kind hall hk).1
        rw [hx] at hblank ⊢
        exact .laid hk hblank (by rw [hx]) fun h => hline h x rfl
      · exact .kept hk
    · -- A comment to the end of the line goes on to a line break.
      rw [List.flatMap_cons, List.append_assoc] at hall
      exact head_of_isLineComment hall hcomment

theorem settle_self {later : List Token} {n : Nat} :
    ∀ {pos : Nat}, allFrom pos 0 (ts.flatMap bytes ++ v) = ts ++ later →
      settle (pos + n) ts (ts.map bytes) = ts.map (·.shift n) := by
  induction ts with
  | nil => intros; rfl
  | cons t ts ih =>
    intro pos hall
    obtain ⟨-, hstart, rest, hrest, -, htail⟩ := allFrom_eq_cons hall
    rw [List.flatMap_cons, List.append_assoc] at hrest
    rw [← List.append_cancel_left hrest] at htail
    have hlater := ih htail
    rw [List.map_cons, List.map_cons, settle, Nat.add_right_comm, ← hlater, shift, hstart]
    rfl

/-- The tokens of a text are found in another one that goes on differently. -/
theorem allFrom_moved {pos : Nat} {later : List Token} (hb : Behind ts v v')
    (hall : allFrom pos 0 (ts.flatMap bytes ++ v) = ts ++ later) (n : Nat) :
    allFrom (pos + n) 0 (ts.flatMap bytes ++ v') =
      ts.map (·.shift n) ++ allFrom (pos + n + (ts.flatMap bytes).length) 0 v' := by
  have hmoved := allFrom_relaid (@relaid_self _ _ _ _ false hall nofun) hb hall (pos + n)
  rwa [settle_self hall, ← List.flatMap_def] at hmoved

/-- A text is a list of tokens that does not end with blanks, and the blanks behind it. -/
theorem exists_core (pos : Nat) (text : Bytes) :
    ∃ core w, text = core.flatMap bytes ++ w ∧ (∀ x ∈ w, isBlank x = true) ∧
      allFrom pos 0 text = core ++ allFrom (pos + (core.flatMap bytes).length) 0 w ∧
      ∀ t ∈ core.getLast?, t.kind ≠ .whitespace := by
  have hbytes := flatMap_bytes_allFrom text pos 0
  rw [List.drop_zero] at hbytes
  by_cases hlast : ∃ core u, allFrom pos 0 text = core ++ [u] ∧ u.kind = .whitespace
  · obtain ⟨core, u, hall, hk⟩ := hlast
    rw [hall, List.flatMap_append, List.flatMap_singleton] at hbytes
    have hlater : allFrom (pos + (core.flatMap bytes).length) 0 u.bytes = [u] :=
      allFrom_later (by rw [hbytes, hall])
    refine ⟨core, u.bytes, hbytes.symm, (isBlank_of_kind hlater hk).1, by rw [hlater, hall], ?_⟩
    intro t ht hkt
    obtain ⟨before, rfl⟩ := List.getLast?_eq_some_iff.1 ht
    rw [List.flatMap_append, List.flatMap_singleton, List.append_assoc] at hbytes
    rw [List.append_assoc] at hall
    have hlast : allFrom (pos + (before.flatMap bytes).length) 0 (t.bytes ++ u.bytes) = [t, u] :=
      allFrom_later (by rw [hbytes, hall]; rfl)
    exact (isBlank_of_kind hlast hkt).2 u rfl hk
  · refine ⟨allFrom pos 0 text, [], ?_, nofun, ?_, fun t ht hk => ?_⟩
    · rw [hbytes, List.append_nil]
    · rw [allFrom, List.append_nil]
    · obtain ⟨core, hcore⟩ := List.getLast?_eq_some_iff.1 ht
      exact hlast ⟨core, t, hcore, hk⟩

end Token

end Metadoc
