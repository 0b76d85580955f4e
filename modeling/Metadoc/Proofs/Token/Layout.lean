import Metadoc.Proofs.Token.Shown

/-!
# Other blanks between the same tokens

The blanks between the tokens of a text may be replaced, and another text may follow.  The tokens
that are read then are the same but for these blanks.

* `Token.Block` says which bytes may stand for a token, and `Token.Relaid` which of them may stand
  for a list of tokens: blanks for blanks, with as many line breaks as matter, and the token itself
  for every other;
* `Token.Behind` says when a text may follow tokens in the place of another;
* `Token.settle` puts tokens in their new places;
* `Token.allFrom_relaid` and `Token.all_relaid` : the tokens of the new text are those of the old
  one in their new places.
-/

namespace Metadoc

namespace Scan

open Ascii

/-! ### Blanks and comments to the end of the line -/

theorem length_takeWhile_append {p : UInt8 → Bool} {xs v : Bytes} :
    ((xs ++ v).takeWhile p).length = xs.length ↔
      (∀ x ∈ xs, p x = true) ∧ ∀ b ∈ v.head?, p b = false := by
  induction xs with
  | nil =>
    cases v with
    | nil => simp
    | cons b v => cases hb : p b <;> simp [hb]
  | cons x xs ih => cases hx : p x <;> simp [hx, ih]

theorem first_blanks {b : UInt8} {xs v : Bytes} (hb : isBlank b = true)
    (hxs : ∀ x ∈ xs, isBlank x = true) (hv : ∀ b ∈ v.head?, isBlank b = false) :
    first (b :: xs ++ v) = { kind := .whitespace, length := xs.length + 1 } := by
  rw [List.cons_append, first, ofCons, if_pos hb, length_takeWhile_append.2 ⟨hxs, hv⟩]

theorem first_lineComment {rest : Bytes} (h : rest.head? = some 0x2F) :
    first (0x2F :: rest) = lineComment rest := by
  rw [first, ofCons, if_neg (by decide), if_pos (by simp [h])]

theorem kind_beyondAscii (b : UInt8) (rest : Bytes) :
    (beyondAscii b rest).kind ≠ .whitespace := by
  unfold beyondAscii
  split
  · split <;> simp
  · simp

theorem kind_first (b : UInt8) (rest : Bytes) :
    (first (b :: rest)).kind = .whitespace ↔ isBlank b = true := by
  simp only [first]
  unfold ofCons
  split
  · rename_i hb
    simp [hb]
  rename_i hb
  refine iff_of_false ?_ hb
  split
  · simp [lineComment]
  split
  · simp [blockComment]
  split
  · simp [literal]
  split
  · simp
  split
  · simp
  split
  · simp
  split
  · simp
  · exact kind_beyondAscii b rest

theorem error_beyondAscii (b : UInt8) (rest : Bytes) : ¬Unclosed (beyondAscii b rest).error := by
  unfold beyondAscii
  split
  · split <;> exact not_unclosed_none
  · simp [Unclosed]

theorem length_of_unclosed_blockComment {xs : Bytes} (h : Unclosed (blockComment xs).error) :
    (blockComment xs).length = xs.length + 2 := by
  simp only [blockComment] at h ⊢
  rcases blockLength_cases xs with ⟨hclosed, -⟩ | ⟨-, hlength⟩
  · rw [hclosed] at h
    exact absurd h not_unclosed_none
  · rw [hlength]

theorem length_of_unclosed_literal {quote : Quote} {xs : Bytes}
    (h : Unclosed (literal quote xs).error) : (literal quote xs).length = xs.length + 1 := by
  have hpos := width_pos (openingStyle quote xs)
  have hwidth := width_openingStyle_le quote xs
  simp only [literal] at h ⊢
  rcases literalLength_cases (openingStyle quote xs).delimiter
    (xs.drop ((openingStyle quote xs).width - 1)) with ⟨hclosed, -⟩ | ⟨-, hlength⟩
  · rw [hclosed] at h
    exact absurd h not_unclosed_none
  · rw [hlength, List.length_drop]
    omega

theorem length_of_unclosed {b : UInt8} {rest : Bytes} (h : Unclosed (first (b :: rest)).error) :
    (first (b :: rest)).length = rest.length + 1 := by
  -- Of all branches of the lexer only block comments and literals can be left open.
  simp only [first] at h ⊢
  unfold ofCons at h ⊢
  split at h
  · exact absurd h not_unclosed_none
  rename_i hblank
  rw [if_neg hblank]
  split at h
  · exact absurd h not_unclosed_none
  rename_i hline
  rw [if_neg hline]
  split at h
  · rename_i hblock
    rw [if_pos hblock]
    simp only [Bool.and_eq_true, beq_iff_eq] at hblock
    obtain ⟨rest, rfl⟩ := List.head?_eq_some_iff.1 hblock.2
    exact length_of_unclosed_blockComment h
  rename_i hblock
  rw [if_neg hblock]
  split at h
  · rename_i quote hquote
    exact length_of_unclosed_literal h
  split at h
  · exact absurd h not_unclosed_none
  split at h
  · exact absurd h not_unclosed_none
  split at h
  · exact absurd h not_unclosed_none
  split at h
  · simp [Unclosed] at h
  · exact absurd h (error_beyondAscii b rest)

end Scan

namespace Token

open Ascii

/-! ### Blocks -/

/-- Whether a token is a comment to the end of the line. -/
def isLineComment (t : Token) : Bool := t.kind = .comment && [0x2F, 0x2F].isPrefixOf t.bytes

/-- Which bytes may stand for a token.  `line` says that it follows a comment to the end of the
line, which only a line break ends. -/
inductive Block (line : Bool) (t : Token) : Bytes → Prop
  /-- A token other than blanks stands for itself. -/
  | kept (kind : t.kind ≠ .whitespace) : Block line t t.bytes
  /-- Any blanks stand for blanks that break as many lines, up to the second. -/
  | laid {b : UInt8} {bs : Bytes} (kind : t.kind = .whitespace)
      (blank : ∀ x ∈ b :: bs, isBlank x = true)
      (feeds : min (Bytes.lineFeeds (b :: bs)) 2 = min (Bytes.lineFeeds t.bytes) 2)
      (first : line = true → b = Bytes.lineFeed) : Block line t (b :: bs)

/-- Whether blocks may stand for tokens, one for each. -/
inductive Relaid : Bool → List Token → List Bytes → Prop
  | nil {line} : Relaid line [] []
  | cons {line t b ts bs} (block : Block line t b) (rest : Relaid t.isLineComment ts bs) :
      Relaid line (t :: ts) (b :: bs)

theorem block_iff {line : Bool} {t : Token} {b : Bytes} :
    Block line t b ↔ (t.kind ≠ .whitespace ∧ b = t.bytes) ∨
      (t.kind = .whitespace ∧ b ≠ [] ∧ (∀ x ∈ b, isBlank x = true) ∧
        min (Bytes.lineFeeds b) 2 = min (Bytes.lineFeeds t.bytes) 2 ∧
          (line = true → b.head? = some Bytes.lineFeed)) := by
  constructor
  · rintro (⟨kind⟩ | ⟨kind, blank, feeds, first⟩)
    · exact .inl ⟨kind, rfl⟩
    · exact .inr ⟨kind, List.cons_ne_nil _ _, blank, feeds, fun h => congrArg some (first h)⟩
  · rintro (⟨kind, rfl⟩ | ⟨kind, hne, blank, feeds, first⟩)
    · exact .kept kind
    · obtain ⟨x, xs, rfl⟩ := List.exists_cons_of_ne_nil hne
      exact .laid kind blank feeds fun h => Option.some.inj (first h)

instance (line : Bool) (t : Token) (b : Bytes) : Decidable (Block line t b) :=
  have : Decidable (∀ x ∈ b, isBlank x = true) := List.decidableBAll _ b
  decidable_of_iff _ block_iff.symm

instance decidableRelaid : ∀ line ts bs, Decidable (Relaid line ts bs)
  | _, [], [] => isTrue .nil
  | _, _ :: _, [] => isFalse nofun
  | _, [], _ :: _ => isFalse nofun
  | line, t :: ts, b :: bs =>
    have := decidableRelaid t.isLineComment ts bs
    decidable_of_iff (Block line t b ∧ Relaid t.isLineComment ts bs)
      ⟨fun h => .cons h.1 h.2, fun | .cons block rest => ⟨block, rest⟩⟩

/-- Tokens in the places of their blocks, the first of them at position `pos`. -/
def settle : Nat → List Token → List Bytes → List Token
  | pos, t :: ts, b :: bs => { t with start := pos, bytes := b } :: settle (pos + b.length) ts bs
  | _, _, _ => []

/-- Whether the text `v'` may follow tokens in the place of `v`. -/
structure Behind (ts : List Token) (v v' : Bytes) : Prop where
  /-- The old text goes on with no token. -/
  before : Scan.Sealed v
  /-- The new text goes on with no token. -/
  after : Scan.Sealed v'
  /-- What nothing closes would go on. -/
  unclosed : ∀ t ∈ ts.getLast?, Scan.Unclosed t.error → v' = v
  /-- A comment to the end of the line would go on to a line break. -/
  line : ∀ t ∈ ts.getLast?, t.isLineComment = true → ∀ b ∈ v'.head?, b = Bytes.lineFeed
  /-- Blanks would go on with blanks. -/
  blank : ∀ t ∈ ts.getLast?, t.kind = .whitespace → ∀ b ∈ v'.head?, isBlank b = false

theorem Behind.tail {t : Token} {ts : List Token} {v v' : Bytes} (h : Behind (t :: ts) v v') :
    Behind ts v v' := by
  cases ts with
  | nil => exact ⟨h.before, h.after, nofun, nofun, nofun⟩
  | cons u ts =>
    have hlast : (t :: u :: ts).getLast? = (u :: ts).getLast? := List.getLast?_cons_cons
    exact ⟨h.before, h.after, hlast ▸ h.unclosed, hlast ▸ h.line, hlast ▸ h.blank⟩

theorem behind_nil (ts : List Token) : Behind ts [] [] :=
  ⟨Scan.sealed_nil, Scan.sealed_nil, fun _ _ _ => rfl, fun _ _ _ => nofun, fun _ _ _ => nofun⟩

/-! ### Reading the new text -/

theorem allFrom_eq_cons {pos : Nat} {bytes : Bytes} {t : Token} {ts : List Token}
    (h : allFrom pos 0 bytes = t :: ts) :
    t.bytes ≠ [] ∧ t.start = pos ∧ ∃ rest, bytes = t.bytes ++ rest ∧
      Scan.first bytes = ⟨t.kind, t.length, t.style, t.error⟩ ∧
      allFrom (pos + t.length) 0 rest = ts := by
  cases bytes with
  | nil => cases h
  | cons b rest =>
    have hlength := length_ofHead pos b rest
    have hpos := Scan.length_pos b rest
    have hle := Scan.length_le b rest
    rw [allFrom, List.cons.injEq] at h
    obtain ⟨rfl, rfl⟩ := h
    have hbytes : (ofHead pos (b :: rest)).bytes =
        (b :: rest).take (Scan.first (b :: rest)).length := rfl
    refine ⟨?_, rfl, (b :: rest).drop (Scan.first (b :: rest)).length, ?_, ?_, ?_⟩
    · rw [← List.length_pos_iff]
      rwa [← hlength] at hpos
    · rw [hbytes, List.take_append_drop]
    · rw [hlength]
      rfl
    · obtain ⟨n, hn⟩ := Nat.exists_eq_add_of_le' hpos
      rw [hlength, hn, Nat.add_sub_cancel, allFrom_drop rest _ n (by omega), List.drop_succ_cons,
        Nat.add_assoc, Nat.add_comm 1]

variable {line : Bool} {t : Token} {ts : List Token} {b : Bytes} {bs : List Bytes} {v v' : Bytes}

/-- The old and the new text agree up to where both are sealed. -/
theorem Relaid.exists_common (h : Relaid line ts bs) (hb : Behind ts v v') :
    ∀ {pos : Nat} {later : List Token}, allFrom pos 0 (ts.flatMap bytes ++ v) = ts ++ later →
      ∃ xs w w', ts.flatMap bytes ++ v = xs ++ w ∧ bs.flatten ++ v' = xs ++ w' ∧
        Scan.Sealed w ∧ Scan.Sealed w' := by
  induction h with
  | nil => intro pos later _; exact ⟨[], v, v', rfl, rfl, hb.before, hb.after⟩
  | @cons line t b ts bs block rest ih =>
    intro pos later hall
    obtain ⟨hne, -, rest', hrest, hfirst, htail⟩ := allFrom_eq_cons hall
    rw [List.flatMap_cons, List.append_assoc] at hrest ⊢
    cases block with
    | kept kind =>
      rw [← List.append_cancel_left hrest] at htail
      obtain ⟨xs, w, w', hold, hnew, hw, hw'⟩ := ih hb.tail htail
      refine ⟨t.bytes ++ xs, w, w', ?_, ?_, hw, hw'⟩
      · rw [hold, List.append_assoc]
      · rw [List.flatten_cons, List.append_assoc, hnew, List.append_assoc]
    | @laid b bs' kind blank feeds first =>
      obtain ⟨x, xs, hx⟩ := List.exists_cons_of_ne_nil hne
      refine ⟨[], _, _, rfl, rfl, ?_, ?_⟩
      · rw [List.flatMap_cons, List.append_assoc, hx, List.cons_append] at hfirst
        have hblank := (Scan.kind_first _ _).1 ((congrArg Scan.kind hfirst).trans kind)
        rw [hx]
        exact Scan.sealed_cons.2 (Scan.foreign_of_isBlank hblank)
      · exact Scan.sealed_cons.2 (Scan.foreign_of_isBlank (blank _ List.mem_cons_self))

/-- The new text begins with a blank if the old one does, and with a line break if one has to
come. -/
theorem Relaid.exists_head (h : Relaid line ts bs) {pos : Nat} {later : List Token}
    (hall : allFrom pos 0 (ts.flatMap bytes ++ v) = ts ++ later) (hne : ts ≠ []) :
    ∃ x xs x' xs', ts.flatMap bytes ++ v = x :: xs ∧ bs.flatten ++ v' = x' :: xs' ∧
      isBlank x' = isBlank x ∧ (line = true → isBlank x = true → x' = Bytes.lineFeed) := by
  cases h with
  | nil => exact absurd rfl hne
  | @cons _ t b ts bs block rest =>
    obtain ⟨hbytes, -, rest', hrest, hfirst, -⟩ := allFrom_eq_cons hall
    obtain ⟨x, xs, hx⟩ := List.exists_cons_of_ne_nil hbytes
    rw [hrest, hx, List.cons_append] at hfirst
    have hkind := (congrArg Scan.kind hfirst).symm ▸ Scan.kind_first x (xs ++ rest')
    rw [List.flatMap_cons, List.append_assoc, hx, List.flatten_cons, List.append_assoc]
    cases block with
    | kept kind =>
      have hblank : isBlank x = false := by
        rw [Bool.eq_false_iff]
        exact kind ∘ hkind.2
      exact ⟨x, _, x, _, rfl, by rw [hx]; rfl, rfl, fun _ h => by rw [hblank] at h; cases h⟩
    | @laid b bs' kind blank feeds first =>
      refine ⟨x, _, b, _, rfl, rfl, ?_, fun hline _ => first hline⟩
      rw [blank b List.mem_cons_self, hkind.1 kind]

theorem Relaid.append_eq_nil (h : Relaid line ts bs) {pos : Nat} {later : List Token}
    (hall : allFrom pos 0 (ts.flatMap bytes ++ v) = ts ++ later) (hnil : ts.flatMap bytes ++ v = [])
    (hend : ts = [] → v' = v) : bs.flatten ++ v' = [] := by
  cases hts : ts with
  | nil =>
    rw [hts] at h hnil
    cases h
    rw [hend hts]
    exact hnil
  | cons u us =>
    obtain ⟨x, xs, x', xs', hold, -⟩ := @Relaid.exists_head _ _ _ v v' h _ _ hall (by simp [hts])
    rw [hold] at hnil
    cases hnil

theorem Relaid.head_new (h : Relaid line ts bs) {pos : Nat} {later : List Token}
    (hall : allFrom pos 0 (ts.flatMap bytes ++ v) = ts ++ later) {P : UInt8 → Prop}
    (hnext : ∀ x x', isBlank x' = isBlank x →
      (line = true → isBlank x = true → x' = Bytes.lineFeed) →
        x ∈ (ts.flatMap bytes ++ v).head? → P x')
    (hend : ts = [] → ∀ b ∈ v'.head?, P b) : ∀ b ∈ (bs.flatten ++ v').head?, P b := by
  cases hts : ts with
  | nil =>
    rw [hts] at h
    cases h
    exact hend hts
  | cons u us =>
    obtain ⟨x, xs, x', xs', hold, hnew, hblank, hfeed⟩ :=
      @Relaid.exists_head _ _ _ v v' h _ _ hall (by simp [hts])
    intro b hb
    rw [hnew] at hb
    obtain rfl : x' = b := by simpa using hb
    exact hnext x x' hblank hfeed (by rw [hold]; rfl)

/-- A comment to the end of the line is one token before a line break. -/
theorem first_lineComment_congr {xs w w' : Bytes} (hxs : xs.head? = some 0x2F)
    (hrun : ((xs ++ w).takeWhile (· ≠ Bytes.lineFeed)).length = xs.length)
    (hw' : ∀ b ∈ w'.head?, b = Bytes.lineFeed) :
    Scan.first (0x2F :: xs ++ w') = Scan.first (0x2F :: xs ++ w) := by
  have hrun' : ((xs ++ w').takeWhile (· ≠ Bytes.lineFeed)).length = xs.length :=
    Scan.length_takeWhile_append.2
      ⟨(Scan.length_takeWhile_append.1 hrun).1, fun b hb => by simp [hw' b hb]⟩
  have hhead (w : Bytes) : (xs ++ w).head? = some 0x2F := by
    rw [List.head?_append, hxs]
    rfl
  rw [List.cons_append, List.cons_append, Scan.first_lineComment (hhead w),
    Scan.first_lineComment (hhead w')]
  simp only [Scan.lineComment, hrun, hrun']

theorem isLineComment_of_bytes {rest : Bytes} {xs : Bytes} (hx : t.bytes = 0x2F :: xs)
    (hxs : xs.head? = some 0x2F) (hkind : t.kind = (Scan.lineComment rest).kind) :
    t.isLineComment = true := by
  obtain ⟨ys, rfl⟩ := List.head?_eq_some_iff.1 hxs
  simp [isLineComment, hkind, hx, Scan.lineComment]

/-- A token that stands for itself is read before the new text as it is before the old one. -/
theorem first_eq_of_kept (hrelaid : Relaid t.isLineComment ts bs) (hb : Behind (t :: ts) v v')
    {pos : Nat} {later : List Token} (htail : allFrom pos 0 (ts.flatMap bytes ++ v) = ts ++ later)
    {x : UInt8} {xs : Bytes} (hx : t.bytes = x :: xs) (hblank : isBlank x = false)
    (hfirst : Scan.first (x :: (xs ++ (ts.flatMap bytes ++ v))) =
      ⟨t.kind, xs.length + 1, t.style, t.error⟩) :
    Scan.first (x :: xs ++ (bs.flatten ++ v')) =
      Scan.first (x :: xs ++ (ts.flatMap bytes ++ v)) := by
  by_cases hslashes : x = 0x2F ∧ (xs ++ (ts.flatMap bytes ++ v)).head? = some 0x2F
  · obtain ⟨rfl, hslash⟩ := hslashes
    rw [Scan.first_lineComment hslash] at hfirst
    have hrun : ((xs ++ (ts.flatMap bytes ++ v)).takeWhile (· ≠ Bytes.lineFeed)).length =
        xs.length := Nat.succ_inj.1 (congrArg Scan.length hfirst)
    have hout := (Scan.length_takeWhile_append.1 hrun).2
    -- The second slash is a part of the token, for the comment goes on behind it.
    have hxs : xs.head? = some 0x2F := by
      cases xs with
      | nil => exact absurd (hout _ hslash) (by decide)
      | cons y ys => exact hslash
    have hcomment := isLineComment_of_bytes hx hxs (congrArg Scan.kind hfirst).symm
    refine first_lineComment_congr hxs hrun (hrelaid.head_new htail ?_ ?_)
    · intro y y' _ hfeed hmem
      have hy : y = Bytes.lineFeed := by simpa using hout y hmem
      exact hfeed hcomment (by rw [hy]; rfl)
    · exact fun hts => hb.line t (by rw [hts]; rfl) hcomment
  · obtain ⟨ys, w, w', hold, hnew, hw, hw'⟩ := hrelaid.exists_common hb.tail htail
    have hzs (w : Bytes) : x :: xs ++ (ys ++ w) = x :: (xs ++ ys) ++ w := by simp
    rw [← List.cons_append] at hfirst
    rw [hnew, hold, hzs, hzs]
    rw [hold, hzs] at hfirst
    refine Scan.first_congr hw hw' hblank ?_ ?_ fun hopen => ?_
    · rw [Bool.eq_false_iff]
      intro h
      simp only [Bool.and_eq_true, beq_iff_eq] at h
      refine hslashes ⟨h.1, ?_⟩
      rw [hold, ← List.append_assoc, List.head?_append, h.2]
      rfl
    · rw [hfirst, List.length_append]
      exact Nat.succ_le_succ (Nat.le_add_right _ _)
    · have hlength : (Scan.first (x :: (xs ++ ys) ++ w)).length = (xs ++ ys ++ w).length + 1 :=
        Scan.length_of_unclosed hopen
      rw [hfirst] at hlength hopen
      have hnil : ys ++ w = [] := by
        rw [← List.length_eq_zero_iff]
        simp only [List.length_append] at hlength ⊢
        omega
      have hnil' := hrelaid.append_eq_nil htail (hold.trans hnil)
        fun hts => hb.unclosed t (by rw [hts]; rfl) hopen
      rw [(List.append_eq_nil_iff.1 hnil).2, (List.append_eq_nil_iff.1 (hnew.symm.trans hnil')).2]

theorem Block.first_eq (hblock : Block line t b) (hrelaid : Relaid t.isLineComment ts bs)
    (hb : Behind (t :: ts) v v') {pos : Nat} {later : List Token}
    (hall : allFrom pos 0 ((t :: ts).flatMap bytes ++ v) = t :: ts ++ later) :
    Scan.first (b ++ (bs.flatten ++ v')) = ⟨t.kind, b.length, t.style, t.error⟩ := by
  obtain ⟨hne, -, rest, hrest, hfirst, htail⟩ := allFrom_eq_cons hall
  rw [List.flatMap_cons, List.append_assoc] at hrest hfirst
  obtain rfl := (List.append_cancel_left hrest).symm
  obtain ⟨x, xs, hx⟩ := List.exists_cons_of_ne_nil hne
  have hlength : t.length = xs.length + 1 := by rw [length, hx]; rfl
  rw [hx, hlength, List.cons_append] at hfirst
  have hkind := Scan.kind_first x (xs ++ (ts.flatMap bytes ++ v))
  rw [hfirst] at hkind
  cases hblock with
  | @laid b bs' kind blank feeds first =>
    -- The old blanks end where the next token begins, and so do the new ones.
    have hxblank := hkind.1 kind
    rw [Scan.first, Scan.ofCons, if_pos hxblank, Scan.mk.injEq] at hfirst
    obtain ⟨-, hrun, hstyle, herror⟩ := hfirst
    rw [Nat.succ_inj, Scan.length_takeWhile_append] at hrun
    have hstop : ∀ b ∈ (bs.flatten ++ v').head?, isBlank b = false :=
      hrelaid.head_new htail (fun y y' hy _ hmem => hy.trans (hrun.2 y hmem))
        (fun hts => hb.blank t (by rw [hts]; rfl) kind)
    rw [Scan.first_blanks (blank b List.mem_cons_self)
      (fun y hy => blank y (List.mem_cons_of_mem b hy)) hstop, kind, ← hstyle, ← herror]
    rfl
  | kept kind =>
    have hblank : isBlank x = false := by
      rw [Bool.eq_false_iff]
      exact kind ∘ hkind.2
    rw [hx, first_eq_of_kept hrelaid hb htail hx hblank hfirst, List.cons_append, hfirst]
    rfl

/-- The tokens of the new text are those of the old one in their new places. -/
theorem allFrom_relaid (h : Relaid line ts bs) {pos : Nat} {later : List Token}
    (hb : Behind ts v v') (hall : allFrom pos 0 (ts.flatMap bytes ++ v) = ts ++ later) :
    ∀ pos', allFrom pos' 0 (bs.flatten ++ v') =
      settle pos' ts bs ++ allFrom (pos' + bs.flatten.length) 0 v' := by
  induction h generalizing pos with
  | nil => intro pos'; rfl
  | @cons line t b ts bs block rest ih =>
    intro pos'
    have hfirst := block.first_eq rest hb hall
    obtain ⟨hne, -, rest', hrest, -, htail⟩ := allFrom_eq_cons hall
    rw [List.flatMap_cons, List.append_assoc] at hrest
    rw [← List.append_cancel_left hrest] at htail
    have hbne : b ≠ [] := by
      cases block with
      | kept kind => exact hne
      | laid kind blank feeds first => exact List.cons_ne_nil _ _
    have happend := allFrom_append hbne (congrArg Scan.length hfirst) pos'
    rw [hfirst, ih hb.tail htail] at happend
    rw [List.flatten_cons, List.append_assoc, happend, settle, List.length_append, List.cons_append,
      Nat.add_assoc]

/-- Other blanks between the tokens of a text leave the tokens as they are. -/
theorem all_relaid {text : Bytes} (h : Relaid false (all text 0) bs) :
    all bs.flatten 0 = settle 0 (all text 0) bs := by
  have hall : allFrom 0 0 ((all text 0).flatMap bytes ++ []) = all text 0 ++ [] := by
    rw [flatMap_bytes_all, List.append_nil, List.append_nil, all, Nat.zero_min, List.drop_zero]
  have hrelaid := allFrom_relaid h (behind_nil _) hall 0
  rw [allFrom, List.append_nil, List.append_nil] at hrelaid
  rw [← hrelaid, all, Nat.zero_min, List.drop_zero]

theorem error_of_blanks {text : Bytes} (h : t ∈ all text 0) (hk : t.kind = .whitespace) :
    t.error = none := by
  obtain ⟨b, rest, -, ht⟩ := exists_of_mem_all h
  rw [ht] at hk ⊢
  have hblank : isBlank b = true := (Scan.kind_first b rest).1 hk
  simp [ofHead, Scan.place, Scan.first, Scan.ofCons, if_pos hblank]

theorem allFrom_shift (n : Nat) (text : Bytes) :
    ∀ pos k, allFrom (pos + n) k text = (allFrom pos k text).map (·.shift n) := by
  induction text with
  | nil => intro pos k; simp [allFrom]
  | cons b rest ih =>
    intro pos k
    have hnext : pos + n + 1 = pos + 1 + n := by omega
    cases k with
    | succ k => rw [allFrom, allFrom, hnext, ih]
    | zero =>
      rw [allFrom, allFrom, hnext, ih]
      rfl

end Token

end Metadoc
