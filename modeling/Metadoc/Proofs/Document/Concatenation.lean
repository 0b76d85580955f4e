import Metadoc.Proofs.Document.Embedding
import Metadoc.Proofs.Document.Layout
import Mathlib.Tactic.SplitIfs

/-!
# One document behind another

Where a document without diagnostics ends, with no separator behind its last entry, another one may
begin behind a blank line.

* `State.like_behind` : behind the first document, the state looks like the one that the second is
  read from;
* `Parse.document_append` : the entries and diagnostics are those of both documents.
-/

namespace Metadoc

/-! ### The first word behind -/

theorem Word.head?_stages (ls : List Lexeme) : ∀ gap,
    (stages (splitAfter gap ls).1 (splitAfter gap ls).2).head?.map Prod.fst =
      ls.find? (!·.isTrivia) := by
  induction ls with
  | nil => exact fun gap => rfl
  | cons l ls ih =>
    intro gap
    rw [splitAfter]
    split
    · rename_i hl
      rw [ih, List.find?_cons_of_neg (by simp [hl])]
    · rename_i hl
      rw [List.find?_cons_of_pos (by simp [hl])]
      rfl

theorem Token.free_of_find? {ts : List Token}
    (h : ∀ t ∈ ts.find? (!·.isTrivia), t.symbol?.bind Separator.ofByte? = none) (n : Nat) :
    ∀ x ∈ (Word.stages (Word.split ((ts.map (·.shift n)).map alone)).1
      (Word.split ((ts.map (·.shift n)).map alone)).2).head?,
        x.1.symbol?.bind Separator.ofByte? = none := by
  intro x hx
  have hfind := Word.head?_stages ((ts.map (·.shift n)).map alone) []
  rw [← Word.split, Option.mem_def.1 hx, Option.map_some, List.find?_map, List.find?_map,
    eq_comm, Option.map_map, Option.map_eq_some_iff] at hfind
  obtain ⟨t, ht, hxt⟩ := hfind
  rw [← hxt]
  exact h t ht

/-! ### The state behind -/

/-- Behind blanks that leave a line empty, no comment is near enough to be that of the next
entry. -/
theorem Trivia.far_of_blanks {started : Bool} {t : Trivia} {l : Lexeme} (hk : l.kind = .whitespace)
    (h : 2 ≤ Bytes.lineFeeds l.bytes) : ∀ x ∈ (t.add started l).leading, 2 ≤ x.2 := by
  simp only [add, hk, Option.mem_def, Option.map_eq_some_iff]
  rintro x ⟨c, -, rfl⟩
  exact h.trans (Nat.le_add_left _ _)

namespace State

variable {ρ σ : Relocation} {e : Enclosure σ} {lead ls ls' : List Lexeme}
  {hfree : ∀ x ∈ (Word.stages (Word.split ls').1 (Word.split ls').2).head?,
    x.1.symbol?.bind Separator.ofByte? = none} {s t : State}

/-- Behind a text that an empty line follows, the state looks like one that no word is behind. -/
theorem like_behind (hlead : ∀ l ∈ lead, l.Blank) (hls : List.Forall₂ (Lexeme.Like ρ) ls ls')
    (hs : s.cursor.Before (lead ++ ls)) (hstarted : s.cursor.started = false)
    (hempty : 2 ≤ Bytes.lineFeeds e.stop.bytes) (ht : t.cursor.At (e.sequel ls' hfree))
    (hlength : t.cursor.length = ρ.place s.cursor.length) (hbooked : Booked ρ s t) :
    Like ρ none s t := by
  obtain ⟨hwords, htail⟩ := Word.splitAfter_like hls .nil
  have htrivia : ∀ l ∈ lead, l.isTrivia = true := fun l hl => (hlead l hl).isTrivia
  obtain ⟨hstages, hgap⟩ := Word.splitAfter_gap ls lead
  rw [← Word.split_trivia_append htrivia, ← hs.stages] at hstages
  rw [← Word.split_trivia_append htrivia, ← hs.gap] at hgap
  obtain ⟨own, hown, -⟩ := ht.gap
  refine ⟨?_, fun _ => hlength, fun _ => ?_, ?_, ?_, ?_, ?_, fun _ => hbooked,
    fun hi => absurd (.inl rfl) hi⟩
  · have hahead := @Word.ahead_stages ρ none _ _ [] _ _ hwords rfl
      (.of_like (Gap.like_of_forall₂ htail))
    rw [List.append_nil] at hahead
    rw [hstages, ht.stages]
    exact hahead
  · have hlead : (lead.foldl (Trivia.add false) {}).leading = none :=
      Trivia.leading_foldl_blanks (fun l hl => (hlead l hl).1) rfl
    have hfar := @Trivia.far_of_blanks t.cursor.started
      (own.foldl (Trivia.add t.cursor.started) {}) _ e.blank_stop.1 hempty
    rw [Cursor.trivia, Cursor.trivia, hstarted, hgap, hown, Trivia.ofGap, Trivia.ofGap,
      List.foldl_append, List.foldl_append]
    refine (Trivia.leads_foldl (Word.gapBefore_like hwords htail) ?_ fun _ => ?_).leadingText
    · rw [hlead]
      exact .inr ⟨fun x hx => (by cases hx), hfar⟩
    · rw [Trivia.newlines_add, if_pos e.blank_stop.1]
      omega
  all_goals
    intro h
    rw [hstarted] at h
    cases h

theorem booked_begin {source : Source} {base : State} (hlead : ∀ l ∈ lead, l.Blank)
    (hls : List.Forall₂ (Lexeme.Like ρ) ls ls')
    (hs : (begin source 0).cursor.Before (lead ++ ls))
    (hbase : Booked ρ { cursor := (begin source 0).cursor } base) :
    Booked ρ (begin source 0) ((e.sequel ls' hfree).lead.foldl reportTrivium base) := by
  obtain ⟨hwords, htail⟩ := Word.splitAfter_like hls .nil
  have hgap : (begin source 0).cursor.gap =
      lead ++ Word.gapBefore (Word.split ls).1 (Word.split ls).2 := by
    rw [hs.gap, Word.split_trivia_append fun l hl => (hlead l hl).isTrivia]
    exact (Word.splitAfter_gap ls lead).2
  have hstop : ∀ l ∈ [e.stop], l.error = none := List.forall_mem_singleton.2 e.blank_stop.2
  rw [begin_eq, hgap, List.foldl_append, foldl_reportTrivium_quiet fun l hl => (hlead l hl).2,
    Enclosure.sequel, ← List.singleton_append, List.foldl_append, foldl_reportTrivium_quiet hstop]
  exact hbase.foldl_reportTrivium (Gap.like_of_forall₂ (Word.gapBefore_like hwords htail))

/-- Whether the stray nodes and the reports have numbers that are handed out. -/
structure Numbered (s : State) : Prop where
  /-- The stray nodes do. -/
  strays : ∀ x ∈ s.strays, x.1 < s.count
  /-- So do the nodes that the reports are about. -/
  reports : ∀ x ∈ s.reports, x.node < s.count

theorem Numbered.foldl_reportTrivium {s : State} (h : s.Numbered) (gap : List Lexeme) :
    (gap.foldl reportTrivium s).Numbered := by
  induction gap generalizing s with
  | nil => exact h
  | cons l gap ih =>
    refine ih ?_
    cases he : l.error with
    | none => simpa only [reportTrivium, he] using h
    | some error =>
      simp only [reportTrivium, reportFault, he, alloc, report]
      refine ⟨?_, ?_⟩ <;> simp only [List.forall_mem_append, List.forall_mem_singleton]
      · exact ⟨fun x hx => Nat.lt_succ_of_lt (h.strays x hx), Nat.lt_succ_self _⟩
      · exact ⟨fun x hx => Nat.lt_succ_of_lt (h.reports x hx), Nat.lt_succ_self _⟩

theorem numbered_begin (source : Source) : (begin source 0).Numbered := by
  have hstart (c : Cursor) : Numbered { cursor := c } :=
    ⟨List.forall_mem_nil _, List.forall_mem_nil _⟩
  rw [begin_eq]
  exact (hstart _).foldl_reportTrivium _

end State

/-! ### Numbers -/

/-- The number of a node of a document behind another one that has handed out `m` numbers.  The
root, which has the number `k` in the document alone, is that of the other one. -/
def Relocation.renumber (k m i : Nat) : Nat :=
  if i < k then m + i else if i = k then 0 else m + (i - 1)

theorem Relocation.renumber_injective {k m : Nat} (hm : 0 < m) :
    Function.Injective (renumber k m) := by
  intro i j h
  unfold renumber at h
  split_ifs at h <;> omega

/-- Numbers that are handed out before the root follow those of the other document. -/
theorem State.Booked.renumber {n m : Nat} {s t : State} (hs : s.Numbered)
    (h : Booked (.shift n (m + ·)) s t) :
    Booked (.shift n (Relocation.renumber s.count m)) s.alloc.state t := by
  refine ⟨fun j => ?_, ?_, ?_⟩
  · have hcount : m + (s.count + j) = t.count + j := h.count j
    have hnumber : Relocation.renumber s.count m (s.count + 1 + j) = m + (s.count + 1 + j - 1) := by
      rw [Relocation.renumber, if_neg (by omega), if_neg (by omega)]
    exact hnumber.trans (by omega)
  · rw [h.strays]
    refine List.map_congr_left fun x hx => ?_
    simp only [Relocation.stray, Relocation.shift, Relocation.renumber, if_pos (hs.strays x hx)]
    rfl
  · rw [h.reports]
    refine List.map_congr_left fun x hx => ?_
    simp only [Relocation.report, Relocation.shift, Relocation.renumber, if_pos (hs.reports x hx)]
    rfl

/-! ### Both documents -/

namespace Relocation

mutual

theorem tree_shift_zero : ∀ t : Tree, (shift 0 id).tree t = t
  | .node i d ts cs => by
    rw [tree, trees_shift_zero ts, trees_shift_zero cs]
    rfl

theorem trees_shift_zero : ∀ ts : List Tree, (shift 0 id).trees ts = ts
  | [] => rfl
  | t :: ts => by rw [trees_cons, tree_shift_zero t, trees_shift_zero ts]

end

end Relocation

namespace Parse

open Grammar

/-- A text behind another one, with an empty line between them. -/
def behind (path : String) (a b : Bytes) : Source := ⟨path, a ++ Utf8.ofString "\n\n" ++ b⟩

/-- How the lexemes of a text `a` and those of a text `b` are found in both of them together. -/
structure Joint (path : String) (a b : Bytes) (e : Enclosure (.shift 0 id)) (lead : List Lexeme)
    (ts : List Token) : Prop where
  /-- The lexemes of the first text. -/
  front : Lexeme.all ⟨path, a⟩ 0 = e.inner
  /-- Those of the second one. -/
  back : Lexeme.all ⟨path, b⟩ 0 = lead ++ ts.map Token.alone
  /-- Those of both together. -/
  both : Lexeme.all (behind path a b) 0 =
    e.outer ((ts.map (·.shift (a.length + 2))).map Token.alone)
  /-- The second text begins with blanks. -/
  blank : ∀ l ∈ lead, l.Blank
  /-- A line between them is empty. -/
  empty : 2 ≤ Bytes.lineFeeds e.stop.bytes
  /-- The first word of the second text. -/
  first : (Token.all b 0).find? (!·.isTrivia) = ts.find? (!·.isTrivia)

theorem exists_joint (path : String) {a : Bytes} (h : ∀ t ∈ Token.all a 0, t.error = none)
    (b : Bytes) : ∃ e lead ts, Joint path a b e lead ts := by
  obtain ⟨w, b', rfl, hw, hhead⟩ := Token.exists_blanks b
  have hy : ∀ c ∈ [Bytes.lineFeed, Bytes.lineFeed] ++ w, Ascii.isBlank c = true :=
    List.forall_mem_append.2 ⟨List.forall_mem_cons.2 ⟨rfl, List.forall_mem_singleton.2 rfl⟩, hw⟩
  obtain ⟨e, he⟩ := Enclosure.exists_fits h (x := []) nofun hy rfl hhead 0 id
  refine ⟨e, (Token.allFrom 0 0 w).map Token.alone, Token.allFrom w.length 0 b', ?_, ?_, ?_,
    Enclosure.blank_of_blanks hw 0, ?_, ?_⟩
  · rw [he.inner, Lexeme.all_eq_map_alone]
  · rw [Lexeme.all_eq_map_alone, Token.all_zero, Token.allFrom_append_of_blanks hw hhead,
      List.map_append, Nat.zero_add]
  · have hbytes : a ++ Utf8.ofString "\n\n" ++ (w ++ b') =
        [] ++ (a ++ ([Bytes.lineFeed, Bytes.lineFeed] ++ w ++ b')) := by
      rw [show Utf8.ofString "\n\n" = [Bytes.lineFeed, Bytes.lineFeed] by decide]
      simp only [List.append_assoc, List.nil_append]
    have hstart : 0 + ([] : Bytes).length + a.length +
        ([Bytes.lineFeed, Bytes.lineFeed] ++ w).length = w.length + (a.length + 2) := by
      simp only [List.length_append, List.length_cons, List.length_nil]
      omega
    rw [Lexeme.all_eq_map_alone, behind, hbytes, Token.all_zero, he.outer, hstart,
      Token.allFrom_shift]
  · refine le_trans ?_ he.behind
    rw [Bytes.lineFeeds_append]
    exact Nat.le_add_right 2 _
  · have hblank : (Token.allFrom 0 0 w).find? (!·.isTrivia) = none := by
      rw [List.find?_eq_none]
      intro t ht
      rw [Token.isTrivia, (Token.kind_of_blanks hw 0 t ht).1]
      decide
    rw [Token.all_zero, Token.allFrom_append_of_blanks hw hhead, List.find?_append, hblank,
      Option.none_or, Nat.zero_add]

/-- What is read when the entries of the first document have been read to `front` and those of the
second to `back`: these entries, with the books of the second document. -/
def ReadsBoth (n : Nat) (path : String) (a b : Bytes) (front back : Read (List Tree)) : Prop :=
  ∃ number : Nat → Nat, Function.Injective number ∧ ∃ t,
    Run n (.entries .top none) (State.begin (behind path a b) 0).alloc.state
      (Read.many ⟨front.value ++ (Relocation.shift (a.length + 2) number).trees back.value, t⟩) ∧
    State.Booked (.shift (a.length + 2) number) back.state t

namespace Joint

variable {path : String} {a b : Bytes} {e : Enclosure (.shift 0 id)} {lead : List Lexeme}
  {ts : List Token} (h : Joint path a b e lead ts)
  (hfirst : ∀ t ∈ ts.find? (!·.isTrivia), t.symbol?.bind Separator.ofByte? = none)

theorem before_back (h : Joint path a b e lead ts) :
    (State.begin ⟨path, b⟩ 0).cursor.Before (lead ++ ts.map Token.alone) :=
  h.back ▸ State.before_begin ⟨path, b⟩

/-- Where the first document ends, the state looks like the one before the second. -/
theorem like_back (h : Joint path a b e lead ts) {number : Nat → Nat} {s t : State}
    (hs : s.cursor = (State.begin ⟨path, b⟩ 0).cursor)
    (ht : t.cursor.At (e.sequel _ (Token.free_of_find? hfirst (a.length + 2))))
    (hlength : t.cursor.length = (behind path a b).length)
    (hbooked : State.Booked (.shift (a.length + 2) number) s t) :
    State.Like (.shift (a.length + 2) number) none s t := by
  refine State.like_behind h.blank (Lexeme.like_shift _ number ts) (hs ▸ h.before_back) ?_ h.empty
    ht ?_ hbooked
  · rw [hs, State.started_begin]
  · have hplace : (a ++ Utf8.ofString "\n\n" ++ b).length = b.length + (a.length + 2) := by
      rw [show Utf8.ofString "\n\n" = [Bytes.lineFeed, Bytes.lineFeed] by decide]
      simp only [List.length_append, List.length_cons, List.length_nil]
      omega
    rw [hlength, hs, State.length_begin]
    exact hplace

theorem before_front (h : Joint path a b e lead ts) :
    (State.begin ⟨path, a⟩ 0).cursor.Before e.inner :=
  h.front ▸ State.before_begin ⟨path, a⟩

theorem before_both (h : Joint path a b e lead ts) : (State.begin (behind path a b) 0).cursor.Before
    (e.outer ((ts.map (·.shift (a.length + 2))).map Token.alone)) :=
  h.both ▸ State.before_begin (behind path a b)

theorem readsBoth_of_atEnd (h : Joint path a b e lead ts)
    (hfirst : ∀ t ∈ ts.find? (!·.isTrivia), t.symbol?.bind Separator.ofByte? = none)
    (hend : (State.begin ⟨path, a⟩ 0).cursor.atEnd = true) {n : Nat} {front back : Read (List Tree)}
    (hfront : Run n (.entries .top none) (State.begin ⟨path, a⟩ 0).alloc.state front.many)
    (hback : Run n (.entries .top none) (State.begin ⟨path, b⟩ 0).alloc.state back.many) :
    ReadsBoth n path a b front back := by
  have hat : (State.begin (behind path a b) 0).cursor.At
      (e.sequel _ (Token.free_of_find? hfirst (a.length + 2))) :=
    Enclosure.at_of_atEnd h.before_front hend h.before_both
  have hbooked : State.Booked (.shift (a.length + 2) id) (State.begin ⟨path, b⟩ 0)
      (State.begin (behind path a b) 0) := by
    obtain ⟨own, hgap, hown⟩ := hat.gap
    have hbase (c c' : Cursor) : State.Booked (.shift (a.length + 2) id) { cursor := c }
        { cursor := c' } := ⟨fun j => rfl, rfl, rfl⟩
    rw [State.begin_eq (behind path a b), hgap, List.foldl_append,
      State.foldl_reportTrivium_quiet hown]
    exact State.booked_begin h.blank (Lexeme.like_shift _ id ts) h.before_back (hbase _ _)
  have hlike := (h.like_back hfirst rfl hat (State.length_begin _) hbooked).alloc (.inl rfl)
  obtain ⟨t, hrun, ht⟩ := hback.transport hlike (.inl rfl) (.inl rfl)
  obtain rfl := hfront.eq_nil_of_entriesEnd (.inl hend)
  exact ⟨id, Function.injective_id, t, hrun, ht.booked (.inl rfl)⟩

theorem readsBoth_of_words (h : Joint path a b e lead ts)
    (hfirst : ∀ t ∈ ts.find? (!·.isTrivia), t.symbol?.bind Separator.ofByte? = none)
    (hend : (State.begin ⟨path, a⟩ 0).cursor.atEnd = false) {n : Nat}
    {front back : Read (List Tree)}
    (hfront : Run n (.entries .top none) (State.begin ⟨path, a⟩ 0).alloc.state front.many)
    (hback : Run n (.entries .top none) (State.begin ⟨path, b⟩ 0).alloc.state back.many)
    (hq : front.state.reports = []) (hstrays : front.state.strays = [])
    (hsep : Tree.separatorBehind none front.value = none) :
    ReadsBoth n path a b front back := by
  have hstart : State.Booked (.shift 0 id) (State.begin ⟨path, a⟩ 0)
      (State.begin (behind path a b) 0) := by
    have hbase (c c' : Cursor) : State.Booked (.shift 0 id) { cursor := c } { cursor := c' } :=
      ⟨fun j => rfl, rfl, rfl⟩
    have hquiet : State.SameBooks { cursor := (State.begin ⟨path, a⟩ 0).cursor }
        (State.begin ⟨path, a⟩ 0) :=
      State.sameBooks_begin fun l hl => e.quiet_inner l (h.before_front.mem_of_mem_gap hl)
    exact (hbase _ _).congr hquiet
      (State.sameBooks_begin (Enclosure.quiet_gap h.before_front hend h.before_both))
  have hlike : State.Like _ (some (e.sequel _ (Token.free_of_find? hfirst (a.length + 2)))) _ _ :=
    e.like h.before_front h.before_both hend (State.started_begin _)
      (fun hnot => absurd hnot (by rw [State.started_begin]; nofun)) hstart
  have hctx : Context.top ≠ .line := by decide
  obtain ⟨t, base, hat, hbase, hbooks, hmore⟩ :=
    e.exists_run hctx (hlike.alloc (.inr hend)) hend hfront hq
  rw [hsep, Relocation.trees_shift_zero] at hmore
  -- The numbers of the second document follow those of the first.
  have hcount : base.count = front.state.count := (hbase.count 0).symm
  have hfirst' : State.Booked (.shift (a.length + 2) (base.count + ·))
      { cursor := (State.begin ⟨path, b⟩ 0).cursor } base := by
    refine ⟨fun j => congrArg (base.count + ·) (Nat.zero_add j), ?_, ?_⟩
    · rw [hbase.strays, hstrays]
      rfl
    · rw [hbase.reports, hq]
      rfl
  have hbooked := (State.booked_begin h.blank (Lexeme.like_shift _ _ ts) h.before_back
    hfirst').congr (.refl _) hbooks
  have hbooked' := hbooked.renumber (State.numbered_begin _)
  have hlength : t.cursor.length = (behind path a b).length := by
    have hrest := run_entries n .top t
    rw [← hrest.reaches.length, ← State.length_begin]
    exact (hmore _ hrest).reaches.length
  have hlike' := h.like_back hfirst (s := (State.begin ⟨path, b⟩ 0).alloc.state) rfl hat hlength
    hbooked'
  obtain ⟨t', hrun, ht'⟩ := hback.transport hlike' (.inl rfl) (.inl rfl)
  have hpos : 0 < base.count := by
    rw [hcount]
    exact Nat.lt_of_lt_of_le (Nat.succ_pos _) hfront.grows.count
  exact ⟨_, Relocation.renumber_injective hpos, t', hmore ⟨_, t'⟩ hrun, ht'.booked (.inl rfl)⟩

end Joint

/-- What follows a document without diagnostics, behind an empty line and with no separator between
them, is read as it is alone, further on in the text and with other node numbers. -/
theorem document_append (path : String) (a b : Bytes)
    (hq : (document ⟨path, a⟩).diagnostics = [])
    (hlast : ∀ t ∈ (document ⟨path, a⟩).entries.getLast?, t.data.facets.followedBy = none)
    (hfirst : ∀ t ∈ (Token.all b 0).find? (!·.isTrivia),
      t.symbol?.bind Separator.ofByte? = none) :
    ∃ number : Nat → Nat, Function.Injective number ∧
      let ρ := Relocation.shift (a.length + 2) number
      let both := document (behind path a b)
      both.entries = (document ⟨path, a⟩).entries ++ ρ.trees (document ⟨path, b⟩).entries ∧
        both.strays = (document ⟨path, b⟩).strays.map ρ.stray ∧
        both.diagnostics = (document ⟨path, b⟩).diagnostics.map ρ.diagnostic := by
  have htokens : ∀ t ∈ Token.all a 0, t.error = none := error_of_quiet hq
  obtain ⟨e, lead, ts, hj⟩ := exists_joint path htokens b
  rw [hj.first] at hfirst
  have hstrays : (document ⟨path, a⟩).strays = [] := by
    have hle := length_strays_le ⟨path, a⟩
    rw [List.map_eq_nil_iff.1 hq] at hle
    exact List.length_eq_zero_iff.1 (Nat.le_zero.1 hle)
  have hentries (source : Source) : ∃ r : Read (List Tree),
      Run maxDepth (.entries .top none) (State.begin source 0).alloc.state r.many :=
    ⟨_, run_entries maxDepth .top _⟩
  obtain ⟨front, hfront⟩ := hentries ⟨path, a⟩
  obtain ⟨back, hback⟩ := hentries ⟨path, b⟩
  rw [document_of_run hfront] at hq hstrays hlast ⊢
  rw [document_of_run hback]
  have hreads : ReadsBoth maxDepth path a b front back := by
    cases hend : (State.begin ⟨path, a⟩ 0).cursor.atEnd with
    | true => exact hj.readsBoth_of_atEnd hfirst hend hfront hback
    | false =>
      refine hj.readsBoth_of_words hfirst hend hfront hback (List.map_eq_nil_iff.1 hq) hstrays ?_
      have hlast' : ∀ t ∈ front.value.getLast?, t.data.facets.followedBy = none := hlast
      cases ht : front.value.getLast? with
      | none => rw [Tree.separatorBehind, ht]; rfl
      | some t => rw [Tree.separatorBehind, ht]; exact hlast' t ht
  obtain ⟨number, hinjective, t, hrun, hbooked⟩ := hreads
  refine ⟨number, hinjective, ?_⟩
  rw [document_of_run hrun]
  refine ⟨rfl, hbooked.strays, ?_⟩
  simp only [diagnostics, ofState, hbooked.reports, List.map_map]
  rfl

/-- A comment at the end of the first text, and a second one with faults before and behind its
first word. -/
theorem document_append_faulty :
    let a := Utf8.ofString "a: b // c\n"
    let b := Utf8.ofString "\x01 // d\ne) 'f"
    (document ⟨"d", a⟩).diagnostics = [] ∧
      (∀ t ∈ (document ⟨"d", a⟩).entries.getLast?, t.data.facets.followedBy = none) ∧
      (∀ t ∈ (Token.all b 0).find? (!·.isTrivia), t.symbol?.bind Separator.ofByte? = none) ∧
      ∃ number : Nat → Nat, Function.Injective number ∧
        let ρ := Relocation.shift (a.length + 2) number
        let both := document (behind "d" a b)
        both.entries = (document ⟨"d", a⟩).entries ++ ρ.trees (document ⟨"d", b⟩).entries ∧
          both.strays = (document ⟨"d", b⟩).strays.map ρ.stray ∧
          both.diagnostics = (document ⟨"d", b⟩).diagnostics.map ρ.diagnostic :=
  ⟨by decide +kernel, by decide +kernel, by decide +kernel,
    document_append _ _ _ (by decide +kernel) (by decide +kernel) (by decide +kernel)⟩

end Parse

end Metadoc
