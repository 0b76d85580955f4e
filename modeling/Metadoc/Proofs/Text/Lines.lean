import Metadoc.Proofs.Text.Rendition
import Mathlib.Data.List.TakeWhile
import Mathlib.Order.Nat

/-!
# Lines of a document

Lines and columns are counted in what is shown for a document, and places are positions of the
document itself.  Line feeds are shown as they are, so both have the same lines.

* `Bytes.LineFrom` says where the line of a position begins, and `Source.CountsLines` what a line
  index tells about a text;
* `Source.locate?_eq` : the line of a place is one more than the number of line feeds before it in
  the document, and the column one more than the number of bytes since the last of them;
* `Source.lt_iff_before` : places come in the order of their lines and columns;
* `Source.locations_kept` puts this together with what is shown at each position.
-/

namespace Metadoc

/-! ### Where lines begin -/

/-- Whether the line of a position of a text begins at `start`: at the start of the text or behind a
line feed, and no line feed comes from there up to the position. -/
structure Bytes.LineFrom (text : Bytes) (start pos : Nat) : Prop where
  /-- It begins there or before. -/
  le : start ≤ pos
  /-- A line feed comes before it, unless it is the first line. -/
  opens : ∀ k, start = k + 1 → text[k]? = some lineFeed
  /-- No line feed is in between. -/
  unbroken : ∀ i, start ≤ i → i < pos → text[i]? ≠ some lineFeed

namespace Bytes

variable {text : Bytes} {start start' pos pos' : Nat}

theorem LineFrom.le_start (h : text.LineFrom start pos) (h' : text.LineFrom start' pos) :
    start' ≤ start := by
  cases start' with
  | zero => exact Nat.zero_le _
  | succ k =>
    refine Nat.le_of_not_lt fun hlt => ?_
    exact h.unbroken k (Nat.le_of_lt_succ hlt) h'.le (h'.opens k rfl)

theorem LineFrom.unique (h : text.LineFrom start pos) (h' : text.LineFrom start' pos) :
    start = start' := Nat.le_antisymm (h'.le_start h) (h.le_start h')

/-- What comes before a place is cut in two behind its last line feed. -/
theorem exists_lastLine (before : Bytes) :
    ∃ head last, before = head ++ last ∧ Source.lineStart before = head.length ∧
      lineFeed ∉ last ∧ ∀ b ∈ head.getLast?, b = lineFeed := by
  have hsplit := List.takeWhile_append_dropWhile
    (p := fun b => decide (b ≠ lineFeed)) (l := before.reverse)
  have hbefore : before = (before.reverse.dropWhile fun b => decide (b ≠ lineFeed)).reverse ++
      (before.reverse.takeWhile fun b => decide (b ≠ lineFeed)).reverse := by
    rw [← List.reverse_append, hsplit, List.reverse_reverse]
  refine ⟨_, _, hbefore, ?_, fun hmem => ?_, fun b hb => ?_⟩
  · have hlength := congrArg List.length hbefore
    rw [List.length_append, List.length_reverse, List.length_reverse] at hlength
    rw [Source.lineStart, List.length_reverse]
    omega
  · have hall := List.mem_takeWhile_imp (List.mem_reverse.1 hmem)
    simp at hall
  · rw [List.getLast?_reverse] at hb
    by_contra hne
    have hhead := List.head?_dropWhile_not (fun b => decide (b ≠ lineFeed)) before.reverse
    rw [Option.mem_def.1 hb] at hhead
    simp [hne] at hhead

theorem lineFrom_lineStart (h : pos ≤ text.length) :
    text.LineFrom (Source.lineStart (text.take pos)) pos := by
  obtain ⟨head, last, hsplit, hstart, hlast, hhead⟩ := exists_lastLine (text.take pos)
  have hlength : head.length + last.length = pos := by
    rw [← List.length_append, ← hsplit, List.length_take, Nat.min_eq_left h]
  have hget {i : Nat} (hi : i < pos) : text[i]? = (head ++ last)[i]? := by
    rw [← hsplit, List.getElem?_take_of_lt hi]
  rw [hstart]
  refine ⟨by omega, fun k hk => ?_, fun i hi hlt hfeed => hlast ?_⟩
  · rw [hget (by omega), List.getElem?_append_left (by omega)]
    have hgetLast : head.getLast? = head[k]? := by
      rw [List.getLast?_eq_getElem?, hk, Nat.add_sub_cancel]
    have hsome : head[k]? = some head[k] := List.getElem?_eq_getElem (by omega)
    rw [hsome, hhead head[k] (by rw [hgetLast, hsome]; rfl)]
  · rw [hget hlt, List.getElem?_append_right hi] at hfeed
    exact List.mem_of_getElem? hfeed

theorem LineFrom.extend (h : text.LineFrom start pos) (hle : pos ≤ pos')
    (hnone : ∀ i, pos ≤ i → i < pos' → text[i]? ≠ some lineFeed) : text.LineFrom start pos' := by
  refine ⟨h.le.trans hle, h.opens, fun i hi hlt => ?_⟩
  rcases Nat.lt_or_ge i pos with hbefore | hbehind
  · exact h.unbroken i hi hbefore
  · exact hnone i hbehind hlt

theorem lineFeeds_eq_countP (text : Bytes) :
    lineFeeds text = (text.map (· == lineFeed)).countP id := by
  rw [lineFeeds, List.count, List.countP_map]
  rfl

theorem lineFeeds_take_add (text : Bytes) (pos n : Nat) :
    lineFeeds (text.take (pos + n)) = lineFeeds (text.take pos) +
      lineFeeds ((text.drop pos).take n) := by
  rw [List.take_add, lineFeeds_append]

/-! ### The lines of what is shown -/

theorem lineFeeds_take_shown (text : Bytes) (pos : Nat) :
    lineFeeds ((Utf8.shown text).take pos) = lineFeeds (text.take pos) := by
  rw [lineFeeds_eq_countP, lineFeeds_eq_countP, List.map_take, List.map_take,
    Utf8.map_eq_lineFeed_shown]

theorem getElem?_shown_eq_lineFeed (text : Bytes) (pos : Nat) :
    (Utf8.shown text)[pos]? = some lineFeed ↔ text[pos]? = some lineFeed := by
  have hmarks := congrArg (·[pos]?) (Utf8.map_eq_lineFeed_shown text)
  simp only [List.getElem?_map] at hmarks
  have hiff (xs : Bytes) : xs[pos]? = some lineFeed ↔ xs[pos]?.map (· == lineFeed) = some true := by
    simp
  rw [hiff, hiff, hmarks]

theorem lineFrom_shown : LineFrom (Utf8.shown text) start pos ↔ text.LineFrom start pos := by
  constructor
  · rintro ⟨hle, hopens, hunbroken⟩
    exact ⟨hle, fun k hk => (getElem?_shown_eq_lineFeed text k).1 (hopens k hk),
      fun i hi hlt hfeed => hunbroken i hi hlt ((getElem?_shown_eq_lineFeed text i).2 hfeed)⟩
  · rintro ⟨hle, hopens, hunbroken⟩
    exact ⟨hle, fun k hk => (getElem?_shown_eq_lineFeed text k).2 (hopens k hk),
      fun i hi hlt hfeed => hunbroken i hi hlt ((getElem?_shown_eq_lineFeed text i).1 hfeed)⟩

theorem le_length_of_isBoundary (h : text.isBoundary pos = true) : pos ≤ text.length := by
  unfold isBoundary at h
  split at h
  · exact of_decide_eq_true h
  · rename_i b rest hdrop
    have hlength := congrArg List.length hdrop
    rw [List.length_drop, List.length_cons] at hlength
    omega

end Bytes

/-! ### Places -/

/-- Whether a place comes before another: on a line before, or further left on the same line. -/
def Location.Before (a b : Location) : Prop :=
  a.line < b.line ∨ a.line = b.line ∧ a.column < b.column

namespace Source

/-- Whether `lineCol` tells what a line index does: of a place between two characters of a
well-formed text, the number of line feeds before it, and the number of bytes since the last of
them. -/
def CountsLines (lineCol : Bytes → Nat → Nat × Nat) : Prop :=
  ∀ text pos, Utf8.isValid text = true → text.isBoundary pos = true →
    ∃ start, text.LineFrom start pos ∧
      lineCol text pos = (Bytes.lineFeeds (text.take pos), pos - start)

/-- The line and the column of a place, found anew in the bytes before it. -/
def lineColumn (text : Bytes) (pos : Nat) : Nat × Nat :=
  (Bytes.lineFeeds (text.take pos), pos - lineStart (text.take pos))

theorem countsLines_lineColumn : CountsLines lineColumn := fun _ _ _ hboundary =>
  ⟨_, Bytes.lineFrom_lineStart (Bytes.le_length_of_isBoundary hboundary), rfl⟩

variable (source : Source)

/-- Line and column of a position by an index of the text shown that counts them from zero. -/
def locateBy (lineCol : Bytes → Nat → Nat × Nat) (pos : Nat) : Location :=
  let place := lineCol source.shown (min pos source.length)
  ⟨place.1 + 1, place.2 + 1⟩

variable {source} {pos pos' : Nat} {place place' : Location}

theorem isValid_shown (source : Source) : Utf8.isValid source.shown = true := by
  obtain ⟨cs, hcs⟩ := Utf8.exists_shown_eq_encode source.bytes
  rw [shown, hcs]
  exact Utf8.isValid_encode cs

/-- The line of a place is counted by the line feeds before it in the document, and its column by
the bytes since the last of them. -/
theorem locate?_eq (hpos : pos ≤ source.length) (h : source.shown.isBoundary pos = true) :
    ∃ start, source.bytes.LineFrom start pos ∧
      source.locate? pos =
        some ⟨1 + Bytes.lineFeeds (source.bytes.take pos), 1 + (pos - start)⟩ := by
  have hlength : source.shown.length = source.length := Utf8.length_shown source.bytes
  have htake : (source.shown.take pos).length = pos := by
    rw [List.length_take, hlength, Nat.min_eq_left hpos]
  refine ⟨lineStart (source.shown.take pos),
    Bytes.lineFrom_shown.1 (Bytes.lineFrom_lineStart (hlength ▸ hpos)), ?_⟩
  simp only [locate?, Nat.min_eq_left hpos, if_pos h, locationAfter, htake, Nat.add_comm]
  rw [shown, Bytes.lineFeeds_take_shown]

/-- Any line index leads to the same place. -/
theorem locate?_eq_locateBy {lineCol : Bytes → Nat → Nat × Nat} (hindex : CountsLines lineCol)
    (hpos : pos ≤ source.length) (h : source.shown.isBoundary pos = true) :
    source.locate? pos = some (source.locateBy lineCol pos) := by
  obtain ⟨start, hline, hlocate⟩ := locate?_eq hpos h
  obtain ⟨start', hline', hcount⟩ := hindex source.shown pos (isValid_shown source) h
  obtain rfl := hline.unique (Bytes.lineFrom_shown.1 hline')
  rw [hlocate, locateBy, Nat.min_eq_left hpos, hcount, shown, Bytes.lineFeeds_take_shown]
  simp only [Nat.add_comm]

theorem exists_of_locate? (hpos : pos ≤ source.length) (h : source.locate? pos = some place) :
    ∃ start, source.bytes.LineFrom start pos ∧
      place = ⟨1 + Bytes.lineFeeds (source.bytes.take pos), 1 + (pos - start)⟩ := by
  have hboundary : source.shown.isBoundary pos = true := by
    simp only [locate?, Nat.min_eq_left hpos] at h
    split at h
    · assumption
    · cases h
  obtain ⟨start, hline, hlocate⟩ := locate?_eq hpos hboundary
  rw [h, Option.some.injEq] at hlocate
  exact ⟨start, hline, hlocate⟩

theorem before_of_lt (hpos' : pos' ≤ source.length) (h : source.locate? pos = some place)
    (h' : source.locate? pos' = some place') (hlt : pos < pos') : place.Before place' := by
  obtain ⟨start, hline, rfl⟩ := exists_of_locate? (hlt.le.trans hpos') h
  obtain ⟨start', hline', rfl⟩ := exists_of_locate? hpos' h'
  obtain ⟨n, rfl⟩ := Nat.exists_eq_add_of_le hlt.le
  have hfeeds := Bytes.lineFeeds_take_add source.bytes pos n
  rcases Nat.eq_zero_or_pos (Bytes.lineFeeds ((source.bytes.drop pos).take n)) with hnone | hsome
  · -- Both places are on one line, which begins in one place.
    have hunbroken : ∀ i, pos ≤ i → i < pos + n → source.bytes[i]? ≠ some Bytes.lineFeed := by
      intro i hi hlt hfeed
      refine List.count_eq_zero.1 hnone (List.mem_of_getElem? (i := i - pos) ?_)
      rw [List.getElem?_take_of_lt (by omega), List.getElem?_drop, Nat.add_sub_cancel' hi, hfeed]
    obtain rfl := (hline.extend hlt.le hunbroken).unique hline'
    have hle := hline.le
    refine .inr ⟨?_, ?_⟩ <;> dsimp only <;> omega
  · refine .inl ?_
    dsimp only
    omega

/-- Places come in the order of their lines and columns. -/
theorem lt_iff_before (hpos : pos ≤ source.length) (hpos' : pos' ≤ source.length)
    (h : source.locate? pos = some place) (h' : source.locate? pos' = some place') :
    pos < pos' ↔ place.Before place' := by
  refine ⟨before_of_lt hpos' h h', fun hbefore => ?_⟩
  by_contra hge
  rcases Nat.eq_or_lt_of_le (Nat.le_of_not_lt hge) with rfl | hlt
  · rw [h, Option.some.injEq] at h'
    subst h'
    rcases hbefore with hline | ⟨-, hcolumn⟩ <;> omega
  · rcases before_of_lt hpos h' h hlt with hline | ⟨hsame, hcolumn⟩ <;>
      rcases hbefore with hline' | ⟨hsame', hcolumn'⟩ <;> omega

/-- What is shown for a document has its places.  It is well-formed, as long as the document and the
same everywhere but in maximal invalid sequences, of which each byte is shown as a question mark;
showing it again changes nothing.  Each place between two of its characters has the line and the
column that its position in the document has, whatever line index finds them there, so no two places
have the same, and they come in order. -/
theorem locations_kept {lineCol : Bytes → Nat → Nat × Nat} (hindex : CountsLines lineCol)
    (source : Source) :
    Utf8.ofString source.text = source.shown ∧
    source.shown.length = source.bytes.length ∧
    (∀ pos, Utf8.WithinInvalid source.bytes pos → source.shown[pos]? = some 0x3F) ∧
    (∀ pos, ¬Utf8.WithinInvalid source.bytes pos → source.shown[pos]? = source.bytes[pos]?) ∧
    Utf8.shown source.shown = source.shown ∧
    (∀ pos ≤ source.length, source.shown.isBoundary pos = true →
      ∃ start, source.bytes.LineFrom start pos ∧
        source.locate? pos =
          some ⟨1 + Bytes.lineFeeds (source.bytes.take pos), 1 + (pos - start)⟩ ∧
        source.locate? pos = some (source.locateBy lineCol pos)) ∧
    ∀ pos ≤ source.length, ∀ pos' ≤ source.length, ∀ place place',
      source.locate? pos = some place → source.locate? pos' = some place' →
        (place = place' ↔ pos = pos') ∧ (place.Before place' ↔ pos < pos') := by
  refine ⟨Utf8.ofString_lossy_shown source.bytes, Utf8.length_shown source.bytes,
    fun pos => Utf8.getElem?_shown_of_withinInvalid,
    fun pos => Utf8.getElem?_shown_of_not_withinInvalid,
    Utf8.shown_of_isValid (isValid_shown source), fun pos hpos hboundary => ?_,
    fun pos hpos pos' hpos' place place' h h' => ?_⟩
  · obtain ⟨start, hline, hlocate⟩ := locate?_eq hpos hboundary
    exact ⟨start, hline, hlocate, locate?_eq_locateBy hindex hpos hboundary⟩
  · have hiff := lt_iff_before hpos hpos' h h'
    have hiff' := lt_iff_before hpos' hpos h' h
    refine ⟨⟨fun hsame => ?_, fun hsame => ?_⟩, hiff.symm⟩
    · subst hsame
      have hirrefl : ¬place.Before place := by
        rintro (hline | ⟨-, hcolumn⟩) <;> omega
      have hnot := mt hiff.1 hirrefl
      have hnot' := mt hiff'.1 hirrefl
      omega
    · subst hsame
      rwa [h, Option.some.injEq] at h'

/-- A cut character stands before a line feed, and a byte that begins none behind one. -/
theorem locations_kept_cut :
    let source : Source := ⟨"cut", [0xC3, 0xA9, 0x0A, 0xE2, 0x82, 0x0A, 0xFF, 0x78]⟩
    CountsLines lineColumn ∧
      source.shown = [0xC3, 0xA9, 0x0A, 0x3F, 0x3F, 0x0A, 0x3F, 0x78] ∧
      source.locate? 4 = some ⟨2, 2⟩ ∧ source.locate? 7 = some ⟨3, 2⟩ := by
  intro source
  obtain ⟨-, -, -, -, -, hplaces, -⟩ := locations_kept countsLines_lineColumn source
  obtain ⟨-, -, -, hinside⟩ := hplaces 4 (by decide) (by decide)
  obtain ⟨-, -, -, hbehind⟩ := hplaces 7 (by decide) (by decide)
  exact ⟨countsLines_lineColumn, by decide, hinside.trans (by decide), hbehind.trans (by decide)⟩

end Source

end Metadoc
