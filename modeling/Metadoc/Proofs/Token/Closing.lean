import Metadoc.Proofs.Token.Quoting

/-!
# Where string literals end

Behind its opening delimiter a string literal is read item by item: a backslash and the byte after
it are one item, any other byte is one by itself.  The literal ends with the first delimiter that
begins where an item could begin.

* `Scan.Items` says that a string is made of items, `Scan.Closes` that a text begins with items and
  a delimiter behind them, and `Scan.Encloses` that there is a delimiter before them, too;
* `Scan.endsFirst_literalLength` : the scan ends behind the fewest items that are closed in this
  way, or with the text when there are none;
* `Token.readAt_quote` : so does the token, and its body is made of these items.
-/

namespace Metadoc

namespace Scan

/-- Whether a string is made of items: of pairs that begin with a backslash, and of single bytes
other than a backslash. -/
inductive Items : Bytes → Prop
  /-- No item. -/
  | nil : Items []
  /-- A backslash with the byte after it. -/
  | pair {b rest} (items : Items rest) : Items (0x5C :: b :: rest)
  /-- Another byte. -/
  | single {b rest} (plain : b ≠ 0x5C) (items : Items rest) : Items (b :: rest)

/-- Whether a text begins with the items `body` and the delimiter `d` behind them. -/
structure Closes (d text body : Bytes) : Prop where
  /-- The body is made of items. -/
  items : Items body
  /-- The delimiter stands behind it. -/
  begins : body ++ d <+: text

/-- Whether a text begins with the delimiter `d`, the items `body` and the delimiter again. -/
structure Encloses (d text body : Bytes) : Prop where
  /-- The body is made of items. -/
  items : Items body
  /-- It stands between delimiters. -/
  begins : d ++ body ++ d <+: text

/-- Whether the items `body` are the fewest that the delimiter `d` stands behind. -/
structure ClosesFirst (d text body : Bytes) : Prop extends Closes d text body where
  /-- There are no fewer items. -/
  least : ∀ body', Closes d text body' → body.length ≤ body'.length

/-- Whether a scan for the delimiter `d` that yields a length, and whether the delimiter has been
found, ends behind the fewest items that it stands behind, or with the text when there are none. -/
def EndsFirst (d text : Bytes) (r : Nat × Bool) : Prop :=
  (∃ body, ClosesFirst d text body ∧ r = (body.length + d.length, true)) ∨
    ((∀ body, ¬Closes d text body) ∧ r = (text.length, false))

section Delimiter

variable {q x y : UInt8} {d text body : Bytes}

theorem encloses_iff : Encloses d (d ++ text) body ↔ Closes d text body := by
  constructor
  · rintro ⟨items, begins⟩
    rw [List.append_assoc] at begins
    exact ⟨items, (List.prefix_append_right_inj d).1 begins⟩
  · rintro ⟨items, begins⟩
    refine ⟨items, ?_⟩
    rw [List.append_assoc]
    exact (List.prefix_append_right_inj d).2 begins

/-- Behind a backslash and a byte, a literal is closed as what follows them is. -/
theorem closes_pair (hq : q ≠ 0x5C) : Closes (q :: d) (0x5C :: y :: text) body ↔
    ∃ body', body = 0x5C :: y :: body' ∧ Closes (q :: d) text body' := by
  constructor
  · rintro ⟨items, begins⟩
    cases items with
    | nil => exact absurd (List.cons_prefix_cons.1 begins).1 hq
    | @pair b rest items =>
      obtain ⟨rfl, behind⟩ := List.cons_prefix_cons.1 (List.cons_prefix_cons.1 begins).2
      exact ⟨rest, rfl, items, behind⟩
    | single plain items => exact absurd (List.cons_prefix_cons.1 begins).1 plain
  · rintro ⟨body', rfl, items, begins⟩
    exact ⟨.pair items, List.cons_prefix_cons.2 ⟨rfl, List.cons_prefix_cons.2 ⟨rfl, begins⟩⟩⟩

theorem closes_single (hx : x ≠ 0x5C) (hd : ¬d <+: x :: text) : Closes d (x :: text) body ↔
    ∃ body', body = x :: body' ∧ Closes d text body' := by
  constructor
  · rintro ⟨items, begins⟩
    cases items with
    | nil => exact absurd begins hd
    | pair items => exact absurd (List.cons_prefix_cons.1 begins).1.symm hx
    | @single b rest plain items =>
      obtain ⟨rfl, behind⟩ := List.cons_prefix_cons.1 begins
      exact ⟨rest, rfl, items, behind⟩
  · rintro ⟨body', rfl, items, begins⟩
    exact ⟨.single hx items, List.cons_prefix_cons.2 ⟨rfl, begins⟩⟩

/-- An item in front of a text is one more in front of the fewest. -/
theorem EndsFirst.append {item : Bytes} {r : Nat × Bool} (h : EndsFirst d text r)
    (hcloses : ∀ body, Closes d (item ++ text) body ↔
      ∃ body', body = item ++ body' ∧ Closes d text body') :
    EndsFirst d (item ++ text) (r.1 + item.length, r.2) := by
  rcases h with ⟨body, hbody, rfl⟩ | ⟨hnone, rfl⟩
  · refine .inl ⟨item ++ body, ⟨(hcloses _).2 ⟨body, rfl, hbody.toCloses⟩, fun other h => ?_⟩, ?_⟩
    · obtain ⟨body', rfl, hbody'⟩ := (hcloses other).1 h
      have hle := hbody.least body' hbody'
      simp only [List.length_append]
      omega
    · simp only [List.length_append, Prod.mk.injEq, and_true]
      omega
  · refine .inr ⟨fun body h => ?_, ?_⟩
    · obtain ⟨body', -, hbody'⟩ := (hcloses body).1 h
      exact hnone body' hbody'
    · simp only [List.length_append, Prod.mk.injEq, and_true]
      omega

/-- The scan for the closing delimiter ends behind the fewest items, or with the text. -/
theorem endsFirst_literalLength (hq : q ≠ 0x5C) (text : Bytes) :
    EndsFirst (q :: d) text (literalLength (q :: d) text) := by
  -- One item is taken off in each round; the delimiter is looked for where the next one begins.
  fun_induction literalLength (q :: d) text with
  | case1 =>
    refine .inr ⟨fun body h => ?_, rfl⟩
    have hnil := List.prefix_nil.1 h.begins
    simp at hnil
  | case2 b hb =>
    obtain rfl : b = 0x5C := by simpa using hb
    refine .inr ⟨fun body h => ?_, rfl⟩
    have hlength := h.begins.length_le
    cases h.items with
    | nil => exact hq (List.cons_prefix_cons.1 h.begins).1
    | pair | single => simp at hlength
  | case3 b hb x rest r ih =>
    obtain rfl : b = 0x5C := by simpa using hb
    have hcloses (body : Bytes) : Closes (q :: d) ([0x5C, x] ++ rest) body ↔
        ∃ body', body = [0x5C, x] ++ body' ∧ Closes (q :: d) rest body' := closes_pair hq
    exact ih.append hcloses
  | case4 b rest hb hd =>
    have hbegins : q :: d <+: b :: rest := List.isPrefixOf_iff_prefix.1 hd
    exact .inl ⟨[], ⟨⟨.nil, hbegins⟩, fun _ _ => Nat.zero_le _⟩, by simp⟩
  | case5 b rest hb hd r ih =>
    have hx : b ≠ 0x5C := by simpa using hb
    have hbegins : ¬q :: d <+: b :: rest := fun h => hd (List.isPrefixOf_iff_prefix.2 h)
    have hcloses (body : Bytes) : Closes (q :: d) ([b] ++ rest) body ↔
        ∃ body', body = [b] ++ body' ∧ Closes (q :: d) rest body' := closes_single hx hbegins
    exact ih.append hcloses

end Delimiter

theorem openingStyle_eq (quote : Quote) (rest : Bytes) : openingStyle quote rest =
    ⟨quote, (List.replicate 3 quote.byte).isPrefixOf (quote.byte :: rest)⟩ := by
  simp [openingStyle, List.replicate_succ]

theorem delimiter_append (quote : Quote) (rest : Bytes) :
    let style := openingStyle quote rest
    quote.byte :: rest = style.delimiter ++ rest.drop (style.width - 1) := by
  intro style
  rw [delimiter_eq_cons, List.cons_append]
  refine congrArg (quote.byte :: ·) ?_
  cases htriplet : style.triplet with
  | true =>
    have hwidth : style.width = 3 := if_pos htriplet
    obtain ⟨after, rfl⟩ := List.isPrefixOf_iff_prefix.1 htriplet
    rw [hwidth]
    rfl
  | false =>
    have hwidth : style.width = 1 := if_neg (by simp [htriplet])
    rw [hwidth]
    rfl

theorem first_quote (quote : Quote) (rest : Bytes) :
    first (quote.byte :: rest) = literal quote rest := by
  refine Reads.eq_first (.literal ?_)
  cases quote <;> decide

end Scan

namespace Token

open Scan (Encloses)

theorem body_unclosed (style : StringStyle) (body : Bytes) :
    Token.body ⟨.string, 0, style.delimiter ++ body, some style, some .unterminatedString⟩ =
      body := by
  have hwidth : style.delimiter.length = style.width := List.length_replicate
  have hlength : (style.delimiter ++ body).length = style.width + body.length := by
    rw [List.length_append, hwidth]
  have hopening : min style.width (style.width + body.length) = style.width := by omega
  have hclosing : max (style.width + body.length - 0) style.width =
      style.width + body.length := by omega
  change Bytes.slice _ (min style.width (style.delimiter ++ body).length)
    (max ((style.delimiter ++ body).length - 0)
      (min style.width (style.delimiter ++ body).length)) = body
  rw [hlength, hopening, hclosing, Bytes.slice, Nat.add_sub_cancel_left, ← hwidth, List.drop_left,
    List.take_length]

/-- A text that begins with a quote is read as a string literal, delimited by three quotes if it
begins with three of them.  It ends with the delimiter behind the fewest items that are enclosed, and
its body is these items; when no items are enclosed, nothing closes it, and its body is everything
behind the opening delimiter. -/
theorem readAt_quote (quote : Quote) (rest : Bytes) :
    let text := quote.byte :: rest
    let style : StringStyle := ⟨quote, (List.replicate 3 quote.byte).isPrefixOf text⟩
    let token := readAt text 0
    ((∃ body, Encloses style.delimiter text body) →
      ∃ body, Encloses style.delimiter text body ∧
        (∀ body', Encloses style.delimiter text body' → body.length ≤ body'.length) ∧
        token = ⟨.string, 0, style.delimiter ++ body ++ style.delimiter, some style, none⟩ ∧
        token.body = body) ∧
    ((¬∃ body, Encloses style.delimiter text body) →
      token = ⟨.string, 0, text, some style, some .unterminatedString⟩ ∧
        token.body = text.drop style.width) := by
  intro text style token
  let after := rest.drop (style.width - 1)
  have hslash : quote.byte ≠ 0x5C := by cases quote <;> decide
  have hwidth : style.delimiter.length = style.width := List.length_replicate
  have hstyle : Scan.openingStyle quote rest = style := Scan.openingStyle_eq quote rest
  have htext : text = style.delimiter ++ after := by
    have happend := Scan.delimiter_append quote rest
    rwa [hstyle] at happend
  have hencloses (body : Bytes) : Encloses style.delimiter text body ↔
      Scan.Closes style.delimiter after body := by
    rw [htext]
    exact Scan.encloses_iff
  have htoken : token = (Scan.literal quote rest).place 0 text := by
    rw [← Scan.first_quote]
    rfl
  rw [Scan.literal, hstyle] at htoken
  have hscan := Scan.endsFirst_literalLength (d := List.replicate (style.width - 1) quote.byte)
    hslash after
  rw [← Scan.delimiter_eq_cons style] at hscan
  rcases hscan with ⟨body, hfirst, hlength⟩ | ⟨hnone, hlength⟩
  · have hbody := (hencloses body).2 hfirst.toCloses
    have hbytes : text.take (style.width + (body.length + style.delimiter.length)) =
        style.delimiter ++ body ++ style.delimiter := by
      rw [List.prefix_iff_eq_take.1 hbody.begins, List.length_append, List.length_append, hwidth,
        Nat.add_assoc]
    have hclosed : token =
        ⟨.string, 0, style.delimiter ++ body ++ style.delimiter, some style, none⟩ := by
      rw [htoken, hlength, Scan.place, hbytes]
      rfl
    refine ⟨fun _ => ⟨body, hbody, fun body' h => ?_, hclosed, ?_⟩, fun h => absurd ⟨body, hbody⟩ h⟩
    · exact hfirst.least body' ((hencloses body').1 h)
    · rw [hclosed]
      exact StringStyle.body_enclosed style body
  · have hbytes : text.take (style.width + after.length) = text := by
      refine List.take_of_length_le (Nat.le_of_eq ?_)
      rw [htext, List.length_append, hwidth]
    have hopen : token = ⟨.string, 0, text, some style, some .unterminatedString⟩ := by
      rw [htoken, hlength, Scan.place, hbytes]
      rfl
    constructor
    · rintro ⟨body, h⟩
      exact absurd ((hencloses body).1 h) (hnone body)
    · intro _
      refine ⟨hopen, ?_⟩
      rw [hopen, htext, body_unclosed, ← hwidth, List.drop_left]

/-- A quote behind a backslash does not close a literal. -/
example : (readAt [0x27, 0x5C, 0x27, 0x27, 0x61] 0).body = [0x5C, 0x27] := by decide

end Token

end Metadoc
