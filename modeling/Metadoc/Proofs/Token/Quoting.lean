import Metadoc.Token.Literal
import Metadoc.Proofs.Document.Outline
import Metadoc.Proofs.Text.Boundaries
import Metadoc.Proofs.Token.Boundary
import Metadoc.Proofs.Token.Reads

/-!
# Texts written as string literals

A text is written as a string literal by doubling its backslashes and putting the delimiter on both
sides.

* `StringStyle.quoted` writes a text as a literal of a style, and `StringStyle.Fits` says which
  texts do not end the literal before its end;
* `Scan.literalLength_escape` : the scan for the closing delimiter goes to the end of such a text;
* `Literal.decode_escape` : resolving the escapes yields the text again;
* `StringStyle.all_quoted` : what is written is one token, without fault.
-/

namespace Metadoc

/-! ### Characters and their bytes -/

namespace Utf8

variable {b : UInt8} {c : Char}

/-- A byte of ASCII is written for no other character than its own. -/
theorem not_mem_encodeChar (hb : b < 0x80) (hc : c ≠ Char.ofNat b.toNat) :
    b ∉ String.utf8EncodeChar c := by
  obtain ⟨b', ts, hencode, hpiece⟩ := piece_encodeChar c []
  intro hmem
  have htail : b ∉ ts := by
    intro hts
    have htail := isTail_of_mem_tail_encodeChar (c := c) (t := b) (by rwa [hencode])
    simp only [isTail, Bool.and_eq_true, decide_eq_true_eq] at htail
    exact absurd hb (UInt8.not_lt.2 htail.1)
  rw [hencode, List.mem_cons, or_iff_left htail] at hmem
  subst hmem
  rw [piece, if_pos hb] at hpiece
  exact hc (Piece.char.inj hpiece).symm

end Utf8

/-! ### Writing -/

/-- The character of a quote. -/
def Quote.char (q : Quote) : Char := Char.ofNat q.byte.toNat

/-- A character as it is written between delimiters: a backslash is doubled. -/
def Literal.escapeChar (c : Char) : List Char := if c = '\\' then ['\\', '\\'] else [c]

/-- A text as it is written between delimiters. -/
def Literal.escape (cs : List Char) : List Char := cs.flatMap escapeChar

namespace StringStyle

variable (style : StringStyle)

/-- The delimiter in characters. -/
def mark : List Char := List.replicate style.width style.quote.char

/-- A text written as a string literal. -/
def quoted (s : String) : String :=
  String.ofList (style.mark ++ Literal.escape s.toList ++ style.mark)

/-- Whether the literal of a text ends with its closing delimiter and not before: between single
quotes the text holds no such quote, between three of them it does not hold three in a row and does
not end with one. -/
def Fits (cs : List Char) : Prop :=
  if style.triplet then
    ¬List.replicate 3 style.quote.char <:+: cs ∧ cs.getLast? ≠ some style.quote.char
  else style.quote.char ∉ cs

instance (cs : List Char) : Decidable (style.Fits cs) :=
  inferInstanceAs (Decidable (if style.triplet then
    ¬List.replicate 3 style.quote.char <:+: cs ∧ cs.getLast? ≠ some style.quote.char
  else style.quote.char ∉ cs))

variable {style} {c : Char} {cs : List Char}

theorem Fits.tail (h : style.Fits (c :: cs)) : style.Fits cs := by
  unfold Fits at h ⊢
  split
  · rename_i htriplet
    rw [if_pos htriplet] at h
    refine ⟨fun hin => h.1 (hin.trans (List.suffix_cons c cs).isInfix), fun hlast => h.2 ?_⟩
    rw [List.getLast?_cons, hlast]
    rfl
  · rename_i htriplet
    rw [if_neg htriplet] at h
    exact fun hmem => h (List.mem_cons_of_mem c hmem)

end StringStyle

/-! ### The end of a literal -/

namespace Scan

open Literal (escape escapeChar)
open Utf8 (encode)

variable {d xs : Bytes} {q : UInt8} {style : StringStyle} {c : Char} {cs : List Char}

theorem literalLength_slash (d : Bytes) (x : UInt8) (rest : Bytes) :
    literalLength d (0x5C :: x :: rest) =
      ((literalLength d rest).1 + 2, (literalLength d rest).2) := by
  rw [literalLength.eq_def]
  rfl

theorem literalLength_step {x : UInt8} {rest : Bytes} (hx : x ≠ 0x5C)
    (hd : d.isPrefixOf (x :: rest) = false) :
    literalLength d (x :: rest) = ((literalLength d rest).1 + 1, (literalLength d rest).2) := by
  rw [literalLength.eq_def]
  dsimp only
  rw [if_neg (by simpa using hx), hd, if_neg Bool.false_ne_true]

theorem literalLength_delimiter {x : UInt8} (hx : x ≠ 0x5C) (rest : Bytes) :
    literalLength (x :: rest) (x :: rest) = ((x :: rest).length, true) := by
  have hprefix : (x :: rest).isPrefixOf (x :: rest) = true :=
    List.isPrefixOf_iff_prefix.2 List.prefix_rfl
  rw [literalLength.eq_def]
  dsimp only
  rw [if_neg (by simpa using hx), if_pos hprefix]

theorem literalLength_plain (xs rest : Bytes) (hxs : ∀ x ∈ xs, x ≠ 0x5C ∧ x ≠ q) :
    literalLength (q :: d) (xs ++ rest) =
      ((literalLength (q :: d) rest).1 + xs.length, (literalLength (q :: d) rest).2) := by
  induction xs with
  | nil => rfl
  | cons x xs ih =>
    obtain ⟨hslash, hquote⟩ := hxs x List.mem_cons_self
    have hprefix : (q :: d).isPrefixOf (x :: (xs ++ rest)) = false := by
      simp [List.isPrefixOf, hquote.symm]
    rw [List.cons_append, literalLength_step hslash hprefix,
      ih fun y hy => hxs y (List.mem_cons_of_mem x hy), List.length_cons, Nat.add_assoc]

theorem encode_escape_cons (c : Char) (cs : List Char) :
    encode (escape (c :: cs)) = encode (escapeChar c) ++ encode (escape cs) :=
  Utf8.encode_append (escapeChar c) (escape cs)

theorem not_mem_escapeChar (quote : Quote) (hc : c ≠ quote.char) :
    quote.byte ∉ encode (escapeChar c) := by
  have hascii : quote.byte < 0x80 := by cases quote <;> decide
  unfold escapeChar
  split
  · cases quote <;> decide
  · rw [encode, List.flatMap_singleton]
    exact Utf8.not_mem_encodeChar hascii hc

theorem encode_escapeChar_quote (quote : Quote) :
    encode (escapeChar quote.char) = [quote.byte] := by
  cases quote <;> decide

theorem encode_escapeChar_ne_nil (c : Char) : encode (escapeChar c) ≠ [] := by
  unfold escapeChar
  split
  · decide
  · rw [encode, List.flatMap_singleton, ← List.length_pos_iff, String.length_utf8EncodeChar]
    exact c.utf8Size_pos

/-- Where a written text begins with a quote, the text does. -/
theorem exists_of_encode_escape {quote : Quote} {rest ys : Bytes} (hne : cs ≠ [])
    (h : encode (escape cs) ++ rest = quote.byte :: ys) :
    ∃ cs', cs = quote.char :: cs' ∧ encode (escape cs') ++ rest = ys := by
  obtain ⟨c, cs', rfl⟩ := List.exists_cons_of_ne_nil hne
  rw [encode_escape_cons, List.append_assoc] at h
  by_cases hc : c = quote.char
  · rw [hc, encode_escapeChar_quote] at h
    exact ⟨cs', by rw [hc], (List.cons.inj h).2⟩
  · obtain ⟨b, bs, hb⟩ := List.exists_cons_of_ne_nil (encode_escapeChar_ne_nil c)
    have hnot := not_mem_escapeChar quote hc
    rw [hb] at h hnot
    exact absurd (List.cons.inj h).1 fun heq => hnot (heq ▸ List.mem_cons_self)

/-- A quote inside a text that fits does not begin the closing delimiter. -/
theorem isPrefixOf_of_fits (h : style.Fits (style.quote.char :: cs)) :
    style.delimiter.isPrefixOf (style.quote.byte :: (encode (escape cs) ++ style.delimiter)) =
      false := by
  unfold StringStyle.Fits at h
  split at h
  · rename_i htriplet
    obtain ⟨hthree, hlast⟩ := h
    have hdelimiter : style.delimiter = List.replicate 3 style.quote.byte := by
      rw [StringStyle.delimiter, StringStyle.width, if_pos htriplet]
    refine Bool.eq_false_iff.2 fun hprefix => ?_
    obtain ⟨ys, hys⟩ := List.isPrefixOf_iff_prefix.1 hprefix
    rw [hdelimiter] at hys
    have hrest := (List.cons.inj hys).2.symm
    -- The text would go on with two more quotes, or end before.
    have hne : cs ≠ [] := by
      rintro rfl
      exact hlast rfl
    obtain ⟨cs', rfl, hrest'⟩ := exists_of_encode_escape hne hrest
    have hne' : cs' ≠ [] := by
      rintro rfl
      exact hlast rfl
    obtain ⟨cs'', rfl, -⟩ := exists_of_encode_escape hne' hrest'
    exact hthree ⟨[], cs'', rfl⟩
  · exact absurd List.mem_cons_self h

theorem delimiter_eq_cons (style : StringStyle) : style.delimiter =
    style.quote.byte :: List.replicate (style.width - 1) style.quote.byte := by
  rw [← List.replicate_succ, Nat.sub_add_cancel (width_pos style)]
  rfl

/-- Between its delimiters, a text that fits is scanned to its end. -/
theorem literalLength_escape (h : style.Fits cs) :
    literalLength style.delimiter (encode (escape cs) ++ style.delimiter) =
      ((encode (escape cs)).length + style.delimiter.length, true) := by
  have hslash : style.quote.byte ≠ 0x5C := by cases style.quote <;> decide
  induction cs with
  | nil =>
    have hend := literalLength_delimiter hslash (List.replicate (style.width - 1) style.quote.byte)
    rw [← delimiter_eq_cons] at hend
    rw [show encode (escape []) = [] from rfl, List.nil_append, hend, List.length_nil, Nat.zero_add]
  | cons c cs ih =>
    have hrest := ih h.tail
    rw [encode_escape_cons, List.append_assoc, List.length_append]
    by_cases hback : c = '\\'
    · have hpair : encode (escapeChar '\\') = [0x5C, 0x5C] := by decide
      rw [hback, hpair, List.cons_append, List.cons_append, List.nil_append, literalLength_slash,
        hrest]
      simp only [List.length_cons, List.length_nil, Prod.mk.injEq, and_true]
      omega
    by_cases hquote : c = style.quote.char
    · rw [hquote] at h
      rw [hquote, encode_escapeChar_quote, List.singleton_append,
        literalLength_step hslash (isPrefixOf_of_fits h), hrest]
      simp only [List.length_singleton, Prod.mk.injEq, and_true]
      omega
    · have hplain : ∀ x ∈ encode (escapeChar c), x ≠ 0x5C ∧ x ≠ style.quote.byte := by
        refine fun x hx => ⟨?_, ?_⟩
        · rintro rfl
          rw [escapeChar, if_neg hback, encode, List.flatMap_singleton] at hx
          exact Utf8.not_mem_encodeChar (by decide) hback hx
        · rintro rfl
          exact not_mem_escapeChar style.quote hquote hx
      rw [delimiter_eq_cons] at hrest ⊢
      rw [literalLength_plain _ _ hplain, hrest]
      simp only [Prod.mk.injEq, and_true]
      omega

/-- Between its delimiters, a text that fits does not change how the literal is opened. -/
theorem openingStyle_escape (h : style.Fits cs) :
    openingStyle style.quote
      (List.replicate (style.width - 1) style.quote.byte ++
        (encode (escape cs) ++ style.delimiter)) = style := by
  obtain ⟨quote, triplet⟩ := style
  cases triplet with
  | true =>
    have hprefix : [quote.byte, quote.byte].isPrefixOf
        (List.replicate 2 quote.byte ++
          (encode (escape cs) ++ StringStyle.delimiter ⟨quote, true⟩)) = true :=
      List.isPrefixOf_iff_prefix.2 (List.prefix_append _ _)
    exact congrArg (StringStyle.mk quote) hprefix
  | false =>
    have hmark : quote.char ∉ cs := h
    refine congrArg (StringStyle.mk quote) (Bool.eq_false_iff.2 fun hprefix => ?_)
    obtain ⟨ys, hys⟩ := List.isPrefixOf_iff_prefix.1 hprefix
    by_cases hne : cs = []
    · subst hne
      cases (List.cons.inj hys).2
    · obtain ⟨cs', rfl, -⟩ := exists_of_encode_escape hne hys.symm
      exact hmark List.mem_cons_self

end Scan

/-! ### What a literal says -/

namespace Literal

open Utf8 (encode)

theorem unescape_escape (cs : List Char) : unescape (escape cs) = cs := by
  induction cs with
  | nil => rfl
  | cons c cs ih =>
    have hcons : escape (c :: cs) = escapeChar c ++ escape cs := rfl
    rw [hcons, escapeChar]
    by_cases hc : c = '\\'
    · have hresolve : resolve '\\' = ['\\'] := by decide
      rw [if_pos hc, List.cons_append, List.singleton_append, unescape, if_pos rfl, hresolve, ih,
        hc]
      rfl
    · rw [if_neg hc, List.singleton_append, unescape.eq_def]
      dsimp only
      rw [if_neg hc, ih]

theorem decode_escape (cs : List Char) : decode (encode (escape cs)) = String.ofList cs := by
  rw [decode, Utf8.lossyChars_encode, unescape_escape]

end Literal

namespace StringStyle

open Utf8 (encode)
open Literal (escape)

variable {style : StringStyle} {s : String}

theorem encode_mark (style : StringStyle) : encode style.mark = style.delimiter := by
  obtain ⟨quote, triplet⟩ := style
  cases quote <;> cases triplet <;> decide

theorem ofString_quoted (style : StringStyle) (s : String) :
    Utf8.ofString (style.quoted s) =
      style.delimiter ++ encode (escape s.toList) ++ style.delimiter := by
  rw [Utf8.ofString, quoted, String.toList_ofList, Utf8.encode_append, Utf8.encode_append,
    encode_mark]

theorem first_quoted (h : style.Fits s.toList) :
    Scan.first (Utf8.ofString (style.quoted s)) =
      ⟨.string, (Utf8.ofString (style.quoted s)).length, some style, none⟩ := by
  -- Behind its first quote, the text goes on with the rest of the delimiter.
  let body := encode (escape s.toList) ++ style.delimiter
  let rest := List.replicate (style.width - 1) style.quote.byte ++ body
  have htext : style.delimiter ++ body = style.quote.byte :: rest := by
    rw [Scan.delimiter_eq_cons style]
    rfl
  have hread : Scan.first (style.quote.byte :: rest) = Scan.literal style.quote rest := by
    refine Scan.Reads.eq_first (.literal ?_)
    cases style.quote <;> decide
  have hdrop : rest.drop (style.width - 1) = body := List.drop_left' List.length_replicate
  have hopens : Scan.openingStyle style.quote rest = style := Scan.openingStyle_escape h
  have hlength : Scan.literalLength style.delimiter body =
      ((encode (escape s.toList)).length + style.delimiter.length, true) :=
    Scan.literalLength_escape h
  have hwidth : style.delimiter.length = style.width := List.length_replicate
  rw [ofString_quoted, List.append_assoc]
  change Scan.first (style.delimiter ++ body) = _
  rw [htext, hread, Scan.literal]
  simp only [hopens, hdrop, hlength, ← htext, List.length_append, hwidth, if_true, body]

/-- The token of a literal. -/
def token (style : StringStyle) (s : String) : Token :=
  ⟨.string, 0, Utf8.ofString (style.quoted s), some style, none⟩

/-- A literal is one token by itself. -/
theorem all_quoted (h : style.Fits s.toList) :
    Token.all (Utf8.ofString (style.quoted s)) 0 = [style.token s] := by
  have hfirst := first_quoted h
  have hne : Utf8.ofString (style.quoted s) ≠ [] := by
    rw [ofString_quoted, List.append_assoc, Scan.delimiter_eq_cons]
    exact List.cons_ne_nil _ _
  have hlength : (Scan.first (Utf8.ofString (style.quoted s) ++ [])).length =
      (Utf8.ofString (style.quoted s)).length := by
    rw [List.append_nil]
    exact congrArg Scan.length hfirst
  have htokens := Token.allFrom_append hne hlength 0
  rw [List.append_nil, hfirst] at htokens
  rw [Token.all, Nat.zero_min, List.drop_zero, htokens]
  rfl

/-- A literal as the text of a label. -/
def literal (style : StringStyle) (s : String) (h : style.Fits s.toList) : LabelText where
  bytes := Utf8.ofString (style.quoted s)
  token := style.token s
  alone := all_quoted h
  isLabel := rfl
  error := rfl
  valid := Utf8.isValid_ofString _

theorem body_enclosed (style : StringStyle) (body : Bytes) :
    Token.body ⟨.string, 0, style.delimiter ++ body ++ style.delimiter, some style, none⟩ =
      body := by
  have hwidth : style.delimiter.length = style.width := List.length_replicate
  have hlength : (style.delimiter ++ body ++ style.delimiter).length =
      style.width + body.length + style.width := by
    rw [List.length_append, List.length_append, hwidth]
  have hopening : min style.width (style.width + body.length + style.width) = style.width := by
    omega
  have hclosing : max (style.width + body.length + style.width - style.width) style.width =
      style.width + body.length := by omega
  change Bytes.slice _ (min style.width (style.delimiter ++ body ++ style.delimiter).length)
    (max ((style.delimiter ++ body ++ style.delimiter).length - style.width)
      (min style.width (style.delimiter ++ body ++ style.delimiter).length)) = body
  rw [hlength, hopening, hclosing, Bytes.slice, List.append_assoc, Nat.add_sub_cancel_left,
    ← hwidth, List.drop_left, List.take_left]

theorem body_token (style : StringStyle) (s : String) :
    (style.token s).body = encode (escape s.toList) := by
  rw [token, ofString_quoted]
  exact body_enclosed style _

theorem label_literal (h : style.Fits s.toList) :
    (style.literal s h).label =
      ⟨.string style, s, style.quoted s, Utf8.ofString (style.quoted s)⟩ := by
  have hstring : Literal.decode (style.token s).body = s := by
    rw [body_token, Literal.decode_escape, String.ofList_toList]
  have hraw : Utf8.lossy (Utf8.ofString (style.quoted s)) = style.quoted s := Utf8.lossy_ofString _
  rw [LabelText.label, Lexeme.label]
  change Label.mk (.string style) (Literal.decode (style.token s).body)
    (Utf8.lossy (Utf8.ofString (style.quoted s))) _ = _
  rw [hstring, hraw]
  rfl

end StringStyle

end Metadoc
