import Metadoc.Proofs.Document.Completeness
import Metadoc.Proofs.Expr.Exactness
import Metadoc.Proofs.Expr.RoundTrip
import Metadoc.Proofs.Token.Maximal

/-!
# Atoms read from documents, and atoms by themselves

An atom that is read from a document is a number or a name as its token is.  An atom by itself is
told by its first character.

* `Scan.isDigit_of_numeric`, `Scan.classes_of_identifier` : what the token at the head of a text
  says about the first character;
* `Expr.ofDocument?` is the expression that the nodes of a document mean;
* `AtomText.exists_ofDocument?` : a text that is one name or number is read as the atom of it;
* `AtomText.evaluateInt_parsed` : that atom has the value of the text by itself, unless the
  text begins with a numeral beyond ASCII.
-/

namespace Metadoc

/-! ### The first character of a text -/

namespace Utf8

variable {b : UInt8} {rest : Bytes} {c : Char}

/-- A character of ASCII is the byte that it begins with, any other one begins beyond ASCII. -/
theorem first_of_piece (h : piece b rest = .char c) :
    b.toNat = c.toNat ∧ c.toNat < 0x80 ∨ 0x80 ≤ b.toNat ∧ 0x80 ≤ c.toNat := by
  by_cases hb : b.toNat < 0x80
  · rw [piece, if_pos (UInt8.lt_iff_toNat_lt.2 hb), Piece.char.injEq] at h
    have hc : c.toNat = b.toNat := by
      rw [← h]
      exact toNat_ofNat (.inl (by omega))
    omega
  · obtain ⟨rest', hencode⟩ := encodeChar_of_piece h
    refine .inr ⟨by omega, Nat.le_of_not_lt fun hc => hb ?_⟩
    -- If the character were of ASCII, so would be its byte.
    have hbyte : (UInt8.ofNat c.toNat).toNat = c.toNat := toNat_ofNat_byte (by omega)
    have hone := encodeChar_scalar_one (b := UInt8.ofNat c.toNat) (by rw [hbyte]; exact hc)
    rw [hbyte, Char.ofNat_toNat] at hone
    rw [hone, List.singleton_append, List.cons.injEq] at hencode
    rw [hencode.1, hbyte]
    exact hc

theorem exists_encode_cons (c : Char) (cs : List Char) :
    ∃ b rest, encode (c :: cs) = b :: rest ∧ piece b rest = .char c := by
  obtain ⟨b, ts, hencode, hpiece⟩ := piece_encodeChar c (encode cs)
  refine ⟨b, ts ++ encode cs, ?_, hpiece⟩
  rw [encode, List.flatMap_cons, hencode]
  rfl

end Utf8

theorem CharClass.isAlphabetic_of_ascii {c : Char}
    (h : 0x41 ≤ c.toNat ∧ c.toNat ≤ 0x5A ∨ 0x61 ≤ c.toNat ∧ c.toNat ≤ 0x7A) :
    isAlphabetic c = true := by
  rw [isAlphabetic, inRanges, List.any_eq_true]
  rcases h with h | h
  · exact ⟨(0x41, 0x5A), List.mem_cons_self, by simpa using h⟩
  · exact ⟨(0x61, 0x7A), List.mem_cons_of_mem _ List.mem_cons_self, by simpa using h⟩

theorem Ascii.isDigit_iff {b : UInt8} : isDigit b = true ↔ 0x30 ≤ b.toNat ∧ b.toNat ≤ 0x39 := by
  simp [isDigit, UInt8.le_iff_toNat_le]

namespace Scan

open Ascii

variable {c : Char} {cs : List Char}

theorem isDigit_of_numeric (h : (first (Utf8.encode (c :: cs))).kind = .numeric) :
    '0' ≤ c ∧ c ≤ '9' := by
  obtain ⟨b, rest, hencode, hpiece⟩ := Utf8.exists_encode_cons c cs
  have hdigit := Ascii.isDigit_iff.1 (isDigit_of_kind (hencode ▸ h))
  have hc := Utf8.first_of_piece hpiece
  change 0x30 ≤ c.toNat ∧ c.toNat ≤ 0x39
  omega

/-- A name begins with an underscore or a letter, or with a numeral beyond ASCII. -/
theorem classes_of_identifier (h : (first (Utf8.encode (c :: cs))).kind = .identifier) :
    ¬('0' ≤ c ∧ c ≤ '9') ∧ (c = '_' ∨ CharClass.isAlphabetic c = true ∨
      0x80 ≤ c.toNat ∧ CharClass.isAlphanumeric c = true) := by
  obtain ⟨b, rest, hencode, hpiece⟩ := Utf8.exists_encode_cons c cs
  rw [hencode] at h
  have hreads := reads_first b rest
  generalize first (b :: rest) = scan at h hreads
  have hc := Utf8.first_of_piece hpiece
  cases hreads with
  | name bare digit pos =>
    rcases nameLength_pos_iff.1 pos with hword | ⟨hbeyond, c', hc', halnum⟩
    · have hletter : isLetter b = true := by simpa [isWord, digit] using hword
      simp only [isLetter, Bool.or_eq_true, Bool.and_eq_true, decide_eq_true_eq, beq_iff_eq,
        UInt8.le_iff_toNat_le, UInt8.reduceToNat, ← UInt8.toNat_inj] at hletter
      refine ⟨fun hdigit => ?_, ?_⟩
      · change 0x30 ≤ c.toNat ∧ c.toNat ≤ 0x39 at hdigit
        omega
      by_cases hscore : b.toNat = 0x5F
      · exact .inl (Char.toNat_inj.1 (show c.toNat = 0x5F by omega))
      · exact .inr (.inl (CharClass.isAlphabetic_of_ascii (by omega)))
    · have heq : c' = c := Utf8.Piece.char.inj ((piece_of_character hc').symm.trans hpiece)
      have hb : 0x80 ≤ b.toNat := by
        simpa [isAscii, UInt8.lt_iff_toNat_lt] using hbeyond
      have hbig : 0x80 ≤ c.toNat := by omega
      refine ⟨fun hdigit => ?_, .inr (.inr ⟨hbig, heq ▸ halnum⟩)⟩
      change 0x30 ≤ c.toNat ∧ c.toNat ≤ 0x39 at hdigit
      omega
  | _ => cases h

end Scan

/-! ### Atoms -/

/-- The expression that the nodes of a document mean. -/
def Expr.ofDocument? (source : Source) : Option Expr := do
  let root ← (Parse.document source).root
  match root.children with
  | [] => none
  | first :: rest => (ExprParse.read .expression first rest).root

/-- Whether a text begins with a numeral beyond ASCII that is no letter, such as a superscript. -/
def BeginsWithNumeral (text : String) : Prop :=
  ∃ c ∈ text.toList.head?, 0x80 ≤ c.toNat ∧ CharClass.isAlphanumeric c = true ∧
    CharClass.isAlphabetic c = false

theorem Parse.document_label (path : String) (l : LabelText) :
    (document ⟨path, l.bytes⟩).root.map Tree.unplaced =
      some (.node 0 (.plain .file path) [] [.ofLabel l]) := by
  have hbytes : Outline.render [.leaf [] l none] = l.bytes := by
    simp [Outline.render, Outline.Entry.render, Outline.renderTags, Outline.renderMembers,
      Outline.followerBytes]
  rw [← hbytes, ← Outline.flatMap_pieces]
  refine (document_flatMap path (Outline.apart_pieces _).separate fun s hs => ?_).2
  rw [← List.append_nil (Outline.pieces _)] at hs
  exact Grammar.readsMembers _ (Nat.zero_le _) .top none s false [] (by decide) hs (.document .top)

namespace AtomText

variable (a : AtomText)

theorem exists_toList_eq_cons : ∃ c cs, a.text.toList = c :: cs := by
  refine List.exists_cons_of_ne_nil fun hnil => a.label.bytes_ne_nil ?_
  change Utf8.encode a.text.toList = []
  rw [hnil]
  rfl

theorem literal_eq :
    a.token.kind = .identifier ∧ a.label.label.literal = .identifier ∨
      a.token.kind = .numeric ∧ a.label.label.literal = .numeric := by
  rcases a.kind with h | h
  · exact .inl ⟨h, by simp [LabelText.label, Lexeme.label, label, a.plain.1, h]⟩
  · exact .inr ⟨h, by simp [LabelText.label, Lexeme.label, label, a.plain.1, h]⟩

/-- A text that is one name or number is read as one node, which means the atom of it. -/
theorem exists_ofDocument? (path : String) :
    ∃ id, Expr.ofDocument? ⟨path, Utf8.ofString a.text⟩ =
      some (.atomOf a.text ⟨id, some a.label.label.literal⟩) := by
  obtain ⟨root, hroot, hunplaced⟩ :=
    Option.map_eq_some_iff.1 (Parse.document_label path a.label)
  change (Parse.document ⟨path, Utf8.ofString a.text⟩).root = some root at hroot
  obtain ⟨id, data, tags, children⟩ := root
  rw [Tree.unplaced, Tree.node.injEq] at hunplaced
  obtain ⟨t, rfl, ht⟩ := Tree.exists_of_unplacedAll_singleton hunplaced.2.2.2
  have hlabel := Tree.isLabel_of_unplaced ht
  have hmeans : ExprGrammar.MeansBy ExprGrammar.maxDepth [t]
      (.atomOf t.data.string ⟨t.id, t.data.facets.literal⟩) .expression :=
    .atom hlabel.kind hlabel.leaf hlabel.ofNode?_atom hlabel.unlabeledSet?
  refine ⟨t.id, ?_⟩
  rw [Expr.ofDocument?, hroot, ← a.string_label, ← hlabel.string, ← hlabel.literal]
  exact (ExprParse.read_of_means hmeans).2

theorem kind_first_encode : (Scan.first (Utf8.encode a.text.toList)).kind = a.token.kind :=
  congrArg Scan.kind a.label.first_eq

/-- An atom by itself is a number or a name as its token is, unless it begins with a numeral beyond
ASCII: then it is neither, although its token is a name. -/
theorem classify_eq (id : Nat) :
    (BeginsWithNumeral a.text ∧ a.token.kind = .identifier ∧
        Atom.classify a.text none = .other a.text) ∨
      (¬BeginsWithNumeral a.text ∧
        Atom.classify a.text none =
          Atom.classify a.text (some ⟨id, some a.label.label.literal⟩)) := by
  obtain ⟨c, cs, htext⟩ := a.exists_toList_eq_cons
  have hkind := a.kind_first_encode
  rw [htext] at hkind
  have hbegins : BeginsWithNumeral a.text ↔ 0x80 ≤ c.toNat ∧
      CharClass.isAlphanumeric c = true ∧ CharClass.isAlphabetic c = false := by
    simp [BeginsWithNumeral, htext]
  rcases a.literal_eq with ⟨hname, hliteral⟩ | ⟨hnumber, hliteral⟩
  · obtain ⟨hdigit, hclass⟩ := Scan.classes_of_identifier (hkind.trans hname)
    by_cases hnumeral : BeginsWithNumeral a.text
    · have hscore : c ≠ '_' := by
        rintro rfl
        exact absurd (hbegins.1 hnumeral).1 (by decide)
      refine .inl ⟨hnumeral, hname, ?_⟩
      simp [Atom.classify, htext, hdigit, hscore, (hbegins.1 hnumeral).2.2]
    · have hword : c = '_' ∨ CharClass.isAlphabetic c = true := by
        by_contra hno
        rw [not_or, Bool.not_eq_true] at hno
        rcases hclass with h | h | h
        · exact hno.1 h
        · rw [hno.2] at h
          cases h
        · exact hnumeral (hbegins.2 ⟨h.1, h.2, hno.2⟩)
      refine .inr ⟨hnumeral, ?_⟩
      simp [Atom.classify, htext, hdigit, hword, hliteral]
  · have hdigit := Scan.isDigit_of_numeric (hkind.trans hnumber)
    have hsmall : c.toNat ≤ 0x39 := hdigit.2
    refine .inr ⟨fun hnumeral => ?_, ?_⟩
    · have := (hbegins.1 hnumeral).1
      omega
    · simp [Atom.classify, htext, hdigit, hliteral]

/-- The atom that a text is read as, a single name or number, has the value that the text has as an
atom by itself if and only if the text does not begin with a numeral beyond ASCII.  If it does, it
is looked up as a name when it was read from a document, and is no number otherwise. -/
theorem evaluateInt_parsed (path : String) (constants : OrderedMap Key.hash Int64) :
    ∃ e, Expr.ofDocument? ⟨path, Utf8.ofString a.text⟩ = some e ∧
      (e.evaluateInt constants = (Expr.atom a.text).evaluateInt constants ↔
        ¬BeginsWithNumeral a.text) ∧
      (BeginsWithNumeral a.text → e.evaluateInt constants = constant constants a.text ∧
        (Expr.atom a.text).evaluateInt constants = .error (.notNumeric a.text)) := by
  obtain ⟨id, he⟩ := a.exists_ofDocument? path
  refine ⟨_, he, ?_⟩
  rw [Expr.atomOf, Expr.atom, Expr.evaluateInt_atom, Expr.evaluateInt_atom]
  rcases a.classify_eq id with ⟨hnumeral, hname, hother⟩ | ⟨hnumeral, halike⟩
  · have hliteral : a.label.label.literal = .identifier := by
      rcases a.literal_eq with ⟨-, h⟩ | ⟨h, -⟩
      · exact h
      · rw [hname] at h
        cases h
    have hvalue : constant constants a.text ≠ .error (.notNumeric a.text) := by
      rw [constant]
      cases constants.get? (.ofText a.text) <;> simp
    have hparsed : Atom.classify a.text (some ⟨id, some a.label.label.literal⟩) =
        .name a.text := by
      rw [hliteral]
      rfl
    rw [hparsed, hother]
    exact ⟨⟨fun h => absurd h hvalue, fun h => absurd hnumeral h⟩, fun _ => ⟨rfl, rfl⟩⟩
  · rw [halike]
    exact ⟨iff_of_true rfl hnumeral, fun h => absurd h hnumeral⟩

/-- The superscript two, which is one name by itself. -/
def superscript : AtomText :=
  ⟨"\u00B2", ⟨.identifier, 0, [0xC2, 0xB2], none, none⟩, by decide +kernel, .inl rfl⟩

/-- The superscript two has the value of its name when it was read from a document, but is no number
when it is an atom by itself. -/
theorem evaluateInt_superscript :
    let constants : OrderedMap Key.hash Int64 := .ofList [(.ofText "\u00B2", 7)]
    (Expr.ofDocument? ⟨"d", Utf8.ofString superscript.text⟩).map (·.evaluateInt constants) =
        some (.ok 7) ∧
      (Expr.atom superscript.text).evaluateInt constants = .error (.notNumeric "\u00B2") := by
  intro constants
  obtain ⟨id, he⟩ := superscript.exists_ofDocument? "d"
  rw [he, Expr.atom, Expr.evaluateInt_atom, Option.map_some, Expr.atomOf, Expr.evaluateInt_atom]
  have hvalue : constant constants "\u00B2" = .ok 7 := by decide +kernel
  exact ⟨congrArg some hvalue, by decide +kernel⟩

end AtomText

end Metadoc
