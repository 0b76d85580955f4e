import Metadoc.Proofs.Document.Outline
import Mathlib.Data.List.Chain

/-!
# Pieces of an outline

What an outline is written as falls into pieces, each a label or a mark with or without a space
before it.

* `Piece` is such a piece, and `Outline.pieces` lists those of a document;
* `Outline.flatMap_pieces` : the pieces, put together, are what the outline is written as;
* `Piece.Apart` says that labels are ended by what is behind them, and `Outline.apart_pieces` that
  this holds of a document.
-/

namespace Metadoc

/-- A mark or a label. -/
inductive Sign where
  /-- An opening bracket. -/
  | opening (d : Delimiter)
  /-- A closing bracket. -/
  | closing (d : Delimiter)
  /-- A separator. -/
  | separator (sep : Separator)
  /-- The colon between a label and its set. -/
  | colon
  /-- The at sign before the name of a tag. -/
  | at
  /-- A label, or the name of a tag. -/
  | label (t : LabelText)

namespace Sign

/-- The byte of a mark. -/
def mark? : Sign → Option UInt8
  | opening d => some d.openByte
  | closing d => some d.closeByte
  | separator sep => some sep.byte
  | colon => some labelMark
  | «at» => some tagMark
  | label _ => none

/-- Whether an entry begins with a sign. -/
def begins : Sign → Bool
  | opening _ | «at» | label _ => true
  | _ => false

/-- The bytes of a sign. -/
def bytes : Sign → Bytes
  | label t => t.bytes
  | s => s.mark?.toList

end Sign

/-- A sign with or without a space before it. -/
structure Piece where
  /-- Whether a space stands before. -/
  spaced : Bool
  /-- The sign. -/
  sign : Sign

namespace Piece

/-- The space before a piece. -/
def gap (spaced : Bool) : Bytes := if spaced then [Outline.space] else []

/-- The bytes of a piece. -/
def bytes (p : Piece) : Bytes := gap p.spaced ++ p.sign.bytes

end Piece

namespace Outline

/-! ### The pieces of an outline -/

/-- A separator after an entry, if there is one. -/
def followerPieces (follower : Option Separator) : List Piece :=
  follower.toList.map fun sep => ⟨false, .separator sep⟩

mutual

/-- The pieces of an entry. -/
def Entry.pieces (spaced : Bool) : Entry → List Piece
  | .leaf tags label follower =>
    tagsPieces spaced tags ++
      (⟨spaced || !tags.isEmpty, .label label⟩ :: followerPieces follower)
  | .set tags none opened closed members follower =>
    tagsPieces spaced tags ++ (⟨spaced || !tags.isEmpty, .opening opened⟩ ::
      (entriesPieces true members ++ ⟨true, .closing closed⟩ :: followerPieces follower))
  | .set tags (some label) opened closed members follower =>
    tagsPieces spaced tags ++ (⟨spaced || !tags.isEmpty, .label label⟩ :: ⟨false, .colon⟩ ::
      ⟨false, .opening opened⟩ ::
      (entriesPieces true members ++ ⟨true, .closing closed⟩ :: followerPieces follower))

/-- The pieces of a tag. -/
def Tag.pieces (spaced : Bool) : Tag → List Piece
  | .plain name => [⟨spaced, .at⟩, ⟨false, .label name⟩]
  | .applied name arguments =>
    ⟨spaced, .at⟩ :: ⟨false, .label name⟩ :: ⟨false, .opening .paren⟩ ::
      (entriesPieces true arguments ++ [⟨true, .closing .paren⟩])

/-- The pieces of tags. -/
def tagsPieces (spaced : Bool) : List Tag → List Piece
  | [] => []
  | t :: ts => t.pieces spaced ++ tagsPieces true ts

/-- The pieces of entries. -/
def entriesPieces (spaced : Bool) : List Entry → List Piece
  | [] => []
  | e :: es => e.pieces spaced ++ entriesPieces true es

end

/-- The pieces of a document. -/
def pieces (es : List Entry) : List Piece := entriesPieces false es

@[simp] theorem flatMap_followerPieces (follower : Option Separator) :
    (followerPieces follower).flatMap Piece.bytes = followerBytes follower := by
  cases follower <;> rfl

mutual

theorem flatMap_entry_pieces (e : Entry) (spaced : Bool) :
    (e.pieces spaced).flatMap Piece.bytes = Piece.gap spaced ++ e.render := by
  cases e with
  | leaf tags label follower =>
    have htags := flatMap_tagsPieces tags spaced
    rw [Entry.pieces, List.flatMap_append, List.flatMap_cons, flatMap_followerPieces]
    simp only [Piece.bytes, Sign.bytes, Entry.render]
    rw [← List.append_assoc, ← List.append_assoc, htags]
    simp
  | set tags label opened closed members follower =>
    have htags := flatMap_tagsPieces tags spaced
    have hmembers := flatMap_entriesPieces members
    cases label with
    | none =>
      rw [Entry.pieces, List.flatMap_append, List.flatMap_cons, List.flatMap_append,
        List.flatMap_cons, flatMap_followerPieces, hmembers]
      simp only [Piece.bytes, Sign.bytes, Entry.render]
      rw [List.append_assoc, ← List.append_assoc, htags, List.append_assoc]
      simp [captionBytes, Sign.mark?, Piece.gap]
    | some label =>
      rw [Entry.pieces, List.flatMap_append, List.flatMap_cons, List.flatMap_cons,
        List.flatMap_cons, List.flatMap_append, List.flatMap_cons, flatMap_followerPieces, hmembers]
      simp only [Piece.bytes, Sign.bytes, Entry.render]
      rw [List.append_assoc, ← List.append_assoc, htags, List.append_assoc]
      simp [captionBytes, Sign.mark?, Piece.gap]

theorem flatMap_tag_pieces (t : Tag) (spaced : Bool) :
    (t.pieces spaced).flatMap Piece.bytes ++ Piece.gap true = Piece.gap spaced ++ t.render := by
  cases t with
  | plain name => simp [Tag.pieces, Tag.render, Piece.bytes, Sign.bytes, Sign.mark?, Piece.gap]
  | applied name arguments =>
    have harguments := flatMap_entriesPieces arguments
    simp [Tag.pieces, Tag.render, Piece.bytes, Sign.bytes, Sign.mark?, Piece.gap, harguments]

/-- The space before what is behind the tags is that behind the last tag. -/
theorem flatMap_tagsPieces (ts : List Tag) (spaced : Bool) :
    (tagsPieces spaced ts).flatMap Piece.bytes ++ Piece.gap (spaced || !ts.isEmpty) =
      Piece.gap spaced ++ renderTags ts := by
  cases ts with
  | nil => simp [tagsPieces, renderTags]
  | cons t ts =>
    have ht := flatMap_tag_pieces t spaced
    have hts := flatMap_tagsPieces ts true
    rw [Bool.true_or] at hts
    rw [tagsPieces, renderTags, List.flatMap_append, List.append_assoc, List.isEmpty_cons,
      Bool.not_false, Bool.or_true, hts, ← List.append_assoc, ht, List.append_assoc]

theorem flatMap_entriesPieces (es : List Entry) :
    (entriesPieces true es).flatMap Piece.bytes = renderMembers es := by
  cases es with
  | nil => rfl
  | cons e es =>
    have he := flatMap_entry_pieces e true
    have hes := flatMap_entriesPieces es
    rw [entriesPieces, renderMembers, List.flatMap_append, he, hes]
    simp [Piece.gap]

end

/-- The pieces of a document, put together, are what it is written as. -/
theorem flatMap_pieces (es : List Entry) : (pieces es).flatMap Piece.bytes = render es := by
  cases es with
  | nil => rfl
  | cons e es =>
    rw [pieces, entriesPieces, render, List.flatMap_append, flatMap_entry_pieces,
      flatMap_entriesPieces]
    rfl

end Outline

/-! ### Neighbours -/

namespace Piece

/-- Whether a piece ends a name before it. -/
def endsName (p : Piece) : Bool := p.spaced || p.sign.mark?.isSome

/-- Whether what is behind labels ends them. -/
def Apart : List Piece → Prop := List.IsChain fun p q => p.sign.mark? = none → q.endsName = true

/-- Whether pieces, if there are any, end a name before them. -/
def Led (ps : List Piece) : Prop := ∀ p ∈ ps.head?, p.endsName = true

theorem led_nil : Led [] := by simp [Led]

theorem led_cons {p : Piece} {ps : List Piece} : Led (p :: ps) ↔ p.endsName = true := by
  simp [Led]

theorem apart_cons {p : Piece} {ps : List Piece} (h : Apart ps) (hp : Led ps) :
    Apart (p :: ps) :=
  h.cons fun q hq _ => hp q hq

theorem Apart.append {ps qs : List Piece} (hp : Apart ps) (hq : Apart qs) (h : Led qs) :
    Apart (ps ++ qs) :=
  List.IsChain.append hp hq fun _ _ q hq _ => h q hq

theorem apart_mark {p : Piece} {ps : List Piece} (h : Apart ps) (hp : p.sign.mark?.isSome = true) :
    Apart (p :: ps) := by
  refine h.cons fun q _ hn => ?_
  rw [hn] at hp
  cases hp

end Piece

namespace Outline

open Piece

theorem apart_followerPieces (follower : Option Separator) : Apart (followerPieces follower) := by
  cases follower with
  | none => exact List.isChain_nil
  | some sep => exact List.isChain_singleton _

theorem led_followerPieces (follower : Option Separator) : Led (followerPieces follower) := by
  cases follower with
  | none => exact led_nil
  | some sep => exact led_cons.2 rfl

/-- Tags and what is behind them begin with an at sign, unless there are no tags. -/
theorem tagsPieces_append_eq_cons (ts : List Tag) (spaced : Bool) (sign : Sign)
    (ps : List Piece) : ∃ first qs,
      tagsPieces spaced ts ++ ⟨spaced || !ts.isEmpty, sign⟩ :: ps = ⟨spaced, first⟩ :: qs ∧
        (first = sign ∨ first = .at) := by
  cases ts with
  | nil => exact ⟨sign, ps, by simp [tagsPieces], .inl rfl⟩
  | cons t ts => cases t <;> exact ⟨_, _, rfl, .inr rfl⟩

/-- The first piece of an entry begins one. -/
theorem Entry.pieces_eq_cons (e : Entry) (spaced : Bool) :
    ∃ first ps, e.pieces spaced = ⟨spaced, first⟩ :: ps ∧ first.begins = true := by
  have hcons {tags : List Tag} {sign : Sign} {ps : List Piece} (hsign : sign.begins = true)
      (he : e.pieces spaced =
        tagsPieces spaced tags ++ ⟨spaced || !tags.isEmpty, sign⟩ :: ps) :
      ∃ first ps, e.pieces spaced = ⟨spaced, first⟩ :: ps ∧ first.begins = true := by
    obtain ⟨first, qs, hqs, rfl | rfl⟩ := tagsPieces_append_eq_cons tags spaced sign ps
    · exact ⟨_, qs, he.trans hqs, hsign⟩
    · exact ⟨_, qs, he.trans hqs, rfl⟩
  match e with
  | .leaf tags label follower => exact hcons rfl rfl
  | .set tags none opened closed members follower => exact hcons rfl rfl
  | .set tags (some label) opened closed members follower => exact hcons rfl rfl

theorem led_entriesPieces (es : List Entry) : Led (entriesPieces true es) := by
  cases es with
  | nil => exact led_nil
  | cons e es =>
    obtain ⟨first, ps, hps, -⟩ := e.pieces_eq_cons true
    rw [entriesPieces, hps]
    exact led_cons.2 rfl

mutual

theorem apart_entry_pieces (e : Entry) (spaced : Bool) : Apart (e.pieces spaced) := by
  cases e with
  | leaf tags label follower =>
    have hrest : Apart (⟨spaced || !tags.isEmpty, .label label⟩ :: followerPieces follower) :=
      apart_cons (apart_followerPieces follower) (led_followerPieces follower)
    rw [Entry.pieces]
    exact apart_tags_append tags spaced hrest
  | set tags label opened closed members follower =>
    have hset (before : Bool) : Apart (⟨before, .opening opened⟩ ::
        (entriesPieces true members ++ ⟨true, .closing closed⟩ :: followerPieces follower)) := by
      refine apart_mark (.append (apart_entriesPieces members true) ?_ (led_cons.2 rfl)) rfl
      exact apart_mark (apart_followerPieces follower) rfl
    cases label with
    | none =>
      rw [Entry.pieces]
      exact apart_tags_append tags spaced (hset _)
    | some label =>
      rw [Entry.pieces]
      exact apart_tags_append tags spaced
        (apart_cons (apart_mark (hset false) rfl) (led_cons.2 rfl))

theorem apart_tag_pieces (t : Tag) (spaced : Bool) : Apart (t.pieces spaced) := by
  cases t with
  | plain name => exact apart_mark (List.isChain_singleton _) rfl
  | applied name arguments =>
    have harguments : Apart (entriesPieces true arguments ++ [⟨true, .closing .paren⟩]) :=
      .append (apart_entriesPieces arguments true) (List.isChain_singleton _) (led_cons.2 rfl)
    exact apart_mark (apart_cons (apart_mark harguments rfl) (led_cons.2 rfl)) rfl

/-- What is behind tags has a space before it. -/
theorem apart_tags_append (ts : List Tag) (spaced : Bool) {sign : Sign} {ps : List Piece}
    (h : Apart (⟨spaced || !ts.isEmpty, sign⟩ :: ps)) :
    Apart (tagsPieces spaced ts ++ ⟨spaced || !ts.isEmpty, sign⟩ :: ps) := by
  cases ts with
  | nil => exact h
  | cons t ts =>
    rw [List.isEmpty_cons, Bool.not_false, Bool.or_true] at h ⊢
    have hrest := apart_tags_append ts true h
    -- What is behind the first tag begins with the at sign of the next, or with what is tagged.
    obtain ⟨first, qs, hqs, -⟩ := tagsPieces_append_eq_cons ts true sign ps
    rw [hqs] at hrest
    rw [Bool.true_or] at hqs
    rw [tagsPieces, List.append_assoc, hqs]
    exact .append (apart_tag_pieces t spaced) hrest (led_cons.2 rfl)

theorem apart_entriesPieces (es : List Entry) (spaced : Bool) :
    Apart (entriesPieces spaced es) := by
  cases es with
  | nil => exact List.isChain_nil
  | cons e es =>
    rw [entriesPieces]
    exact .append (apart_entry_pieces e spaced) (apart_entriesPieces es true)
      (led_entriesPieces es)

end

/-- The labels of a document are ended by what is behind them. -/
theorem apart_pieces (es : List Entry) : Apart (pieces es) := apart_entriesPieces es false

end Outline

end Metadoc
