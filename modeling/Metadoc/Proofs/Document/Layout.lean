import Metadoc.Proofs.Document.Lexemes
import Metadoc.Proofs.Document.Transport
import Metadoc.Proofs.Token.Layout

/-!
# Other blanks between the words of a document

Which blanks stand between the tokens of a document matters only for how many lines they break, up
to the second.

* `Token.placeIn` is where a position of a text is found when blocks stand for its tokens, and
  `Relocation.relay` moves positions there;
* `Token.like_relaid` : the lexemes of the new text stand for those of the old one;
* `Parse.document_relaid` : both texts are read alike.
-/

namespace Metadoc

namespace Token

/-! ### Where positions are found -/

/-- Where a position of a text is found when blocks stand for its tokens.  A position inside a
token is as far behind its start, but not behind the end of the block. -/
def placeIn : List Token → List Bytes → Nat → Nat
  | t :: ts, b :: bs, pos =>
    if pos < t.length then min pos b.length else b.length + placeIn ts bs (pos - t.length)
  | _, _, pos => pos

theorem placeIn_mono (ts : List Token) (bs : List Bytes) : Monotone (placeIn ts bs) := by
  induction ts generalizing bs with
  | nil => exact fun p q h => h
  | cons t ts ih =>
    cases bs with
    | nil => exact fun p q h => h
    | cons b bs =>
      intro p q h
      have hrest := ih bs (Nat.sub_le_sub_right h t.length)
      unfold placeIn
      split <;> split <;> omega

theorem placeIn_cons_add (t : Token) (ts : List Token) (b : Bytes) (bs : List Bytes) (pos : Nat) :
    placeIn (t :: ts) (b :: bs) (t.length + pos) = b.length + placeIn ts bs pos := by
  rw [placeIn, if_neg (by omega), Nat.add_sub_cancel_left]

theorem placeIn_zero {pos : Nat} {text : Bytes} {ts : List Token} (h : allFrom pos 0 text = ts)
    (bs : List Bytes) : placeIn ts bs 0 = 0 := by
  cases ts with
  | nil => rfl
  | cons t ts =>
    cases bs with
    | nil => rfl
    | cons b bs =>
      have hpos : 0 < t.length := List.length_pos_iff.2 (allFrom_eq_cons h).1
      rw [placeIn, if_pos hpos, Nat.zero_min]

theorem placeIn_length {line : Bool} {ts : List Token} {bs : List Bytes} (h : Relaid line ts bs) :
    placeIn ts bs (ts.flatMap bytes).length = bs.flatten.length := by
  induction h with
  | nil => rfl
  | @cons line t b ts bs block rest ih =>
    rw [List.flatMap_cons, List.length_append, List.flatten_cons, List.length_append]
    exact (placeIn_cons_add t ts b bs _).trans (by rw [ih])

end Token

/-- Positions are found where blocks stand for the tokens of a text, and nodes under their old
numbers. -/
def Relocation.relay (ts : List Token) (bs : List Bytes) : Relocation :=
  ⟨Token.placeIn ts bs, id, Token.placeIn_mono ts bs⟩

namespace Token

theorem like_settle {line : Bool} {ts : List Token} {bs : List Bytes} (h : Relaid line ts bs)
    (hblanks : ∀ t ∈ ts, t.kind = .whitespace → t.error = none) {ρ : Relocation} :
    ∀ {pos pos' : Nat} {text : Bytes}, allFrom pos 0 text = ts →
      (∀ n, ρ.place (pos + n) = pos' + placeIn ts bs n) →
      List.Forall₂ (Lexeme.Like ρ) (ts.map alone) ((settle pos' ts bs).map alone) := by
  induction h with
  | nil => intros; exact .nil
  | @cons line t b ts bs block rest ih =>
    intro pos pos' text hall hplace
    obtain ⟨hne, hstart, text', -, -, htail⟩ := allFrom_eq_cons hall
    rw [settle, List.map_cons, List.map_cons]
    refine .cons ?_ (ih (fun u hu => hblanks u (List.mem_cons_of_mem t hu)) htail fun n => ?_)
    · have herror := hblanks t List.mem_cons_self
      cases block with
      | laid kind blank feeds first => exact .blanks kind kind feeds (herror kind) (herror kind)
      | kept kind =>
        have hzero : ρ.place t.start = pos' := by
          have hfirst := hplace 0
          rwa [placeIn_zero hall, Nat.add_zero, ← hstart] at hfirst
        have hrigid : ρ.Rigid t.alone := fun n hn => by
          have hn : n ≤ t.length := hn
          have hlength : t.bytes.length = t.length := rfl
          have hlast := placeIn_zero htail bs
          have hin : placeIn (t :: ts) (t.bytes :: bs) n = n := by
            rcases Nat.lt_or_eq_of_le hn with hlt | rfl
            · rw [placeIn, if_pos hlt, hlength]
              omega
            · have hend := placeIn_cons_add t ts t.bytes bs 0
              rwa [hlast, Nat.add_zero, Nat.add_zero, hlength] at hend
          calc ρ.place (t.start + n) = pos' + placeIn (t :: ts) (t.bytes :: bs) n := by
                rw [hstart, hplace]
            _ = ρ.place t.start + n := by rw [hin, hzero]
        have hfound := Lexeme.Like.found hrigid
        rwa [show ρ.lexeme t.alone = alone { t with start := pos' } from by
          rw [← hzero]; rfl] at hfound
    · rw [Nat.add_assoc, hplace, placeIn_cons_add, Nat.add_assoc]

/-- The lexemes of a text with other blanks stand for those of the old one. -/
theorem like_relaid {source : Source} {bs : List Bytes}
    (h : Relaid false (all source.bytes 0) bs) (path : String) :
    List.Forall₂ (Lexeme.Like (.relay (all source.bytes 0) bs)) (Lexeme.all source 0)
      (Lexeme.all ⟨path, bs.flatten⟩ 0) := by
  rw [Lexeme.all_eq_map_alone, Lexeme.all_eq_map_alone, all_relaid h]
  have hall : allFrom 0 0 source.bytes = all source.bytes 0 := by
    rw [all, Nat.zero_min, List.drop_zero]
  exact like_settle h (fun t ht => error_of_blanks ht) hall fun n => by
    rw [Nat.zero_add, Nat.zero_add]
    rfl

end Token

namespace Parse

/-- The entries of a document. -/
def entries (p : Parse) : List Tree := (p.root.map Tree.children).getD []

/-- A document with other blanks between its tokens is read alike. -/
theorem document_relaid (source : Source) (bs : List Bytes)
    (h : Token.Relaid false (Token.all source.bytes 0) bs) :
    let ρ := Relocation.relay (Token.all source.bytes 0) bs
    let relaid := document ⟨source.path, bs.flatten⟩
    relaid.root = (document source).root.map ρ.tree ∧
      relaid.strays = (document source).strays.map ρ.stray ∧
      relaid.diagnostics = (document source).diagnostics.map ρ.diagnostic := by
  intro ρ relaid
  have hstart : ρ.place 0 = 0 := by
    have hall : Token.allFrom 0 0 source.bytes = Token.all source.bytes 0 := by
      rw [Token.all, Nat.zero_min, List.drop_zero]
    exact Token.placeIn_zero hall bs
  have hend : ρ.place source.length = bs.flatten.length := by
    have hplace := Token.placeIn_length h
    rwa [Token.flatMap_bytes_all] at hplace
  have hlike : State.Like ρ none (State.begin source 0) (State.begin ⟨source.path, bs.flatten⟩ 0) :=
    State.like_begin (Token.like_relaid h source.path) hend.symm fun _ => rfl
  have hi {s : State} : State.Inside none s := .inl rfl
  have hrun := Grammar.run_entries Grammar.maxDepth .top (State.begin source 0).alloc.state
  obtain ⟨t, hrun', ht⟩ := hrun.transport (hlike.alloc hi) (.inl rfl) hi
  have hbooked := ht.booked hi
  have hroot : ρ.data (rootData source) = rootData ⟨source.path, bs.flatten⟩ := by
    simp only [Relocation.data, rootData, Relocation.span, hstart, hend]
    rfl
  rw [document_of_run hrun]
  rw [show relaid = _ from document_of_run (r := ⟨ρ.trees _, t⟩) hrun']
  refine ⟨?_, hbooked.strays, ?_⟩
  · simp only [ofState, Option.map_some, Relocation.tree, hroot, hlike.count hi]
    rfl
  · simp only [diagnostics, ofState, hbooked.reports, List.map_map]
    rfl

/-- A comment to the end of the line, a set without brackets and a fault, with other blanks. -/
theorem document_relaid_indented :
    let source : Source := ⟨"d", Utf8.ofString "a:  b // c\n\n\t@ e"⟩
    let bs := [Utf8.ofString "a", Utf8.ofString ":", Utf8.ofString "\t", Utf8.ofString "b",
      Utf8.ofString "   ", Utf8.ofString "// c", Utf8.ofString "\n \n\n", Utf8.ofString "@",
      Utf8.ofString "\t", Utf8.ofString "e"]
    Token.Relaid false (Token.all source.bytes 0) bs ∧
      (let ρ := Relocation.relay (Token.all source.bytes 0) bs
      let relaid := document ⟨source.path, bs.flatten⟩
      relaid.root = (document source).root.map ρ.tree ∧
        relaid.strays = (document source).strays.map ρ.stray ∧
        relaid.diagnostics = (document source).diagnostics.map ρ.diagnostic) :=
  ⟨by decide +kernel, document_relaid _ _ (by decide +kernel)⟩

end Parse

end Metadoc
