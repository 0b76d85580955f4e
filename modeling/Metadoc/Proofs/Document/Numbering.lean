import Metadoc.Document.Parse
import Metadoc.Proofs.Document.Growth
import Metadoc.Proofs.Document.Lossless

/-!
# Node numbers

Every number that is handed out is that of one node, in a tree or astray.

* `State.Numbers s s' ids` says that the numbers handed out between two states are `ids` and those
  of the new stray nodes, each of them once;
* `Grammar.Run.numbers` : reading a part of the grammar hands out the numbers of the nodes that it
  yields;
* `Parse.document_ids_perm` : the numbers of a document are those below its count.
-/

namespace Metadoc

namespace Tree

/-- The numbers of the nodes of a tree. -/
def ids (t : Tree) : List Nat := t.preorder.map id

/-- The numbers of the nodes of several trees. -/
def idsAll (ts : List Tree) : List Nat := (preorderAll ts).map id

theorem ids_node (i : Nat) (d : NodeData) (ts cs : List Tree) :
    ids (node i d ts cs) = i :: (idsAll ts ++ idsAll cs) := by
  simp [ids, idsAll, preorder, id]

@[simp] theorem idsAll_nil : idsAll [] = [] := rfl

@[simp] theorem idsAll_cons (t : Tree) (ts : List Tree) :
    idsAll (t :: ts) = t.ids ++ idsAll ts := by
  simp [idsAll, preorderAll, ids]

end Tree

namespace State

/-- The numbers handed out between two states are `ids` and those of the new stray nodes. -/
def Numbers (s s' : State) (ids : List Nat) : Prop :=
  s.count ≤ s'.count ∧ ∃ new, s'.strays = s.strays ++ new ∧
    (ids ++ new.map Prod.fst).Perm (List.range' s.count (s'.count - s.count))

namespace Numbers

variable {s s' s'' : State} {ids ids' : List Nat}

theorem of_eq (hc : s'.count = s.count) (hs : s'.strays = s.strays) : Numbers s s' [] :=
  ⟨Nat.le_of_eq hc.symm, [], by simp [hs], by simp [hc]⟩

theorem refl (s : State) : Numbers s s [] := of_eq rfl rfl

theorem trans (h : Numbers s s' ids) (h' : Numbers s' s'' ids') :
    Numbers s s'' (ids ++ ids') := by
  obtain ⟨hle, new, hstrays, hperm⟩ := h
  obtain ⟨hle', new', hstrays', hperm'⟩ := h'
  refine ⟨hle.trans hle', new ++ new', by rw [hstrays', hstrays, List.append_assoc], ?_⟩
  have hrange : List.range' s.count (s''.count - s.count) =
      List.range' s.count (s'.count - s.count) ++ List.range' s'.count (s''.count - s'.count) := by
    have hstart : s'.count = s.count + 1 * (s'.count - s.count) := by omega
    have hlength : s''.count - s.count = (s'.count - s.count) + (s''.count - s'.count) := by omega
    rw [hlength, ← List.range'_append, ← hstart]
  rw [hrange]
  refine List.Perm.trans ?_ (hperm.append hperm')
  -- The stray nodes of the first part only move behind the numbers of the second.
  rw [List.perm_iff_count]
  intro i
  simp only [List.count_append, List.map_append]
  omega

theorem perm (h : Numbers s s' ids) (hp : ids.Perm ids') : Numbers s s' ids' := by
  obtain ⟨hle, new, hstrays, hperm⟩ := h
  exact ⟨hle, new, hstrays, (hp.symm.append_right _).trans hperm⟩

/-- From where no number has been handed out, the numbers are those below the count. -/
theorem perm_range (h : Numbers s s' ids) (hc : s.count = 0) (hs : s.strays = []) :
    (ids ++ s'.strays.map Prod.fst).Perm (List.range s'.count) := by
  obtain ⟨-, new, hstrays, hperm⟩ := h
  rw [hstrays, hs, List.nil_append, List.range_eq_range']
  rwa [hc] at hperm

/-- Steps that hand out no numbers in a tree may come before. -/
theorem after (h' : Numbers s' s'' ids) (h : Numbers s s' []) : Numbers s s'' ids := h.trans h'

/-- Steps that hand out no numbers in a tree may come after. -/
theorem before (h : Numbers s s' ids) (h' : Numbers s' s'' []) : Numbers s s'' ids := by
  simpa using h.trans h'

end Numbers

theorem numbers_report (s : State) (problem : Problem) (span : Span) (node : Nat) :
    Numbers s (s.report problem span node) [] := .of_eq rfl rfl

theorem numbers_alloc (s : State) : Numbers s s.alloc.state [s.count] := by
  refine ⟨Nat.le_succ _, [], by simp [alloc], ?_⟩
  simp [alloc]

theorem numbers_reportFault (s : State) (l : Lexeme) (node : Nat) :
    Numbers s (s.reportFault l node) [] := by
  unfold reportFault
  split
  · exact .refl s
  · exact numbers_report ..

theorem numbers_reportTrivium (s : State) (l : Lexeme) : Numbers s (s.reportTrivium l) [] := by
  unfold reportTrivium
  split
  · exact .refl s
  · refine Numbers.before ?_ (numbers_reportFault ..)
    refine ⟨Nat.le_succ _, [(s.count, strayData l)], rfl, ?_⟩
    simp [alloc]

theorem numbers_foldl_reportTrivium (ls : List Lexeme) (s : State) :
    Numbers s (ls.foldl reportTrivium s) [] := by
  induction ls generalizing s with
  | nil => exact .refl s
  | cons l ls ih => exact (numbers_reportTrivium s l).trans (ih _)

theorem numbers_reportGap (s : State) : Numbers s s.reportGap [] :=
  numbers_foldl_reportTrivium _ _

theorem numbers_advance (s : State) : Numbers s s.advance [] := by
  unfold advance
  split
  · exact .refl s
  · exact Numbers.after (numbers_reportGap _) (.of_eq rfl rfl)

theorem numbers_reportLabel (s : State) (l : Lexeme) (node : Nat) :
    Numbers s (s.reportLabel l node) [] := by
  unfold reportLabel
  dsimp only
  split
  · exact numbers_reportFault ..
  · exact (numbers_reportFault ..).trans (numbers_report ..)

theorem numbers_behindLabel (s : State) (l : Lexeme) : Numbers s (s.behindLabel l) [s.count] :=
  ((numbers_alloc s).before (numbers_advance _)).before (numbers_reportLabel ..)

theorem numbers_claim (s : State) : Numbers s s.claim.state [] := by
  unfold claim
  split
  · split <;> exact .of_eq rfl rfl
  · exact .refl s

end State

namespace Grammar

open State (Numbers)

theorem ids_close (id start : Nat) (kind : NodeKind) (label : Label) (facets : Facets)
    (children : List Tree) (s : State) :
    (close id start kind label facets children s).value.ids = id :: Tree.idsAll children := by
  rw [close, Tree.ids_node]
  rfl

/-- A node that is closed has the number that was handed out for it and those of its children. -/
theorem numbers_close {s s' : State} {id : Nat} {kind : NodeKind} {label : Label}
    {facets : Facets} {children : List Tree} (h : Numbers s s' (id :: Tree.idsAll children))
    (start : Nat) :
    Numbers s (close id start kind label facets children s').state
      (close id start kind label facets children s').value.ids := by
  rw [ids_close]
  exact h.before (State.numbers_claim _)

theorem numbers_unexpected (s : State) :
    Numbers s (unexpected s).state (unexpected s).value.ids := by
  have h := (State.numbers_alloc s).before (State.numbers_advance _)
  unfold unexpected
  dsimp only
  split <;> exact numbers_close (h.before (State.numbers_report ..)) _

theorem numbers_untaggable (ts : List Tree) (s : State) :
    Numbers s (untaggable ts s).state (untaggable ts s).value.ids := by
  unfold untaggable
  dsimp only
  refine numbers_close ?_ _
  split
  · exact (State.numbers_alloc s).before (State.numbers_report ..)
  · exact State.numbers_alloc s

theorem numbers_reportCramped {s : State} {r : Read Tree} (id : Nat)
    (h : Numbers s r.state r.value.ids) :
    Numbers s (reportCramped id r).state (reportCramped id r).value.ids := by
  unfold reportCramped
  split
  · exact h.before (State.numbers_report ..)
  · exact h

theorem numbers_skip (bracketed : Bool) (n depth : Nat) (s : State) :
    Numbers s (skip bracketed n depth s) [] :=
  skip_of_advance (R := fun s s' => Numbers s s' []) .refl Numbers.trans State.numbers_advance
    bracketed n depth s

theorem numbers_follow (sep : Separator) (t : Tree) (s : State) :
    Numbers s (follow sep t s).state [] := by
  unfold follow
  dsimp only
  split
  · exact (State.numbers_advance s).trans (State.numbers_claim _)
  · exact State.numbers_advance s

theorem ids_follow (sep : Separator) (t : Tree) (s : State) :
    (follow sep t s).value.ids = t.ids := by
  cases t
  unfold follow
  dsimp only
  split <;> simp [Tree.withData, Tree.ids_node, Tree.id, Tree.tags, Tree.children]

theorem ids_precede (sep : Option Separator) (t : Tree) : (precede sep t).ids = t.ids := by
  cases t
  simp [precede, Tree.ids_node]

theorem ids_dress_perm (pre : String) (ts : List Tree) {t : Tree} (h : t.tags = []) :
    (Tree.idsAll ts ++ t.ids).Perm (dress pre ts t).ids := by
  cases t
  cases h
  simp only [dress, Tree.ids_node, Tree.idsAll_nil, List.nil_append]
  exact List.perm_middle

theorem numbers_one {s : State} {r : Read Tree} (h : Numbers s r.state r.value.ids) :
    Numbers s r.one.state (Tree.idsAll r.one.value.children) := by
  simpa using h

/-- Reading a part of the grammar hands out the numbers of the nodes that it yields, but for that
of a node whose set is read. -/
theorem Run.numbers {n : Nat} {part : Part} {s : State} {r : Read SetBody} (h : Run n part s r) :
    Numbers s r.state (Tree.idsAll r.value.children) := by
  induction h with
  | @namelessTag _ s _ _ =>
    have hid := (State.numbers_alloc s.advance).after (State.numbers_advance s)
    exact numbers_one (numbers_close (hid.before (State.numbers_report ..)) _)
  | @plainTag _ s l _ _ _ =>
    have hid := (State.numbers_behindLabel s.advance l).after (State.numbers_advance s)
    exact numbers_one (numbers_close hid _)
  | @tagWithArguments _ s l _ _ _ _ _ ih =>
    have hid := (State.numbers_behindLabel s.advance l).after (State.numbers_advance s)
    exact numbers_one (numbers_close (hid.trans ih) _)
  | tagsEnd _ => exact .refl _
  | tagsCons _ _ _ ihFirst ihRest => simpa using ihFirst.trans ihRest
  | bracketedRefused _ =>
    exact ((State.numbers_advance _).trans (State.numbers_report ..)).trans (numbers_skip ..)
  | bracketedClosed _ _ _ ih =>
    exact (ih.after (State.numbers_advance _)).before (State.numbers_advance _)
  | bracketedOpen _ _ _ ih =>
    exact (ih.after (State.numbers_advance _)).before (State.numbers_report ..)
  | lineMissing _ => exact State.numbers_report ..
  | lineRefused _ => exact (State.numbers_report ..).trans (numbers_skip ..)
  | lineRead _ _ ih => exact ih
  | label _ _ => exact numbers_one (numbers_close (State.numbers_behindLabel _ _) _)
  | @labeledSet _ _ _ s l _ _ _ _ _ _ _ ih =>
    have hid := (State.numbers_behindLabel s l).before (State.numbers_advance _)
    exact numbers_one (numbers_reportCramped _ (numbers_close (hid.trans ih) _))
  | @labeledLine _ _ _ s l _ _ _ _ _ ih =>
    have hid := (State.numbers_behindLabel s l).before (State.numbers_advance _)
    exact numbers_one (numbers_close (hid.trans ih) _)
  | @unlabeled _ ctx ts s _ _ _ _ _ ih =>
    have hid : Numbers s (if ctx = .line then
        s.alloc.state.report (.unlabeledSet (!ts.isEmpty)) s.cursor.span s.count
      else s.alloc.state) [s.count] := by
      split
      · exact (State.numbers_alloc s).before (State.numbers_report ..)
      · exact State.numbers_alloc s
    exact numbers_one (numbers_close (hid.trans ih) _)
  | untaggable _ _ => exact numbers_one (numbers_untaggable _ _)
  | unexpected _ _ _ => exact numbers_one (numbers_unexpected _)
  | @node _ _ s ts t _ bare ihTags ihBare =>
    obtain ⟨htagless, -⟩ := bare.unfollowed t.value List.mem_cons_self
    have hids := (ihTags.trans ihBare).perm
      (by simpa using ids_dress_perm s.cursor.trivia.leadingText ts.value htagless)
    exact numbers_one hids
  | entry _ ih => exact ih
  | stray _ _ => exact numbers_one (numbers_unexpected _)
  | entriesEnd _ => exact .refl _
  | extraSeparator _ _ _ ih => simpa using (numbers_unexpected _).trans ih
  | separated _ _ _ _ _ ihFirst ihRest =>
    simpa [ids_follow, ids_precede] using (ihFirst.before (numbers_follow ..)).trans ihRest
  | unseparated _ _ _ _ _ ihFirst ihRest => simpa [ids_precede] using ihFirst.trans ihRest
  | lineLast _ _ ih => exact ih
  | lineCons _ _ _ ihFirst ihRest => simpa using ihFirst.trans ihRest

end Grammar

namespace Parse

theorem numbers_begin (source : Source) (pos : Nat) :
    State.Numbers { cursor := Cursor.ofLexemes source.length pos (Lexeme.all source pos) }
      (State.begin source pos) [] :=
  State.numbers_reportGap _

/-- The numbers of the nodes of a document, stray ones included, are those below its count. -/
theorem document_ids_perm (source : Source) :
    ((document source).nodes.map Tree.id ++ (document source).strays.map Prod.fst).Perm
      (List.range (document source).count) := by
  have hrun := Grammar.run_entries Grammar.maxDepth .top (State.begin source 0).alloc.state
  have hroot := (State.numbers_alloc _).after (numbers_begin source 0)
  have hids : (document source).nodes.map Tree.id =
      (State.begin source 0).count :: Tree.idsAll (Grammar.entries
        (Grammar.levels Grammar.maxDepth) .top (State.begin source 0).alloc.state).value :=
    Tree.ids_node ..
  rw [hids]
  exact (hroot.trans hrun.numbers).perm_range rfl rfl

end Parse

end Metadoc
