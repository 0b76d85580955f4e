import Metadoc.Proofs.Document.Astray
import Metadoc.Proofs.Document.Numbering
import Metadoc.Proofs.Forest.WellFormed

/-!
# The arena of a document

All nodes that are made while a document is read are kept in one forest.

* `Parse.Accounted` says that this forest is well linked, and that it holds the nodes that can be
  reached from the root, and besides one node for each faulty piece of trivia that was read;
* `Parse.accounted_ofState` : that is so where each number is that of one node, and the stray nodes
  are those of the faulty trivia behind;
* `Parse.wellFormed_document`, `Parse.wellFormed_oneNode` : so this forest is well formed;
* `Parse.accounted` : what is read of a document or from a position on is accounted for.
-/

namespace Metadoc

/-- Whether a node is on its own and stands for a piece of trivia. -/
structure Forest.StandsFor (forest : Forest) (i : Nat) (l : Lexeme) : Prop where
  /-- It says what the piece of trivia is, as an error node. -/
  data : forest.data? i = some (State.strayData l)
  /-- It has no parent, no tags and no children. -/
  links : forest.links i = {}

namespace Parse

/-- Whether the forest of a parse with a root is well linked, and its nodes are those that can be
reached from the root and one for each faulty piece of trivia among the lexemes that were read. -/
structure Accounted (p : Parse) (root : Tree) (read : List Lexeme) : Prop where
  /-- The links agree with one another. -/
  linked : p.forest.Linked
  /-- Following the links from the root visits the nodes of the tree in their order, and ends. -/
  walk : p.forest.Walk (some root.id) (root.preorder.map Tree.id)
  /-- No node is visited twice. -/
  once : (root.preorder.map Tree.id).Nodup
  /-- What is visited is all that can be reached. -/
  reached : ∀ i, i ∈ root.preorder.map Tree.id ↔ p.forest.Reaches root.id i
  /-- The other nodes stand for the faulty pieces of trivia, one for each. -/
  others : ∃ others, (root.preorder.map Tree.id ++ others).Perm (List.range p.forest.size) ∧
    List.Forall₂ p.forest.StandsFor others (read.filter (·.isFaultyTrivium))
  /-- There are no more nodes than that. -/
  size : p.forest.size = root.preorder.length + (read.filter (·.isFaultyTrivium)).length

/-- What has been read when a state is reached is accounted for, if each number is that of one node
and the stray nodes are those of the faulty trivia behind. -/
theorem accounted_ofState {source : Source} {pos : Nat} {root : Tree} {s : State}
    {read : List Lexeme}
    (hperm : (root.preorder.map Tree.id ++ s.strays.map Prod.fst).Perm (List.range s.count))
    (hbehind : s.Behind source pos read) : (ofState source (some root) s).Accounted root read := by
  let p := ofState source (some root) s
  have hsize : p.forest.size = s.count := Forest.size_ofTree ..
  have hnodup : (root.preorder.map Tree.id ++ s.strays.map Prod.fst).Nodup :=
    hperm.nodup_iff.2 List.nodup_range
  have hlt : ∀ i ∈ root.preorder.map Tree.id, i < s.count := fun i hi =>
    List.mem_range.1 (hperm.subset (List.mem_append_left _ hi))
  have hwalk : p.forest.Walk (some root.id) (root.preorder.map Tree.id) :=
    Forest.walk_ofTree hnodup.of_append_left hlt s.strays
  have hstands : ∀ x ∈ s.strays, p.forest.data? x.1 = some x.2 ∧ p.forest.links x.1 = {} := by
    intro x hx
    have hmem : x.1 ∈ s.strays.map Prod.fst := List.mem_map_of_mem hx
    have hcount : x.1 < s.count := List.mem_range.1 (hperm.subset (List.mem_append_right _ hmem))
    constructor
    · exact (Forest.data?_ofTree ..).trans ((if_pos hcount).trans
        (congrArg some (Tree.dataAt_of_mem hnodup hx)))
    · exact Forest.links_ofTree_of_not_mem hnodup.of_append_left hlt s.strays
        fun hi => List.disjoint_of_nodup_append hnodup hi hmem
  refine ⟨(Forest.arranged_ofTree hnodup.of_append_left hlt s.strays).linked, hwalk,
    hnodup.of_append_left, fun i => hwalk.mem_iff, ⟨s.strays.map Prod.fst, ?_, ?_⟩, ?_⟩
  · exact hsize.symm ▸ hperm
  · have heach : List.Forall₂ (fun x l => x.2 = State.strayData l) s.strays
        (read.filter (·.isFaultyTrivium)) := by
      have hall : List.Forall₂ (· = ·) (s.strays.map Prod.snd)
          ((read.filter (·.isFaultyTrivium)).map State.strayData) := by
        rw [hbehind.strays]
        exact List.forall₂_refl _
      rwa [List.forall₂_map_left_iff, List.forall₂_map_right_iff] at hall
    rw [List.forall₂_map_left_iff]
    exact ((List.forall₂_and_left _ _).2 ⟨hstands, heach⟩).imp
      fun x l ⟨⟨hdata, hlinks⟩, hx⟩ => ⟨hx ▸ hdata, hlinks⟩
  · have hlength := hperm.length_eq
    have hstrays := congrArg List.length hbehind.strays
    simp only [List.length_append, List.length_map, List.length_range] at hlength hstrays
    rw [← hstrays, hlength]
    exact hsize

theorem Accounted.wellFormed {p : Parse} {root : Tree} {read : List Lexeme}
    (h : p.Accounted root read) : p.forest.WellFormed := by
  refine h.linked.wellFormed h.walk h.once fun i hi => ?_
  obtain ⟨others, hperm, hstands⟩ := h.others
  by_cases hlt : i < p.forest.size
  · have hmem := hperm.symm.subset (List.mem_range.2 hlt)
    have hloose := (List.forall₂_and_left (p := fun j => p.forest.links j = {}) _ _).1
      (hstands.imp fun j l hl => ⟨hl.links, hl⟩)
    exact hloose.1 i ((List.mem_append.1 hmem).resolve_left hi)
  · rw [Forest.links, Array.getElem?_eq_none (Nat.not_lt.1 hlt)]
    rfl

theorem accounted_document (source : Source) :
    ∃ root, (document source).root = some root ∧
      (document source).Accounted root (Lexeme.all source 0) := by
  have hrun := Grammar.run_entries Grammar.maxDepth .top (State.begin source 0).alloc.state
  obtain ⟨read, hbehind⟩ := (State.steps_behind source 0).run hrun
    ⟨_, (State.behind_begin source 0).of_eq rfl rfl⟩
  have hend := hrun.entriesEnd_state.resolve_right fun h => absurd h.1 (by decide)
  refine ⟨_, rfl, ?_⟩
  rw [← hbehind.eq_all hend]
  exact accounted_ofState (document_ids_perm source) hbehind

theorem accounted_oneNode {text : Bytes} {pos : Nat} {root : Tree}
    (hroot : (oneNode text pos).root = some root) :
    (oneNode text pos).Accounted root
      ((Lexeme.all ⟨anonymous, text⟩ pos).filter (·.start < (oneNode text pos).stop)) := by
  let source : Source := ⟨anonymous, text⟩
  cases hend : (State.begin source pos).cursor.atEnd with
  | true =>
    rw [oneNode_of_atEnd hend] at hroot
    cases hroot
  | false =>
    rw [oneNode_of_not_atEnd hend] at hroot ⊢
    have hrun := Grammar.run_entry (Grammar.soundBelow Grammar.maxDepth) .top
      (State.begin source pos)
    obtain ⟨read, hbehind⟩ := (State.steps_behind source pos).run hrun
      ⟨_, State.behind_begin source pos⟩
    obtain rfl := Option.some.inj hroot
    have hperm := (hrun.numbers.after (numbers_begin source pos)).perm_range rfl rfl
    rw [Read.one_value, Tree.idsAll_cons, Tree.idsAll_nil, List.append_nil] at hperm
    exact hbehind.eq_filter ▸ accounted_ofState hperm hbehind

/-- The forest of a document is well formed. -/
theorem wellFormed_document (source : Source) : (document source).forest.WellFormed := by
  obtain ⟨root, -, h⟩ := accounted_document source
  exact h.wellFormed

/-- So is the forest of a node that is read from a position on. -/
theorem wellFormed_oneNode {text : Bytes} {pos : Nat} {root : Tree}
    (hroot : (oneNode text pos).root = some root) : (oneNode text pos).forest.WellFormed :=
  (accounted_oneNode hroot).wellFormed

/-- Every tree that is read, of a whole document or of the first node from a position on, is a well
linked forest that accounts for all nodes that were made: those that are not reached from its root
stand for the faulty pieces of the trivia that was read, one for each. -/
theorem accounted (path : String) (text : Bytes) (pos : Nat) :
    (∃ root, (document ⟨path, text⟩).root = some root ∧
      (document ⟨path, text⟩).Accounted root (Lexeme.all ⟨path, text⟩ 0)) ∧
    ∀ root, (oneNode text pos).root = some root → (oneNode text pos).Accounted root
      ((Lexeme.all ⟨anonymous, text⟩ pos).filter (·.start < (oneNode text pos).stop)) :=
  ⟨accounted_document _, fun _ hroot => accounted_oneNode hroot⟩

/-- A control character between a tag and its label, and a comment that is not closed behind them:
both stand for nodes of their own. -/
theorem accounted_faulty :
    let text := Utf8.ofString "x @t(y) \x01 a: (b, c) /* d"
    (document ⟨"d", text⟩).strays.length = 2 ∧
      (∃ root, (document ⟨"d", text⟩).root = some root ∧
        (document ⟨"d", text⟩).Accounted root (Lexeme.all ⟨"d", text⟩ 0)) ∧
      ∃ root, (oneNode text 2).root = some root ∧ (oneNode text 2).Accounted root
        ((Lexeme.all ⟨anonymous, text⟩ 2).filter (·.start < (oneNode text 2).stop)) := by
  intro text
  obtain ⟨hdocument, hnode⟩ := accounted "d" text 2
  have hfound : (oneNode text 2).root.isSome = true := by decide +kernel
  obtain ⟨root, hroot⟩ := Option.isSome_iff_exists.1 hfound
  exact ⟨by decide +kernel, hdocument, root, hroot, hnode root hroot⟩

end Parse

end Metadoc
