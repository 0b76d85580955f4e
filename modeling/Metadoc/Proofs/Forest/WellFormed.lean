import Metadoc.Proofs.Forest.Building
import Mathlib.Data.Finset.Card
import Mathlib.Data.Finset.Range

/-!
# Well-formed forests

A forest is well formed when its links agree with one another and no node stands below itself.

* `Forest.WellFormed` says so, of `Forest.Owns`;
* `Edit.Orderly.wellFormed` : what is built in orderly steps is well formed;
* `Forest.Linked.wellFormed` : so is what a walk visits without meeting a node twice;
* `Forest.below` counts the nodes below a node: fewer below those in its lists, and fewer than there
  are nodes;
* `Forest.WellFormed.exists_tree`, `Forest.WellFormed.holds_of_tree` : every node has a tree, in
  which the trees of the nodes in its lists stand.
-/

namespace Metadoc

namespace Forest

/-- Whether a node stands in a list of another. -/
def Owns (forest : Forest) (i j : Nat) : Prop := j ∈ forest.tags i ∨ j ∈ forest.children i

/-- Whether a forest is one of trees. -/
structure WellFormed (forest : Forest) : Prop where
  /-- The links agree with one another. -/
  linked : forest.Linked
  /-- No node stands below itself. -/
  acyclic : ∀ i, ¬Relation.TransGen forest.Owns i i

variable {forest : Forest} {i j k : Nat}

/-! ### Forests that are well formed -/

/-- What is built in orderly steps is well formed. -/
theorem Edit.Orderly.wellFormed {edits : List Edit} (h : Edit.Orderly edits) :
    (build edits).WellFormed where
  linked := (Arranged.build h).linked
  acyclic i := by
    have howns : (build edits).Owns = Edit.Owns edits := by
      funext i j
      rw [Forest.Owns, (Arranged.build h).tags_eq, (Arranged.build h).children_eq,
        ← propext Edit.owns_iff]
    rw [howns]
    exact h.acyclic

theorem Chain.reaches {first : Option Nat} {is : List Nat} (h : forest.Chain first is)
    (hj : j ∈ is) : ∃ i, first = some i ∧ forest.Reaches i j := by
  induction h with
  | nil => cases hj
  | @cons i is rest ih =>
    refine ⟨i, rfl, ?_⟩
    rcases List.mem_cons.1 hj with rfl | hj
    · exact .refl
    · obtain ⟨k, hk, hreach⟩ := ih hj
      exact .head (.inr (.inr hk)) hreach

/-- A walk visits all that can be reached from what it visits. -/
theorem Walk.mem_of_reaches {first : Option Nat} {is : List Nat} (h : forest.Walk first is)
    (hi : i ∈ is) (hreach : forest.Reaches i j) : j ∈ is := by
  obtain ⟨k, rfl, hk⟩ := h.exists_reaches hi
  exact h.mem_iff.2 (hk.trans hreach)

theorem Walk.mem_of_chain {first : Option Nat} {is js : List Nat} (h : forest.Walk first is)
    (hchain : forest.Chain first js) (hj : j ∈ js) : j ∈ is := by
  obtain ⟨i, rfl, hreach⟩ := hchain.reaches hj
  exact h.mem_iff.2 hreach

/-- A walk goes on from each of its nodes. -/
theorem Walk.exists_sublist {first : Option Nat} {is : List Nat} (h : forest.Walk first is)
    (hi : i ∈ is) : ∃ js, js.Sublist is ∧ forest.Walk (some i) js := by
  induction h with
  | done => cases hi
  | @visit k ts cs rest tags children next ihTags ihChildren ihNext =>
    simp only [List.mem_cons, List.mem_append] at hi
    obtain rfl | (hi | hi) | hi := hi
    · exact ⟨_, .refl _, .visit tags children next⟩
    · obtain ⟨js, hjs, hwalk⟩ := ihTags hi
      exact ⟨js, .cons k (hjs.trans ((List.sublist_append_left ts cs).trans
        (List.sublist_append_left ..))), hwalk⟩
    · obtain ⟨js, hjs, hwalk⟩ := ihChildren hi
      exact ⟨js, .cons k (hjs.trans (List.infix_append ts cs rest).sublist), hwalk⟩
    · obtain ⟨js, hjs, hwalk⟩ := ihNext hi
      exact ⟨js, .cons k (hjs.trans (List.sublist_append_right ..)), hwalk⟩

namespace Linked

variable (h : forest.Linked)
include h

theorem reaches_of_owns (howns : forest.Owns i j) : forest.Reaches i j := by
  rcases howns with hj | hj
  · obtain ⟨k, hk, hreach⟩ := (h.tags i).reaches hj
    exact .head (.inl hk) hreach
  · obtain ⟨k, hk, hreach⟩ := (h.children i).reaches hj
    exact .head (.inr (.inl hk)) hreach

theorem lt_of_owns (howns : forest.Owns i j) : j < forest.size := by
  refine Nat.lt_of_not_le fun hle => ?_
  have hparent : (forest.links j).parent = some i := (h.parent i j).2 howns
  have hnone : forest.entries[j]? = none := Array.getElem?_eq_none hle
  simp [links, hnone] at hparent

/-- A walk that visits no node twice starts at no node that stands below itself. -/
theorem not_transGen_owns {is : List Nat} (hwalk : forest.Walk (some i) is) (hnodup : is.Nodup) :
    ¬Relation.TransGen forest.Owns i i := by
  cases hwalk with
  | @visit _ ts cs rest tags children next =>
    -- All below the first node is visited before the walk goes on to the next one.
    have hbelow : ∀ j, Relation.TransGen forest.Owns i j → j ∈ ts ++ cs := by
      intro j hj
      induction hj with
      | single howns =>
        rcases howns with hj | hj
        · exact List.mem_append_left _ (tags.mem_of_chain (h.tags i) hj)
        · exact List.mem_append_right _ (children.mem_of_chain (h.children i) hj)
      | tail _ howns ih =>
        have hreach := h.reaches_of_owns howns
        rcases List.mem_append.1 ih with ih | ih
        · exact List.mem_append_left _ (tags.mem_of_reaches ih hreach)
        · exact List.mem_append_right _ (children.mem_of_reaches ih hreach)
    exact fun hcycle => (List.nodup_cons.1 hnodup).1 (List.mem_append_left _ (hbelow i hcycle))

/-- A forest is well formed if a walk visits no node twice and leaves out only nodes that are on
their own. -/
theorem wellFormed {first : Option Nat} {is : List Nat} (hwalk : forest.Walk first is)
    (hnodup : is.Nodup) (hloose : ∀ i ∉ is, forest.links i = {}) : forest.WellFormed where
  linked := h
  acyclic i hcycle := by
    by_cases hi : i ∈ is
    · obtain ⟨js, hjs, hwalk⟩ := hwalk.exists_sublist hi
      exact h.not_transGen_owns hwalk (hnodup.sublist hjs) hcycle
    · obtain ⟨j, howns, -⟩ := Relation.TransGen.head'_iff.1 hcycle
      have htags := h.tagCount i
      have hchildren := h.childCount i
      rw [hloose i hi] at htags hchildren
      rw [Forest.Owns, List.eq_nil_of_length_eq_zero htags.symm,
        List.eq_nil_of_length_eq_zero hchildren.symm] at howns
      simp at howns

end Linked

/-! ### What is below a node -/

open Classical in
/-- Number of nodes below a node. -/
noncomputable def below (forest : Forest) (i : Nat) : Nat :=
  ((Finset.range forest.size).filter fun j => Relation.TransGen forest.Owns i j).card

theorem isSome_data (hi : i < forest.size) : (forest.data? i).isSome = true := by
  have hsize : i < forest.entries.size := hi
  rw [data?, Array.getElem?_eq_getElem hsize]
  rfl

theorem lt_of_tree {t : Tree} (ht : forest.tree? i = some t) : i < forest.size := by
  refine Nat.lt_of_not_le fun hle => ?_
  have hnone : forest.data? i = none := by rw [data?, Array.getElem?_eq_none hle, Option.map_none]
  unfold tree? at ht
  cases hn : forest.size with
  | zero =>
    rw [hn, treeTo] at ht
    cases ht
  | succ n =>
    rw [hn, treeTo, hnone] at ht
    cases ht

namespace WellFormed

variable (h : forest.WellFormed)
include h

/-- There are fewer nodes below a node in a list than below the owner. -/
theorem below_lt (howns : forest.Owns i j) : forest.below j < forest.below i := by
  classical
  refine Finset.card_lt_card ⟨fun k hk => ?_, fun hsub => ?_⟩
  · rw [Finset.mem_filter] at hk ⊢
    exact ⟨hk.1, hk.2.head howns⟩
  · have hj := hsub (Finset.mem_filter.2
      ⟨Finset.mem_range.2 (h.linked.lt_of_owns howns), .single howns⟩)
    exact h.acyclic j (Finset.mem_filter.1 hj).2

theorem below_lt_size (hi : i < forest.size) : forest.below i < forest.size := by
  classical
  have hlt : forest.below i < (Finset.range forest.size).card := by
    refine Finset.card_lt_card ⟨Finset.filter_subset .., fun hsub => ?_⟩
    exact h.acyclic i (Finset.mem_filter.1 (hsub (Finset.mem_range.2 hi))).2
  rwa [Finset.card_range] at hlt

/-! ### The tree of a node -/

/-- More levels than there are nodes below a node are as good as any other number of them. -/
theorem treeTo_congr {n m : Nat} (hn : forest.below i < n) (hm : forest.below i < m) :
    forest.treeTo n i = forest.treeTo m i := by
  induction n generalizing i m with
  | zero => omega
  | succ n ih =>
    obtain ⟨m, rfl⟩ : ∃ l, m = l + 1 := ⟨m - 1, by omega⟩
    have hlevel : ∀ j, forest.Owns i j → forest.treeTo n j = forest.treeTo m j := by
      intro j howns
      have hlt := h.below_lt howns
      exact ih (by omega) (by omega)
    rw [treeTo, treeTo, List.filterMap_congr fun j hj => hlevel j (.inl hj),
      List.filterMap_congr fun j hj => hlevel j (.inr hj)]

theorem tree?_eq (hi : i < forest.size) : forest.tree? i = (forest.data? i).map fun d =>
    .node i d ((forest.tags i).filterMap forest.tree?)
      ((forest.children i).filterMap forest.tree?) := by
  obtain ⟨n, hn⟩ : ∃ n, forest.size = n + 1 := ⟨forest.size - 1, by omega⟩
  have hlevel : ∀ j, forest.Owns i j → forest.treeTo n j = forest.tree? j := by
    intro j howns
    have hlt := h.below_lt howns
    have hsize := h.below_lt_size hi
    exact h.treeTo_congr (by omega) (h.below_lt_size (h.linked.lt_of_owns howns))
  rw [tree?, hn, treeTo, List.filterMap_congr fun j hj => hlevel j (.inl hj),
    List.filterMap_congr fun j hj => hlevel j (.inr hj)]

/-- Every node has a tree. -/
theorem exists_tree (hi : i < forest.size) : ∃ t, forest.tree? i = some t := by
  obtain ⟨d, hd⟩ := Option.isSome_iff_exists.1 (isSome_data hi)
  exact ⟨_, (h.tree?_eq hi).trans (by rw [hd, Option.map_some])⟩

theorem forall₂_tree {is : List Nat} (his : ∀ i ∈ is, i < forest.size) :
    List.Forall₂ (fun i t => forest.tree? i = some t) is (is.filterMap forest.tree?) := by
  induction is with
  | nil => exact .nil
  | cons i is ih =>
    rw [List.forall_mem_cons] at his
    obtain ⟨t, ht⟩ := h.exists_tree his.1
    rw [List.filterMap_cons_some ht]
    exact .cons ht (ih his.2)

/-- In the tree of a node stands what it says, with the trees of the nodes in its lists. -/
theorem holds_of_tree {t : Tree} (ht : forest.tree? i = some t) : forest.data? i = some t.data ∧
    List.Forall₂ (fun j u => forest.tree? j = some u) (forest.tags i) t.tags ∧
    List.Forall₂ (fun j u => forest.tree? j = some u) (forest.children i) t.children := by
  have hi : i < forest.size := lt_of_tree ht
  rw [h.tree?_eq hi, Option.map_eq_some_iff] at ht
  obtain ⟨d, hd, rfl⟩ := ht
  exact ⟨hd, h.forall₂_tree fun j hj => h.linked.lt_of_owns (.inl hj),
    h.forall₂_tree fun j hj => h.linked.lt_of_owns (.inr hj)⟩

end WellFormed

end Forest

end Metadoc
