import Metadoc.Forest.Query
import Metadoc.Proofs.Forest.Building
import Mathlib.Data.List.SplitBy
import Mathlib.Data.List.TakeWhile

/-!
# Groups of children

From the first child of a node on, the next child that has a separator before it can be looked up
again and again.  The children up to there are a group.

* `Forest.groups` are the groups of a node;
* `Facets.intersects_afterSeparator` : the flags that are looked for are those of a separator;
* `Forest.Arranged.groups_eq` : the children are cut before each child with a separator before it,
  and `Forest.groups_ofTree` : so are those of a node of a tree.
-/

namespace Metadoc

/-! ### Flags of separators -/

namespace FlagSet

theorem intersects_union (a b s : FlagSet) :
    (a.union b).intersects s = (a.intersects s || b.intersects s) := by
  rw [Bool.eq_iff_iff]
  simp only [intersects, union, bne_iff_ne, ne_eq, Bool.or_eq_true, BitVec.and_comm _ s.bits,
    BitVec.and_or_distrib_left]
  exact (not_congr BitVec.or_eq_zero_iff).trans not_and_or

theorem intersects_ofList (fs : List Flag) (s : FlagSet) :
    (ofList fs).intersects s = fs.any s.contains := by
  have hcontains (f : Flag) : (single f).intersects s = s.contains f := by
    rw [intersects, BitVec.and_comm]
    rfl
  have hfold (a : FlagSet) : (fs.foldl (fun s f => s.union (single f)) a).intersects s =
      (a.intersects s || fs.any s.contains) := by
    induction fs generalizing a with
    | nil => simp
    | cons f fs ih =>
      rw [List.foldl_cons, ih, intersects_union, hcontains, List.any_cons, Bool.or_assoc]
  have hempty : empty.intersects s = false := by simp [intersects, empty]
  rw [ofList, hfold, hempty, Bool.false_or]

theorem contains_afterSeparator : ∀ f : Flag,
    afterSeparator.contains f = (f == .isAfterComma || f == .isAfterSemicolon) := by
  intro f
  cases f <;> decide

end FlagSet

/-- A node has a flag of a separator before it if there is one. -/
theorem Facets.intersects_afterSeparator (facets : Facets) :
    facets.intersects .afterSeparator = facets.precededBy.isSome := by
  rw [intersects, flagSet, FlagSet.intersects_ofList, flags, List.any_filter]
  simp only [FlagSet.contains_afterSeparator]
  cases hsep : facets.precededBy with
  | none => simp [Flag.all, has, hsep]
  | some sep => cases sep <;> simp [Flag.all, has, hsep]

/-! ### Cutting lists -/

section SplitBy

variable {α β : Type}

/-- A list that is cut before some elements begins with a group up to the first of them. -/
theorem splitBy_cons_of_before (p : α → Bool) (a : α) (l : List α) :
    (a :: l).splitBy (fun _ b => !p b) =
      (a :: l.takeWhile (!p ·)) :: (l.dropWhile (!p ·)).splitBy (fun _ b => !p b) := by
  have hkept : ∀ b ∈ l.takeWhile (!p ·), (!p b) = true :=
    List.all_eq_true.1 (List.all_takeWhile (p := (!p ·)))
  have hchain : (a :: l.takeWhile (!p ·)).IsChain fun _ b => (!p b) = true :=
    (List.pairwise_cons.2 ⟨hkept, List.pairwise_of_forall_mem_list fun _ _ => hkept⟩).isChain
  have hcut : ∀ x ∈ (a :: l.takeWhile (!p ·)).getLast?, ∀ y ∈ (l.dropWhile (!p ·)).head?,
      (!p y) = false := fun _ _ y hy => by
    have hhead := List.head?_dropWhile_not (!p ·) l
    rwa [Option.mem_def.1 hy] at hhead
  conv_lhs => rw [← List.takeWhile_append_dropWhile (p := (!p ·)) (l := l)]
  rw [← List.cons_append, List.splitBy_append hcut,
    List.splitBy_of_isChain (List.cons_ne_nil _ _) hchain, List.singleton_append]

/-- Two relations that agree on neighbours cut a list at the same places. -/
theorem splitBy_map_of_isChain {f : α → β} {q : β → β → Bool} {r : α → α → Bool} {l : List α}
    (h : l.IsChain fun a b => q (f a) (f b) = r a b) :
    (l.map f).splitBy q = (l.splitBy r).map (List.map f) := by
  -- Agreement on the whole list is agreement inside the parts and where two of them meet.
  rw [← List.flatten_splitBy r l, List.isChain_flatten (List.nil_notMem_splitBy r l)] at h
  obtain ⟨hinside, hbetween⟩ := h
  refine List.splitBy_eq_iff.2 ⟨?_, ?_, ?_, ?_⟩
  · rw [← List.map_flatten, List.flatten_splitBy]
  · simp
  · refine List.forall_mem_map.2 fun m hm => (List.isChain_map f).2 ?_
    have hrelated := List.isChain_iff_getElem.1 (List.isChain_of_mem_splitBy hm)
    have hagree := List.isChain_iff_getElem.1 (hinside m hm)
    exact List.isChain_iff_getElem.2 fun i hi => (hagree i hi).trans (hrelated i hi)
  · have hcut := List.isChain_iff_getElem.1 (List.isChain_getLast_head_splitBy r l)
    have hagree := List.isChain_iff_getElem.1 hbetween
    refine (List.isChain_map _).2 (List.isChain_iff_getElem.2 fun i hi => ?_)
    obtain ⟨hlast, hhead, hfalse⟩ := hcut i hi
    refine ⟨by simpa using hlast, by simpa using hhead, ?_⟩
    rw [List.getLast_map, List.head_map]
    exact (hagree i hi _ (List.getLast_mem_getLast? hlast) _ (List.head_mem_head? hhead)).trans
      hfalse

end SplitBy

/-! ### Groups -/

namespace Forest

/-- At most `n` groups, from a node on: each ends before the next node that has a separator before
it. -/
def groupsFrom (forest : Forest) : Nat → Option Nat → List (List Nat)
  | 0, _ => []
  | _, none => []
  | n + 1, some i =>
    let next := (forest.links i).next.bind fun j => forest.findWith? j none .afterSeparator
    forest.upTo i next :: groupsFrom forest n next

/-- The children of a node in groups.  There are no more groups than nodes. -/
def groups (forest : Forest) (i : Nat) : List (List Nat) :=
  forest.groupsFrom forest.size (forest.links i).firstChild

variable {forest : Forest} {lists : Lists} {r : Role} {i j : Nat}

namespace Arranged

variable (h : forest.Arranged lists)
include h

theorem upTo_eq {before front after : List Nat}
    (heq : lists r i = before ++ j :: (front ++ after)) :
    forest.upTo j after.head? = j :: front := by
  rw [upTo, h.siblings_eq heq, ← List.cons_append]
  cases after with
  | nil =>
    rw [List.append_nil]
    exact List.takeWhile_eq_self_iff.2 fun _ _ => by simp
  | cons k after =>
    have hnodup : (j :: front ++ k :: after).Nodup := by
      have hall := h.nodup r i
      rw [heq] at hall
      exact hall.of_append_right
    have hapart : ∀ x ∈ j :: front, x ≠ k := fun x hx hxk =>
      List.disjoint_of_nodup_append hnodup hx (hxk ▸ List.mem_cons_self)
    rw [List.takeWhile_append_of_pos fun x hx => by simpa using hapart x hx,
      List.takeWhile_cons_of_neg (by simp), List.append_nil]

theorem next_findWith? {before after : List Nat} (heq : lists r i = before ++ j :: after)
    (flags : FlagSet) : ((forest.links j).next.bind fun k => forest.findWith? k none flags) =
      (after.dropWhile fun k => !(forest.facets k).intersects flags).head? := by
  have hnext : (forest.links j).next = after.head? := congrArg Seat.next (h.place heq)
  rw [hnext, ← List.find?_eq_head?_dropWhile_not fun k => (forest.facets k).intersects flags]
  cases after with
  | nil => rfl
  | cons k after =>
    have hrest : lists r i = (before ++ [j]) ++ k :: (after ++ []) := by simpa using heq
    have hbehind := h.upTo_eq hrest
    rw [List.head?_nil] at hbehind
    rw [List.head?_cons, Option.bind_some, findWith?, hbehind]

theorem groupsFrom_eq {n : Nat} {before after : List Nat} (heq : lists r i = before ++ after)
    (hn : after.length ≤ n) : forest.groupsFrom n after.head? =
      after.splitBy fun _ j => !(forest.facets j).intersects .afterSeparator := by
  induction n generalizing before after with
  | zero =>
    obtain rfl := List.length_eq_zero_iff.1 (Nat.le_zero.1 hn)
    rfl
  | succ n ih =>
    cases after with
    | nil => rfl
    | cons j rest =>
      -- One round finds the first part; the next one begins where that ends.
      let p (k : Nat) : Bool := (forest.facets k).intersects .afterSeparator
      have hcut : rest = rest.takeWhile (!p ·) ++ rest.dropWhile (!p ·) :=
        List.takeWhile_append_dropWhile.symm
      have hgroup : lists r i =
          before ++ j :: (rest.takeWhile (!p ·) ++ rest.dropWhile (!p ·)) := hcut ▸ heq
      have hlength : (rest.dropWhile (!p ·)).length ≤ n :=
        ((List.dropWhile_sublist _).length_le).trans (Nat.le_of_succ_le_succ hn)
      have hbehind : lists r i =
          (before ++ j :: rest.takeWhile (!p ·)) ++ rest.dropWhile (!p ·) := by simpa using hgroup
      rw [List.head?_cons, groupsFrom, h.next_findWith? heq, h.upTo_eq hgroup, ih hbehind hlength]
      exact (splitBy_cons_of_before p j rest).symm

/-- The groups of a node are its children, cut before each that has a separator before it. -/
theorem groups_eq (i : Nat) : forest.groups i = (forest.children i).splitBy fun _ j =>
    !(forest.facets j).intersects .afterSeparator := by
  have hfirst : (forest.links i).firstChild = (lists .child i).head? :=
    congrArg ListEnds.first (h.ends .child i)
  rw [h.children_eq, groups, hfirst]
  exact h.groupsFrom_eq (List.nil_append _).symm (h.length_le .child i)

end Arranged

/-! ### The groups of a tree -/

section OfTree

variable {count : Nat} {root t : Tree} (hnodup : (root.preorder.map Tree.id).Nodup)
  (hlt : ∀ i ∈ root.preorder.map Tree.id, i < count) (strays : List (Nat × NodeData))
  (ht : t ∈ root.preorder)
include hnodup hlt ht

theorem children_ofTree :
    (ofTree count (some root) strays).children t.id = t.children.map Tree.id := by
  rw [(arranged_ofTree hnodup hlt strays).children_eq]
  exact Lists.ofNodes_of_mem hnodup ht

theorem facets_ofTree : (ofTree count (some root) strays).facets t.id = t.data.facets := by
  have hdata : (ofTree count (some root) strays).data? t.id = some t.data :=
    (data?_ofTree ..).trans ((if_pos (hlt t.id (List.mem_map_of_mem ht))).trans
      (congrArg some (Tree.dataAt_of_mem_nodes strays hnodup ht)))
  rw [facets, hdata]
  rfl

/-- The groups of a node of a tree are its children, cut where a separator is before a child. -/
theorem groups_ofTree {cut : Tree → Tree → Bool}
    (hcut : t.children.IsChain fun a b => cut a b = b.data.facets.precededBy.isSome) :
    (ofTree count (some root) strays).groups t.id =
      (t.children.splitBy fun a b => !cut a b).map (List.map Tree.id) := by
  rw [(arranged_ofTree hnodup hlt strays).groups_eq, children_ofTree hnodup hlt strays ht]
  refine splitBy_map_of_isChain (hcut.imp_of_mem_imp fun a b _ hb hcuts => ?_)
  have hmem : b ∈ root.preorder := root.attached_perm_preorder.subset
    (List.mem_cons_of_mem _ (List.mem_flatMap.2 ⟨t, ht, List.mem_append_right _ hb⟩))
  rw [facets_ofTree hnodup hlt strays hmem, Facets.intersects_afterSeparator, hcuts]

end OfTree

end Forest

end Metadoc
