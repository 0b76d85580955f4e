import Metadoc.Proofs.Forest.Linked
import Mathlib.Data.List.Induction
import Mathlib.Data.List.Nodup

/-!
# The lists of a forest

A node of a forest has two lists, its tags and its children, and each of them is kept as links: the
owner holds on to both ends, the nodes in it to their neighbours.

* `Forest.Arranged` says that the links of a forest are those of given lists, and
  `Forest.Arranged.push` that putting a node at the end of a list does that to the links;
* `Forest.arranged_ofTree` : the links of the forest of a tree are those of the lists in the tree.
-/

namespace Metadoc

/-! ### Two kinds of lists -/

/-- Which of its owner's lists a node stands in. -/
inductive Role where
  /-- The tags. -/
  | tag
  /-- The children. -/
  | child
deriving DecidableEq

/-- Where a node stands in a list. -/
structure Seat where
  /-- The owner of the list. -/
  parent : Option Nat := none
  /-- The node before. -/
  prev : Option Nat := none
  /-- The node after. -/
  next : Option Nat := none

/-- What the owner of a list holds on to. -/
structure ListEnds where
  /-- The first node. -/
  first : Option Nat := none
  /-- The last node. -/
  last : Option Nat := none
  /-- Number of nodes. -/
  count : Nat := 0

namespace ListEnds

/-- The ends of a list. -/
def of (is : List Nat) : ListEnds := ⟨is.head?, is.getLast?, is.length⟩

/-- The ends with one node more behind the last one. -/
def push (e : ListEnds) (i : Nat) : ListEnds :=
  ⟨if e.last.isNone then some i else e.first, some i, e.count + 1⟩

theorem push_of (is : List Nat) (i : Nat) : (of is).push i = of (is ++ [i]) := by
  cases is with
  | nil => rfl
  | cons k is => simp [push, of, List.getLast?_cons]

end ListEnds

/-- Where a node stands in a list with one node more: it is the new one, or it stood there. -/
theorem split_concat {α : Type} {is before after : List α} {i j : α}
    (h : is ++ [i] = before ++ j :: after) :
    (j = i ∧ before = is ∧ after = []) ∨
      ∃ after', after = after' ++ [i] ∧ is = before ++ j :: after' := by
  rcases List.eq_nil_or_concat' after with rfl | ⟨after, k, rfl⟩
  · obtain ⟨rfl, hj⟩ := List.append_inj' h rfl
    exact .inl ⟨(List.cons.inj hj).1.symm, rfl, rfl⟩
  · rw [← List.cons_append, ← List.append_assoc] at h
    obtain ⟨rfl, hk⟩ := List.append_inj' h rfl
    exact .inr ⟨after, by rw [(List.cons.inj hk).1], rfl⟩

namespace Links

variable (l : Links)

/-- Where the node stands. -/
def place : Seat := ⟨l.parent, l.prev, l.next⟩

/-- What the node holds on to of one of its lists. -/
def ends : Role → ListEnds
  | .tag => ⟨l.firstTag, l.lastTag, l.tagCount⟩
  | .child => ⟨l.firstChild, l.lastChild, l.childCount⟩

/-- The links with another first node of a list. -/
def withFirst (i : Nat) : Role → Links
  | .tag => { l with firstTag := some i }
  | .child => { l with firstChild := some i }

/-- The links with one node more at the end of a list. -/
def grow (i : Nat) : Role → Links
  | .tag => { l with lastTag := some i, tagCount := l.tagCount + 1 }
  | .child => { l with lastChild := some i, childCount := l.childCount + 1 }

variable {l}

@[simp] theorem place_withFirst (i : Nat) (r : Role) : (l.withFirst i r).place = l.place := by
  cases r <;> rfl

@[simp] theorem place_grow (i : Nat) (r : Role) : (l.grow i r).place = l.place := by
  cases r <;> rfl

theorem ends_withFirst (i : Nat) (r r' : Role) : (l.withFirst i r).ends r' =
    if r' = r then { l.ends r' with first := some i } else l.ends r' := by
  cases r <;> cases r' <;> rfl

theorem ends_grow (i : Nat) (r r' : Role) : (l.grow i r).ends r' =
    if r' = r then ⟨(l.ends r').first, some i, (l.ends r').count + 1⟩ else l.ends r' := by
  cases r <;> cases r' <;> rfl

theorem eq_empty (hplace : l.place = {}) (hends : ∀ r, l.ends r = {}) : l = {} := by
  obtain ⟨parent, firstChild, lastChild, firstTag, lastTag, next, prev, childCount, tagCount⟩ := l
  cases hplace
  cases hends .tag
  cases hends .child
  rfl

end Links

namespace Tree

/-- The nodes of one of the lists of the root. -/
def list (t : Tree) : Role → List Tree
  | .tag => t.tags
  | .child => t.children

/-- The nodes directly below a node. -/
def attached (t : Tree) : List Tree := t.tags ++ t.children

theorem mem_attached {t x : Tree} {r : Role} (h : x ∈ t.list r) : x ∈ t.attached := by
  cases r
  · exact List.mem_append_left _ h
  · exact List.mem_append_right _ h

mutual

/-- Every node of a tree but its root stands directly below one of them. -/
theorem attached_perm_preorder (t : Tree) : (t :: t.preorder.flatMap attached).Perm t.preorder := by
  cases t with
  | node i d ts cs =>
    have htags := attached_perm_preorderAll ts
    have hchildren := attached_perm_preorderAll cs
    rw [preorder, List.flatMap_cons, List.flatMap_append]
    refine .cons _ (.trans ?_ (htags.append hchildren))
    simp only [attached, tags, children, List.append_assoc]
    refine .append_left ts ?_
    rw [← List.append_assoc, ← List.append_assoc]
    exact .append_right _ List.perm_append_comm

theorem attached_perm_preorderAll (ts : List Tree) :
    (ts ++ (preorderAll ts).flatMap attached).Perm (preorderAll ts) := by
  cases ts with
  | nil => exact .nil
  | cons t ts =>
    have hfirst := attached_perm_preorder t
    have hrest := attached_perm_preorderAll ts
    rw [preorderAll, List.flatMap_append]
    refine .trans ?_ (hfirst.append hrest)
    rw [List.cons_append, List.cons_append, ← List.append_assoc, ← List.append_assoc]
    exact .cons _ (.append_right _ List.perm_append_comm)

end

end Tree

/-- The lists of all nodes. -/
def Lists := Role → Nat → List Nat

namespace Lists

/-- The lists with some nodes more at the end of one of them. -/
def extend (lists : Lists) (r : Role) (owner : Nat) (is : List Nat) : Lists :=
  fun r' i => if r' = r ∧ i = owner then lists r' i ++ is else lists r' i

/-- The lists in which the nodes of trees stand. -/
def ofNodes (nodes : List Tree) : Lists :=
  fun r i => nodes.flatMap fun p => if p.id = i then (p.list r).map Tree.id else []

variable {lists : Lists} {r r' : Role} {owner i j : Nat} {is js : List Nat}

theorem extend_self : lists.extend r owner is r owner = lists r owner ++ is :=
  if_pos ⟨rfl, rfl⟩

theorem extend_of_ne (h : ¬(r' = r ∧ i = owner)) : lists.extend r owner is r' i = lists r' i :=
  if_neg h

theorem extend_nil : lists.extend r owner [] = lists := by
  funext r' i
  rw [extend]
  split
  · exact List.append_nil _
  · rfl

theorem extend_append :
    lists.extend r owner (is ++ js) = (lists.extend r owner is).extend r owner js := by
  funext r' i
  by_cases h : r' = r ∧ i = owner
  · obtain ⟨rfl, rfl⟩ := h
    rw [extend_self, extend_self, extend_self, List.append_assoc]
  · rw [extend_of_ne h, extend_of_ne h, extend_of_ne h]

theorem mem_extend_iff : j ∈ lists.extend r owner is r' i ↔
    j ∈ lists r' i ∨ (r' = r ∧ i = owner) ∧ j ∈ is := by
  rw [extend]
  split
  · rename_i h
    simp [h]
  · rename_i h
    simp [h]

theorem mem_ofNodes {nodes : List Tree} :
    j ∈ ofNodes nodes r i ↔ ∃ p ∈ nodes, p.id = i ∧ j ∈ (p.list r).map Tree.id := by
  simp only [ofNodes, List.mem_flatMap]
  refine exists_congr fun p => and_congr_right fun _ => ?_
  split
  · rename_i h
    exact ⟨fun hj => ⟨h, hj⟩, fun hj => hj.2⟩
  · rename_i h
    exact ⟨fun hj => absurd hj List.not_mem_nil, fun hj => absurd hj.1 h⟩

theorem ofNodes_append (nodes nodes' : List Tree) :
    ofNodes (nodes ++ nodes') r i = ofNodes nodes r i ++ ofNodes nodes' r i :=
  List.flatMap_append

theorem ofNodes_concat (nodes : List Tree) (p : Tree) :
    ofNodes (nodes ++ [p]) = ((ofNodes nodes).extend .tag p.id (p.tags.map Tree.id)).extend .child
      p.id (p.children.map Tree.id) := by
  funext r i
  rw [ofNodes_append]
  have hlast : ofNodes [p] r i = if p.id = i then (p.list r).map Tree.id else [] :=
    List.flatMap_singleton ..
  rw [hlast]
  by_cases hi : p.id = i
  · subst hi
    cases r <;> simp [extend, Tree.list]
  · have hne : ¬i = p.id := fun h => hi h.symm
    simp [extend, hi, hne]

/-- Where numbers are distinct, the lists of a node are its own. -/
theorem ofNodes_of_mem {nodes : List Tree} (hnodup : (nodes.map Tree.id).Nodup) {p : Tree}
    (hp : p ∈ nodes) : ofNodes nodes r p.id = (p.list r).map Tree.id := by
  induction nodes with
  | nil => cases hp
  | cons q nodes ih =>
    rw [List.map_cons, List.nodup_cons] at hnodup
    have hcons : ofNodes (q :: nodes) r p.id =
        (if q.id = p.id then (q.list r).map Tree.id else []) ++ ofNodes nodes r p.id :=
      List.flatMap_cons
    rw [hcons]
    rcases List.mem_cons.1 hp with rfl | hp
    · have hrest : ofNodes nodes r p.id = [] := by
        refine List.eq_nil_iff_forall_not_mem.2 fun j hj => ?_
        obtain ⟨q, hq, hid, -⟩ := mem_ofNodes.1 hj
        exact hnodup.1 (hid ▸ List.mem_map_of_mem hq)
      rw [if_pos rfl, hrest, List.append_nil]
    · have hne : ¬q.id = p.id := fun h => hnodup.1 (h ▸ List.mem_map_of_mem hp)
      rw [if_neg hne, List.nil_append, ih hnodup.2 hp]

end Lists

namespace Forest

/-! ### Linking one more node -/

/-- Puts a node at the end of one of the lists of another. -/
def push (forest : Forest) : Role → Nat → Nat → Forest
  | .tag => forest.pushTag
  | .child => forest.pushChild

variable {forest : Forest} {f : Links → Links} {r r' : Role} {owner node i j : Nat}

theorem links_relink : (forest.relink i f).links j =
    if j = i ∧ i < forest.size then f (forest.links i) else forest.links j := by
  split
  · rename_i h
    rw [h.1, links_relink_self h.2]
  · rename_i h
    by_cases hj : j = i
    · have hnone : forest.entries[i]? = none :=
        Array.getElem?_eq_none (Nat.not_lt.1 fun hlt => h ⟨hj, hlt⟩)
      simp [links, relink, hj, Array.getElem?_modify, hnone]
    · exact links_relink_of_ne hj

theorem place_relink_of_eq (hf : ∀ l, (f l).place = l.place) :
    ((forest.relink i f).links j).place = (forest.links j).place := by
  rw [links_relink]
  split
  · rename_i h
    rw [hf, h.1]
  · rfl

theorem ends_relink_of_eq (hf : ∀ l, (f l).ends r = l.ends r) :
    ((forest.relink i f).links j).ends r = (forest.links j).ends r := by
  rw [links_relink]
  split
  · rename_i h
    rw [hf, h.1]
  · rfl

theorem ends_relink {g : ListEnds → ListEnds} (howner : owner < forest.size)
    (hf : ∀ l, (f l).ends r' = if r' = r then g (l.ends r') else l.ends r') :
    ((forest.relink owner f).links i).ends r' =
      if r' = r ∧ i = owner then g ((forest.links owner).ends r)
      else (forest.links i).ends r' := by
  by_cases hi : i = owner
  · subst hi
    rw [links_relink_self howner, hf]
    by_cases hr : r' = r
    · rw [if_pos hr, if_pos ⟨hr, rfl⟩, hr]
    · rw [if_neg hr, if_neg fun h => hr h.1]
  · rw [links_relink_of_ne hi, if_neg fun h => hi h.2]

/-- Puts a node behind the last one of a list, whose owner does not hold on to it yet. -/
def join (forest : Forest) (r : Role) (owner node : Nat) : Forest :=
  let last := ((forest.links owner).ends r).last
  let forest := forest.relink node fun l =>
    { l with parent := some owner, prev := last, next := none }
  match last with
  | some last => forest.relink last fun l => { l with next := some node }
  | none => forest.relink owner fun l => l.withFirst node r

theorem push_eq :
    forest.push r owner node = (forest.join r owner node).relink owner fun l => l.grow node r := by
  cases r <;> rfl

@[simp] theorem size_join : (forest.join r owner node).size = forest.size := by
  unfold join
  dsimp only
  split <;> simp

@[simp] theorem size_push : (forest.push r owner node).size = forest.size := by
  rw [push_eq, size_relink, size_join]

/-- The new node stands behind the one that was last, and the others stand where they stood. -/
theorem place_push (hnode : node < forest.size)
    (hlast : ∀ k ∈ ((forest.links owner).ends r).last, k < forest.size ∧ k ≠ node) :
    ((forest.push r owner node).links j).place =
      if j = node then ⟨some owner, ((forest.links owner).ends r).last, none⟩
      else if ((forest.links owner).ends r).last = some j then
        { (forest.links j).place with next := some node }
      else (forest.links j).place := by
  rw [push_eq, place_relink_of_eq fun l => l.place_grow node r]
  unfold join
  cases h : ((forest.links owner).ends r).last with
  | none =>
    dsimp only
    rw [place_relink_of_eq fun l => l.place_withFirst node r, links_relink]
    by_cases hj : j = node
    · rw [if_pos ⟨hj, hnode⟩, if_pos hj]
      rfl
    · rw [if_neg fun hj' => hj hj'.1, if_neg hj, if_neg (Option.some_ne_none j).symm]
  | some k =>
    obtain ⟨hk, hne⟩ := hlast k h
    dsimp only
    rw [links_relink, size_relink]
    by_cases hjk : j = k
    · subst hjk
      rw [if_pos ⟨rfl, hk⟩, if_neg hne, if_pos rfl, links_relink_of_ne hne]
      rfl
    · rw [if_neg fun hj => hjk hj.1, if_neg fun hj => hjk (Option.some.inj hj).symm, links_relink]
      by_cases hj : j = node
      · rw [if_pos ⟨hj, hnode⟩, if_pos hj]
        rfl
      · rw [if_neg fun hj' => hj hj'.1, if_neg hj]

theorem ends_join (howner : owner < forest.size) :
    let ends := (forest.links owner).ends r
    ((forest.join r owner node).links i).ends r' =
      if r' = r ∧ i = owner then
        { ends with first := if ends.last.isNone then some node else ends.first }
      else (forest.links i).ends r' := by
  -- Giving the new node its place leaves all lists as they are.
  have hplaced (last : Option Nat) (k : Nat) (r' : Role) : ((forest.relink node fun l =>
      { l with parent := some owner, prev := last, next := none }).links k).ends r' =
        (forest.links k).ends r' :=
    ends_relink_of_eq fun l => by cases r' <;> rfl
  intro ends
  unfold join
  cases h : ((forest.links owner).ends r).last with
  | none =>
    dsimp only
    rw [ends_relink (g := fun e => { e with first := some node }) (by rwa [size_relink])
      (fun l => l.ends_withFirst node r r'), hplaced, hplaced]
    simp [ends, h]
  | some k =>
    dsimp only
    rw [ends_relink_of_eq (fun l => by cases r' <;> rfl), hplaced]
    split
    · rename_i hi
      rw [hi.1, hi.2]
      simp only [ends, Option.isNone_some, Bool.false_eq_true, if_false]
      rw [← h]
    · rfl

theorem ends_push (howner : owner < forest.size) :
    ((forest.push r owner node).links i).ends r' =
      if r' = r ∧ i = owner then ((forest.links owner).ends r).push node
      else (forest.links i).ends r' := by
  rw [push_eq, ends_relink (g := fun e => ⟨e.first, some node, e.count + 1⟩) (by rwa [size_join])
    (fun l => l.ends_grow node r r'), ends_join howner, ends_join howner,
    if_pos (And.intro rfl rfl)]
  split <;> rfl

/-! ### Lists as links -/

/-- Whether the links of a forest are those of the lists in which its nodes stand. -/
structure Arranged (forest : Forest) (lists : Lists) : Prop where
  /-- Owners hold on to the ends of their lists. -/
  ends : ∀ r i, (forest.links i).ends r = ListEnds.of (lists r i)
  /-- A node in a list knows its owner and its neighbours. -/
  place : ∀ {r i before j after}, lists r i = before ++ j :: after →
    (forest.links j).place = ⟨some i, before.getLast?, after.head?⟩
  /-- A node in no list knows nobody. -/
  loose : ∀ {j}, (∀ r i, j ∉ lists r i) → (forest.links j).place = {}
  /-- A node stands in one list of its owner, once. -/
  apart : ∀ i, (lists .tag i ++ lists .child i).Nodup
  /-- Nodes of the forest stand in the lists. -/
  inside : ∀ {r i j}, j ∈ lists r i → j < forest.size

namespace Arranged

variable {lists : Lists} (h : forest.Arranged lists)
include h

theorem nodup (r : Role) (i : Nat) : (lists r i).Nodup := by
  cases r
  · exact (h.apart i).of_append_left
  · exact (h.apart i).of_append_right

theorem parent_of_mem (hj : j ∈ lists r i) : (forest.links j).parent = some i := by
  obtain ⟨before, after, heq⟩ := List.append_of_mem hj
  exact congrArg Seat.parent (h.place heq)

/-- No node stands in two lists. -/
theorem unique {i' : Nat} (hj : j ∈ lists r i) (hj' : j ∈ lists r' i') : r' = r ∧ i' = i := by
  have hi : i' = i := by
    have hparent := h.parent_of_mem hj'
    rw [h.parent_of_mem hj] at hparent
    exact (Option.some.inj hparent).symm
  subst hi
  have hdisjoint := List.disjoint_of_nodup_append (h.apart i')
  cases r <;> cases r'
  · exact ⟨rfl, rfl⟩
  · exact absurd hj' (hdisjoint hj)
  · exact absurd hj (hdisjoint hj')
  · exact ⟨rfl, rfl⟩

theorem getLast?_eq_iff {before after : List Nat} (heq : lists r i = before ++ j :: after) :
    (lists r i).getLast? = some j ↔ after = [] := by
  constructor
  · intro hlast
    have hnodup := h.nodup r i
    rw [heq] at hlast hnodup
    rcases List.eq_nil_or_concat' after with hnil | ⟨after, k, rfl⟩
    · exact hnil
    · -- The node would stand in its own list twice.
      rw [← List.cons_append, ← List.append_assoc, List.getLast?_concat] at hlast
      obtain rfl : k = j := Option.some.inj hlast
      simp [List.nodup_append] at hnodup
  · rintro rfl
    rw [heq, List.getLast?_concat]

theorem lt_of_last {k : Nat} (hfresh : node ∉ lists r owner)
    (hk : k ∈ ((forest.links owner).ends r).last) : k < forest.size ∧ k ≠ node := by
  rw [h.ends] at hk
  have hmem : k ∈ lists r owner := List.mem_of_getLast? hk
  exact ⟨h.inside hmem, fun hne => hfresh (hne ▸ hmem)⟩

theorem place_push_of_ne (hnode : node < forest.size) (hfresh : node ∉ lists r owner)
    (hne : j ≠ node) (hj : j ∉ lists r owner) :
    ((forest.push r owner node).links j).place = (forest.links j).place := by
  have hother : ((forest.links owner).ends r).last ≠ some j := by
    rw [h.ends]
    exact fun hlast => hj (List.mem_of_getLast? hlast)
  rw [place_push hnode fun k => h.lt_of_last hfresh, if_neg hne, if_neg hother]

theorem place_push_self (hnode : node < forest.size) (hfresh : node ∉ lists r owner)
    {before after : List Nat} (heq : lists r owner ++ [node] = before ++ j :: after) :
    ((forest.push r owner node).links j).place =
      ⟨some owner, before.getLast?, after.head?⟩ := by
  rw [place_push hnode fun k => h.lt_of_last hfresh, h.ends, ListEnds.of]
  rcases split_concat heq with ⟨rfl, rfl, rfl⟩ | ⟨after, rfl, hold⟩
  · rw [if_pos rfl]
    rfl
  · have hne : j ≠ node := fun hj => hfresh (by rw [hold, hj]; simp)
    have hlast := h.getLast?_eq_iff hold
    rw [if_neg hne, h.place hold]
    cases after with
    | nil => rw [if_pos (hlast.2 rfl)]; rfl
    | cons k after => rw [if_neg fun hk => List.cons_ne_nil _ _ (hlast.1 hk)]; rfl

/-- Putting a node at the end of a list does that to the links. -/
theorem push (howner : owner < forest.size) (hnode : node < forest.size)
    (hfresh : ∀ r i, node ∉ lists r i) :
    (forest.push r owner node).Arranged (lists.extend r owner [node]) where
  ends r' i := by
    rw [ends_push howner, h.ends]
    split
    · rename_i hi
      rw [hi.1, hi.2, Lists.extend_self, ListEnds.push_of]
    · rename_i hi
      rw [Lists.extend_of_ne hi, h.ends]
  place {r' i before j after} heq := by
    by_cases hi : r' = r ∧ i = owner
    · obtain ⟨rfl, rfl⟩ := hi
      rw [Lists.extend_self] at heq
      exact h.place_push_self hnode (hfresh r' i) heq
    · rw [Lists.extend_of_ne hi] at heq
      have hj : j ∈ lists r' i := heq ▸ List.mem_append_right _ List.mem_cons_self
      rw [h.place_push_of_ne hnode (hfresh r owner) (fun hne => hfresh r' i (hne ▸ hj))
        (fun hmem => hi (h.unique hmem hj)), h.place heq]
  loose {j} hj := by
    have hne : j ≠ node := fun hne => hj r owner (Lists.mem_extend_iff.2 (.inr (by simp [hne])))
    have hold : ∀ r i, j ∉ lists r i := fun r' i hmem =>
      hj r' i (Lists.mem_extend_iff.2 (.inl hmem))
    rw [h.place_push_of_ne hnode (hfresh r owner) hne (hold r owner), h.loose hold]
  apart i := by
    have hnodup := h.apart i
    by_cases hi : i = owner
    · subst hi
      have hperm : (lists.extend r i [node] .tag i ++ lists.extend r i [node] .child i).Perm
          (node :: (lists .tag i ++ lists .child i)) := by
        cases r
        · rw [Lists.extend_self, Lists.extend_of_ne (by simp), List.append_assoc]
          exact List.perm_middle
        · rw [Lists.extend_self, Lists.extend_of_ne (by simp), ← List.append_assoc]
          exact List.perm_append_singleton _ _
      rw [hperm.nodup_iff, List.nodup_cons]
      refine ⟨fun hmem => ?_, hnodup⟩
      exact (List.mem_append.1 hmem).elim (hfresh .tag i) (hfresh .child i)
    · rwa [Lists.extend_of_ne fun h => hi h.2, Lists.extend_of_ne fun h => hi h.2]
  inside {r' i j} hj := by
    rw [size_push]
    rcases Lists.mem_extend_iff.1 hj with hj | ⟨-, hj⟩
    · exact h.inside hj
    · rwa [List.mem_singleton.1 hj]

/-- Putting nodes at the end of a list, one after the other, does that to the links. -/
theorem foldl_push {is : List Nat} (howner : owner < forest.size) (hlt : ∀ i ∈ is, i < forest.size)
    (hnodup : is.Nodup) (hfresh : ∀ i ∈ is, ∀ r' k, i ∉ lists r' k) :
    (is.foldl (fun f i => f.push r owner i) forest).Arranged (lists.extend r owner is) := by
  induction is generalizing forest lists with
  | nil => rwa [Lists.extend_nil]
  | cons i is ih =>
    obtain ⟨hi, hnodup⟩ := List.nodup_cons.1 hnodup
    have hfirst := h.push (r := r) howner (hlt i List.mem_cons_self) (hfresh i List.mem_cons_self)
    rw [List.foldl_cons, ← List.singleton_append, Lists.extend_append]
    refine ih hfirst (by rwa [size_push]) (fun k hk => ?_) hnodup fun k hk r' j hmem => ?_
    · rw [size_push]
      exact hlt k (List.mem_cons_of_mem _ hk)
    · rcases Lists.mem_extend_iff.1 hmem with hmem | ⟨-, hmem⟩
      · exact hfresh k (List.mem_cons_of_mem _ hk) r' j hmem
      · exact hi (List.mem_singleton.1 hmem ▸ hk)

theorem link {t : Tree} (hid : t.id < forest.size)
    (hlt : ∀ i ∈ t.attached.map Tree.id, i < forest.size)
    (hnodup : (t.attached.map Tree.id).Nodup)
    (hfresh : ∀ i ∈ t.attached.map Tree.id, ∀ r k, i ∉ lists r k) :
    (forest.link t).Arranged ((lists.extend .tag t.id (t.tags.map Tree.id)).extend .child t.id
      (t.children.map Tree.id)) := by
  rw [Tree.attached, List.map_append] at hlt hnodup hfresh
  rw [List.forall_mem_append] at hlt hfresh
  have htags := h.foldl_push (r := .tag) hid hlt.1 hnodup.of_append_left hfresh.1
  have hsize : ((t.tags.map Tree.id).foldl (fun f i => f.push .tag t.id i) forest).size =
      forest.size := by
    rw [List.foldl_map]
    exact (foldl_pushTag t.id t.tags forest).1
  rw [← hsize] at hid hlt
  have hlink : forest.link t = (t.children.map Tree.id).foldl (fun f i => f.push .child t.id i)
      ((t.tags.map Tree.id).foldl (fun f i => f.push .tag t.id i) forest) := by
    rw [List.foldl_map, List.foldl_map]
    rfl
  rw [hlink]
  refine htags.foldl_push hid hlt.2 hnodup.of_append_right fun i hi r k hmem => ?_
  rcases Lists.mem_extend_iff.1 hmem with hmem | ⟨-, hmem⟩
  · exact hfresh.2 i hi r k hmem
  · exact List.disjoint_of_nodup_append hnodup hmem hi

end Arranged

theorem arranged_foldl_link (h : forest.Arranged (Lists.ofNodes [])) {nodes : List Tree}
    (hid : ∀ p ∈ nodes, p.id < forest.size)
    (hlt : ∀ i ∈ (nodes.flatMap Tree.attached).map Tree.id, i < forest.size)
    (hnodup : ((nodes.flatMap Tree.attached).map Tree.id).Nodup) :
    (nodes.foldl Forest.link forest).Arranged (Lists.ofNodes nodes) := by
  induction nodes using List.reverseRecOn with
  | nil => exact h
  | append_singleton nodes p ih =>
    rw [List.flatMap_append, List.flatMap_singleton, List.map_append] at hlt hnodup
    rw [List.forall_mem_append] at hid hlt
    have hbefore := ih hid.1 hlt.1 hnodup.of_append_left
    rw [List.foldl_append, Lists.ofNodes_concat]
    rw [← (foldl_link nodes forest).1] at hid hlt
    refine hbefore.link (hid.2 p List.mem_cons_self) hlt.2 hnodup.of_append_right
      fun i hi r k hmem => ?_
    obtain ⟨q, hq, -, hmem⟩ := Lists.mem_ofNodes.1 hmem
    refine List.disjoint_of_nodup_append hnodup ?_ hi
    obtain ⟨x, hx, rfl⟩ := List.mem_map.1 hmem
    exact List.mem_map_of_mem (List.mem_flatMap.2 ⟨q, hq, Tree.mem_attached hx⟩)

theorem links_alloc (d : NodeData) : (forest.alloc d).links j = forest.links j := by
  unfold links alloc
  rw [Array.getElem?_push]
  split
  · rename_i hj
    rw [hj, Array.getElem?_eq_none (Nat.le_refl _)]
    rfl
  · rfl

theorem links_foldl_alloc (data : Nat → NodeData) (is : List Nat) :
    (is.foldl (fun f i => f.alloc (data i)) forest).links j = forest.links j := by
  induction is generalizing forest with
  | nil => rfl
  | cons i is ih => rw [List.foldl_cons, ih, links_alloc]

theorem arranged_of_links (h : ∀ j, forest.links j = {}) : forest.Arranged (Lists.ofNodes []) where
  ends r i := by
    rw [h]
    cases r <;> rfl
  place heq := absurd heq.symm (by simp [Lists.ofNodes])
  loose _ := by
    rw [h]
    rfl
  apart _ := .nil
  inside hj := absurd hj List.not_mem_nil

/-- In the forest of a tree, the nodes stand in the lists in which they stand in the tree. -/
theorem arranged_ofTree {count : Nat} {root : Tree} (hnodup : (root.preorder.map Tree.id).Nodup)
    (hlt : ∀ i ∈ root.preorder.map Tree.id, i < count) (strays : List (Nat × NodeData)) :
    (ofTree count (some root) strays).Arranged (Lists.ofNodes root.preorder) := by
  have hperm := root.attached_perm_preorder.map Tree.id
  rw [List.map_cons] at hperm
  have hbelow := List.nodup_cons.1 (hperm.nodup_iff.2 hnodup)
  have hsize (data : Nat → NodeData) :
      ((List.range count).foldl (fun (f : Forest) i => f.alloc (data i)) {}).size = count := by
    rw [size_foldl_alloc, List.length_range]
    exact Nat.zero_add count
  refine arranged_foldl_link (arranged_of_links fun j => ?_) ?_ ?_ hbelow.2
  · exact links_foldl_alloc _ _
  · rw [hsize]
    exact fun p hp => hlt _ (List.mem_map_of_mem hp)
  · rw [hsize]
    exact fun i hi => hlt i (hperm.subset (List.mem_cons_of_mem _ hi))

end Forest

end Metadoc
