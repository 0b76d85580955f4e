import Metadoc.Proofs.Forest.Arranged
import Mathlib.Data.List.Perm.Subperm
import Mathlib.Logic.Relation

/-!
# Walks over a forest

* `Forest.Chain` follows the links from a node to the next one, up to the end of a list;
* `Forest.Walk` follows the links to everything below a node, and to the nodes after it;
* `Forest.Walk.mem_iff` : a walk visits the nodes that can be reached from its first one;
* `Forest.Linked` says that the links of a forest agree with one another, and
  `Forest.Arranged.linked` that those of lists do;
* `Forest.walk_ofTree` : a walk over the forest of a tree visits the nodes of the tree in their
  order, and `Forest.links_ofTree_of_not_mem` : the other nodes are on their own.
-/

namespace Metadoc

namespace Forest

/-! ### Following links -/

/-- Whether a node and those after it in its list are these, and the last one leads to none. -/
inductive Chain (forest : Forest) : Option Nat → List Nat → Prop
  | nil : Chain forest none []
  | cons {i is} (rest : Chain forest (forest.links i).next is) : Chain forest (some i) (i :: is)

/-- Whether a walk visits these nodes and ends: a node, then its tags and its children, each with
what is below them, then the nodes after it in its list. -/
inductive Walk (forest : Forest) : Option Nat → List Nat → Prop
  | done : Walk forest none []
  | visit {i ts cs rest} (tags : Walk forest (forest.links i).firstTag ts)
      (children : Walk forest (forest.links i).firstChild cs)
      (next : Walk forest (forest.links i).next rest) :
      Walk forest (some i) (i :: (ts ++ cs ++ rest))

/-- Whether a node leads to another: to the first of its tags, to the first of its children, or to
the next node in its list. -/
def Leads (forest : Forest) (i j : Nat) : Prop :=
  (forest.links i).firstTag = some j ∨ (forest.links i).firstChild = some j ∨
    (forest.links i).next = some j

/-- Whether nodes that lead to one another lead from one node to another. -/
def Reaches (forest : Forest) : Nat → Nat → Prop := Relation.ReflTransGen forest.Leads

/-- Whether the links of a forest agree with one another. -/
structure Linked (forest : Forest) : Prop where
  /-- Following the links of the tags of a node meets its tags, and ends. -/
  tags : ∀ i, forest.Chain (forest.links i).firstTag (forest.tags i)
  /-- Following the links of the children of a node meets its children, and ends. -/
  children : ∀ i, forest.Chain (forest.links i).firstChild (forest.children i)
  /-- A node holds on to the last of its tags. -/
  lastTag : ∀ i, (forest.links i).lastTag = (forest.tags i).getLast?
  /-- A node holds on to the last of its children. -/
  lastChild : ∀ i, (forest.links i).lastChild = (forest.children i).getLast?
  /-- A node counts its tags. -/
  tagCount : ∀ i, (forest.links i).tagCount = (forest.tags i).length
  /-- A node counts its children. -/
  childCount : ∀ i, (forest.links i).childCount = (forest.children i).length
  /-- The parent of a node is the one in whose lists it stands. -/
  parent : ∀ i j, (forest.links j).parent = some i ↔ j ∈ forest.tags i ∨ j ∈ forest.children i
  /-- The node before a node is the one that it comes next to. -/
  prev : ∀ i j, (forest.links j).prev = some i ↔ (forest.links i).next = some j
  /-- No node stands twice in the lists of another. -/
  apart : ∀ i, (forest.tags i ++ forest.children i).Nodup

variable {forest : Forest}

theorem Walk.exists_reaches {first : Option Nat} {is : List Nat} (h : forest.Walk first is)
    {j : Nat} (hj : j ∈ is) : ∃ i, first = some i ∧ forest.Reaches i j := by
  induction h with
  | done => cases hj
  | @visit i ts cs rest tags children next ihTags ihChildren ihNext =>
    refine ⟨i, rfl, ?_⟩
    simp only [List.mem_cons, List.mem_append] at hj
    obtain rfl | (hj | hj) | hj := hj
    · exact .refl
    · obtain ⟨k, hk, hreach⟩ := ihTags hj
      exact .head (.inl hk) hreach
    · obtain ⟨k, hk, hreach⟩ := ihChildren hj
      exact .head (.inr (.inl hk)) hreach
    · obtain ⟨k, hk, hreach⟩ := ihNext hj
      exact .head (.inr (.inr hk)) hreach

theorem Walk.exists_of_leads {i j : Nat} {is : List Nat} (h : forest.Walk (some i) is)
    (hlead : forest.Leads i j) : ∃ js ⊆ is, forest.Walk (some j) js := by
  cases h with
  | @visit _ ts cs rest tags children next =>
    rcases hlead with hj | hj | hj
    · exact ⟨ts, by grind, hj ▸ tags⟩
    · exact ⟨cs, by grind, hj ▸ children⟩
    · exact ⟨rest, by grind, hj ▸ next⟩

/-- A walk visits the nodes that can be reached from its first one. -/
theorem Walk.mem_iff {i j : Nat} {is : List Nat} (h : forest.Walk (some i) is) :
    j ∈ is ↔ forest.Reaches i j := by
  constructor
  · intro hj
    obtain ⟨k, hk, hreach⟩ := h.exists_reaches hj
    exact Option.some.inj hk ▸ hreach
  · intro hreach
    unfold Reaches at hreach
    induction hreach using Relation.ReflTransGen.head_induction_on generalizing is with
    | refl =>
      cases h with
      | visit => exact List.mem_cons_self
    | head hlead _ ih =>
      obtain ⟨js, hjs, hwalk⟩ := h.exists_of_leads hlead
      exact hjs (ih hwalk)

/-! ### The links of lists -/

namespace Arranged

variable {lists : Lists} {r : Role} {i j : Nat} (h : forest.Arranged lists)
include h

/-- Following the links from a place in a list meets what comes there, and ends. -/
theorem chain_of_split {before after : List Nat} (heq : lists r i = before ++ after) :
    forest.Chain after.head? after := by
  induction after generalizing before with
  | nil => exact .nil
  | cons j after ih =>
    have hnext : (forest.links j).next = after.head? := congrArg Seat.next (h.place heq)
    exact .cons (hnext ▸ ih (heq.trans (List.append_cons ..)))

theorem chain (r : Role) (i : Nat) : forest.Chain ((forest.links i).ends r).first (lists r i) := by
  rw [h.ends]
  exact h.chain_of_split (List.nil_append _).symm

theorem follow_of_split {n : Nat} {before after : List Nat} (heq : lists r i = before ++ after)
    (hn : after.length ≤ n) : forest.follow n after.head? = after := by
  induction after generalizing before n with
  | nil => cases n <;> rfl
  | cons j after ih =>
    obtain ⟨n, rfl⟩ : ∃ m, n = m + 1 := ⟨n - 1, by rw [List.length_cons] at hn; omega⟩
    have hnext : (forest.links j).next = after.head? := congrArg Seat.next (h.place heq)
    rw [List.head?_cons, follow, hnext,
      ih (heq.trans (List.append_cons ..)) (Nat.le_of_succ_le_succ hn)]

theorem length_le (r : Role) (i : Nat) : (lists r i).length ≤ forest.size := by
  have hsub : lists r i ⊆ List.range forest.size := fun j hj => List.mem_range.2 (h.inside hj)
  simpa using ((h.nodup r i).subperm hsub).length_le

theorem chain_eq (r : Role) (i : Nat) :
    forest.chain ((forest.links i).ends r).first = lists r i := by
  rw [h.ends]
  exact h.follow_of_split (List.nil_append _).symm (h.length_le r i)

theorem tags_eq (i : Nat) : forest.tags i = lists .tag i := h.chain_eq .tag i

theorem children_eq (i : Nat) : forest.children i = lists .child i := h.chain_eq .child i

theorem exists_split (j : Nat) : (∃ r i before after, lists r i = before ++ j :: after) ∨
    (forest.links j).place = {} := by
  by_cases hmem : ∃ r i, j ∈ lists r i
  · obtain ⟨r, i, hj⟩ := hmem
    exact .inl ⟨r, i, List.append_of_mem hj⟩
  · exact .inr (h.loose fun r i hj => hmem ⟨r, i, hj⟩)

theorem parent_iff : (forest.links j).parent = some i ↔ j ∈ lists .tag i ∨ j ∈ lists .child i := by
  constructor
  · intro hparent
    obtain ⟨r, k, before, after, heq⟩ | hempty := h.exists_split j
    · have hmem : j ∈ lists r k := heq ▸ List.mem_append_right _ List.mem_cons_self
      obtain rfl : k = i := Option.some.inj ((h.parent_of_mem hmem).symm.trans hparent)
      cases r
      · exact .inl hmem
      · exact .inr hmem
    · cases (congrArg Seat.parent hempty).symm.trans hparent
  · rintro (hj | hj) <;> exact h.parent_of_mem hj

theorem prev_iff : (forest.links j).prev = some i ↔ (forest.links i).next = some j := by
  constructor
  · intro hprev
    obtain ⟨r, k, before, after, heq⟩ | hempty := h.exists_split j
    · have hlast : before.getLast? = some i :=
        (congrArg Seat.prev (h.place heq)).symm.trans hprev
      obtain ⟨before, rfl⟩ := List.getLast?_eq_some_iff.1 hlast
      rw [List.append_assoc] at heq
      exact congrArg Seat.next (h.place heq)
    · cases (congrArg Seat.prev hempty).symm.trans hprev
  · intro hnext
    obtain ⟨r, k, before, after, heq⟩ | hempty := h.exists_split i
    · have hfirst : after.head? = some j :=
        (congrArg Seat.next (h.place heq)).symm.trans hnext
      obtain ⟨after, rfl⟩ := List.head?_eq_some_iff.1 hfirst
      rw [List.append_cons] at heq
      have hprev : (forest.links j).prev = (before ++ [i]).getLast? :=
        congrArg Seat.prev (h.place heq)
      rw [hprev, List.getLast?_concat]
    · cases (congrArg Seat.next hempty).symm.trans hnext

/-- The links of lists agree with one another. -/
theorem linked : forest.Linked where
  tags i := h.tags_eq i ▸ h.chain .tag i
  children i := h.children_eq i ▸ h.chain .child i
  lastTag i := h.tags_eq i ▸ congrArg ListEnds.last (h.ends .tag i)
  lastChild i := h.children_eq i ▸ congrArg ListEnds.last (h.ends .child i)
  tagCount i := h.tags_eq i ▸ congrArg ListEnds.count (h.ends .tag i)
  childCount i := h.children_eq i ▸ congrArg ListEnds.count (h.ends .child i)
  parent i j := by
    rw [h.tags_eq, h.children_eq]
    exact h.parent_iff
  prev _ _ := h.prev_iff
  apart i := by
    rw [h.tags_eq, h.children_eq]
    exact h.apart i

end Arranged

/-! ### Walking over a tree -/

namespace Arranged

variable {lists : Lists} (h : forest.Arranged lists)
include h

mutual

/-- A walk from the root of a tree visits its nodes, and goes on with the next tree. -/
theorem walk {t : Tree} (ht : ∀ p ∈ t.preorder, ∀ r, lists r p.id = (p.list r).map Tree.id)
    {rest : List Nat} (hrest : forest.Walk (forest.links t.id).next rest) :
    forest.Walk (some t.id) (t.preorder.map Tree.id ++ rest) := by
  cases t with
  | node i d ts cs =>
    rw [Tree.preorder, List.forall_mem_cons, List.forall_mem_append] at ht
    obtain ⟨hroot, htags, hchildren⟩ := ht
    have htagList : lists .tag i = [] ++ ts.map Tree.id := hroot .tag
    have hchildList : lists .child i = [] ++ cs.map Tree.id := hroot .child
    have hfirstTag : (forest.links i).firstTag = (ts.map Tree.id).head? :=
      (congrArg ListEnds.first (h.ends .tag i)).trans (congrArg List.head? htagList)
    have hfirstChild : (forest.links i).firstChild = (cs.map Tree.id).head? :=
      (congrArg ListEnds.first (h.ends .child i)).trans (congrArg List.head? hchildList)
    rw [Tree.preorder, List.map_cons, List.map_append, List.cons_append]
    exact .visit (hfirstTag ▸ walkAll htags htagList) (hfirstChild ▸ walkAll hchildren hchildList)
      hrest

theorem walkAll {ts : List Tree}
    (hts : ∀ p ∈ Tree.preorderAll ts, ∀ r, lists r p.id = (p.list r).map Tree.id) {r : Role}
    {i : Nat} {before : List Nat} (heq : lists r i = before ++ ts.map Tree.id) :
    forest.Walk (ts.map Tree.id).head? ((Tree.preorderAll ts).map Tree.id) := by
  cases ts with
  | nil => exact .done
  | cons t ts =>
    rw [Tree.preorderAll, List.forall_mem_append] at hts
    rw [List.map_cons] at heq
    have hnext : (forest.links t.id).next = (ts.map Tree.id).head? :=
      congrArg Seat.next (h.place heq)
    have hrest := walkAll hts.2 (heq.trans (List.append_cons ..))
    rw [Tree.preorderAll, List.map_append, List.map_cons, List.head?_cons]
    exact walk hts.1 (hnext ▸ hrest)

end

end Arranged

/-! ### The forest of a tree -/

section OfTree

variable {count : Nat} {root : Tree} (hnodup : (root.preorder.map Tree.id).Nodup)
  (hlt : ∀ i ∈ root.preorder.map Tree.id, i < count) (strays : List (Nat × NodeData))
include hnodup hlt

theorem place_root_ofTree : ((ofTree count (some root) strays).links root.id).place = {} := by
  refine (arranged_ofTree hnodup hlt strays).loose fun r i hmem => ?_
  have hperm := root.attached_perm_preorder.map Tree.id
  rw [List.map_cons] at hperm
  obtain ⟨p, hp, -, hmem⟩ := Lists.mem_ofNodes.1 hmem
  obtain ⟨x, hx, hid⟩ := List.mem_map.1 hmem
  refine (List.nodup_cons.1 (hperm.nodup_iff.2 hnodup)).1 (hid ▸ List.mem_map_of_mem ?_)
  exact List.mem_flatMap.2 ⟨p, hp, Tree.mem_attached hx⟩

/-- A walk from the root visits the nodes of the tree in their order, and ends. -/
theorem walk_ofTree :
    (ofTree count (some root) strays).Walk (some root.id) (root.preorder.map Tree.id) := by
  have hnext : ((ofTree count (some root) strays).links root.id).next = none :=
    congrArg Seat.next (place_root_ofTree hnodup hlt strays)
  rw [← List.append_nil (root.preorder.map Tree.id)]
  refine (arranged_ofTree hnodup hlt strays).walk (fun p hp r => ?_) (hnext ▸ .done)
  exact Lists.ofNodes_of_mem hnodup hp

/-- There is nothing around a node that is not of the tree. -/
theorem links_ofTree_of_not_mem {i : Nat} (hi : i ∉ root.preorder.map Tree.id) :
    (ofTree count (some root) strays).links i = {} := by
  have harranged := arranged_ofTree hnodup hlt strays
  refine Links.eq_empty (harranged.loose fun r k hmem => ?_) fun r => ?_
  · obtain ⟨p, hp, -, hmem⟩ := Lists.mem_ofNodes.1 hmem
    obtain ⟨x, hx, hid⟩ := List.mem_map.1 hmem
    refine hi (hid ▸ List.mem_map_of_mem (root.attached_perm_preorder.subset ?_))
    exact List.mem_cons_of_mem _ (List.mem_flatMap.2 ⟨p, hp, Tree.mem_attached hx⟩)
  · have hnil : Lists.ofNodes root.preorder r i = [] := by
      refine List.eq_nil_iff_forall_not_mem.2 fun j hj => ?_
      obtain ⟨p, hp, hid, -⟩ := Lists.mem_ofNodes.1 hj
      exact hi (hid ▸ List.mem_map_of_mem hp)
    rw [harranged.ends, hnil]
    rfl

end OfTree

end Forest

end Metadoc
