import Metadoc.Forest.Basic

/-!
# Linked nodes

* `Forest.links_relink_of_ne` : changing the places around one node leaves those around the others;
* `Forest.data?_ofTree` : what the nodes of the forest of a tree say;
* `Forest.hasParent_ofTree` : in the forest of a tree, every node of the tree but its root has a
  parent.
-/

namespace Metadoc

/-! ### Nodes below nodes -/

namespace Tree

mutual

theorem mem_preorder_cases {t x : Tree} (h : x ∈ t.preorder) :
    x = t ∨ ∃ p ∈ t.preorder, x ∈ p.tags ∨ x ∈ p.children := by
  cases t with
  | node i d ts cs =>
    rw [preorder] at h ⊢
    rcases List.mem_cons.1 h with rfl | h
    · exact .inl rfl
    rcases List.mem_append.1 h with h | h
    · rcases mem_preorderAll_cases h with h | ⟨p, hp, hx⟩
      · exact .inr ⟨_, List.mem_cons_self, .inl h⟩
      · exact .inr ⟨p, List.mem_cons_of_mem _ (List.mem_append_left _ hp), hx⟩
    · rcases mem_preorderAll_cases h with h | ⟨p, hp, hx⟩
      · exact .inr ⟨_, List.mem_cons_self, .inr h⟩
      · exact .inr ⟨p, List.mem_cons_of_mem _ (List.mem_append_right _ hp), hx⟩

theorem mem_preorderAll_cases {ts : List Tree} {x : Tree} (h : x ∈ preorderAll ts) :
    x ∈ ts ∨ ∃ p ∈ preorderAll ts, x ∈ p.tags ∨ x ∈ p.children := by
  cases ts with
  | nil => cases h
  | cons t ts =>
    rw [preorderAll] at h ⊢
    rcases List.mem_append.1 h with h | h
    · rcases mem_preorder_cases h with rfl | ⟨p, hp, hx⟩
      · exact .inl List.mem_cons_self
      · exact .inr ⟨p, List.mem_append_left _ hp, hx⟩
    · rcases mem_preorderAll_cases h with h | ⟨p, hp, hx⟩
      · exact .inl (List.mem_cons_of_mem _ h)
      · exact .inr ⟨p, List.mem_append_right _ hp, hx⟩

end

/-- What holds of all that trees and stray nodes say holds of what is found under a number. -/
theorem dataAt_induction {P : NodeData → Prop} {nodes : List Tree} {strays : List (Nat × NodeData)}
    (hnodes : ∀ t ∈ nodes, P t.data) (hstrays : ∀ x ∈ strays, P x.2)
    (hnone : P (.plain .error "")) (i : Nat) : P (dataAt nodes strays i) := by
  unfold dataAt
  cases hfind : nodes.find? (·.id == i) with
  | some t => exact hnodes t (List.mem_of_find?_eq_some hfind)
  | none =>
    cases hlookup : strays.lookup i with
    | none => exact hnone
    | some d =>
      obtain ⟨before, after, rfl, -⟩ := List.lookup_eq_some_iff.1 hlookup
      exact hstrays (i, d) (List.mem_append_right _ List.mem_cons_self)

theorem dataAt_of_mem_nodes {nodes : List Tree} (strays : List (Nat × NodeData)) {t : Tree}
    (hnodup : (nodes.map id).Nodup) (ht : t ∈ nodes) : dataAt nodes strays t.id = t.data := by
  have hfind : nodes.find? (·.id == t.id) = some t := by
    obtain ⟨before, after, rfl⟩ := List.append_of_mem ht
    refine List.find?_eq_some_iff_append.2 ⟨beq_self_eq_true _, before, after, rfl, fun u hu => ?_⟩
    rw [List.map_append, List.nodup_append] at hnodup
    have hne := hnodup.2.2 u.id (List.mem_map_of_mem hu) t.id
      (List.mem_map_of_mem List.mem_cons_self)
    simpa using hne
  rw [dataAt, hfind]
  rfl

theorem dataAt_of_mem {nodes : List Tree} {strays : List (Nat × NodeData)} {x : Nat × NodeData}
    (hnodup : (nodes.map id ++ strays.map Prod.fst).Nodup) (hx : x ∈ strays) :
    dataAt nodes strays x.1 = x.2 := by
  have hnode : nodes.find? (·.id == x.1) = none := by
    refine List.find?_eq_none.2 fun t ht hid => ?_
    rw [beq_iff_eq] at hid
    exact (List.nodup_append.1 hnodup).2.2 _ (List.mem_map_of_mem ht) _ (List.mem_map_of_mem hx) hid
  have hlookup : strays.lookup x.1 = some x.2 := by
    obtain ⟨before, after, rfl⟩ := List.append_of_mem hx
    refine List.lookup_eq_some_iff.2 ⟨before, after, rfl, fun y hy => ?_⟩
    have hstrays := (List.nodup_append.1 hnodup).2.1
    rw [List.map_append, List.nodup_append] at hstrays
    have hne :=
      hstrays.2.2 y.1 (List.mem_map_of_mem hy) x.1 (List.mem_map_of_mem List.mem_cons_self)
    exact bne_iff_ne.2 hne.symm
  rw [dataAt, hnode, hlookup]
  rfl

end Tree

namespace Forest

variable {forest : Forest} {f : Links → Links} {i j : Nat}

/-- Whether a node stands in a list of another. -/
def HasParent (forest : Forest) (i : Nat) : Prop := (forest.links i).parent.isSome = true

@[simp] theorem size_relink : (forest.relink i f).size = forest.size := by simp [size, relink]

theorem links_relink_of_ne (h : j ≠ i) : (forest.relink i f).links j = forest.links j := by
  simp [links, relink, Array.getElem?_modify, h.symm]

theorem links_relink_self (h : i < forest.size) :
    (forest.relink i f).links i = f (forest.links i) := by
  have hi : i < forest.entries.size := h
  simp only [links, relink, Array.getElem?_modify, if_true, Array.getElem?_eq_getElem hi]
  rfl

theorem HasParent.relink (hf : ∀ l : Links, l.parent.isSome = true → (f l).parent.isSome = true)
    (h : forest.HasParent j) : (forest.relink i f).HasParent j := by
  by_cases hj : j = i
  · subst hj
    by_cases hlt : j < forest.size
    · unfold HasParent
      rw [links_relink_self hlt]
      exact hf _ h
    · have hnone : forest.entries[j]? = none := Array.getElem?_eq_none (Nat.not_lt.1 hlt)
      simp [HasParent, links, hnone] at h
  · unfold HasParent
    rwa [links_relink_of_ne hj]

theorem hasParent_relink_self (h : i < forest.size) (hf : ∀ l, (f l).parent.isSome = true) :
    (forest.relink i f).HasParent i := by
  unfold HasParent
  rw [links_relink_self h]
  exact hf _

/-! ### Linking a node to another -/

section Pushing

variable {owner node : Nat}

@[simp] theorem size_pushChild : (forest.pushChild owner node).size = forest.size := by
  unfold pushChild
  dsimp only
  split <;> simp

@[simp] theorem size_pushTag : (forest.pushTag owner node).size = forest.size := by
  unfold pushTag
  dsimp only
  split <;> simp

theorem HasParent.pushChild (h : forest.HasParent i) :
    (forest.pushChild owner node).HasParent i := by
  unfold Forest.pushChild
  dsimp only
  refine relink (fun _ h => h) ?_
  split <;> exact relink (fun _ h => h) (relink (fun _ _ => rfl) h)

theorem HasParent.pushTag (h : forest.HasParent i) : (forest.pushTag owner node).HasParent i := by
  unfold Forest.pushTag
  dsimp only
  refine relink (fun _ h => h) ?_
  split <;> exact relink (fun _ h => h) (relink (fun _ _ => rfl) h)

theorem hasParent_pushChild (h : node < forest.size) :
    (forest.pushChild owner node).HasParent node := by
  unfold pushChild
  dsimp only
  refine .relink (fun _ h => h) ?_
  split <;> exact .relink (fun _ h => h) (hasParent_relink_self h fun _ => rfl)

theorem hasParent_pushTag (h : node < forest.size) :
    (forest.pushTag owner node).HasParent node := by
  unfold pushTag
  dsimp only
  refine .relink (fun _ h => h) ?_
  split <;> exact .relink (fun _ h => h) (hasParent_relink_self h fun _ => rfl)

end Pushing

/-! ### The forest of a tree -/

/-- Steps over a list that keep the size of a forest and the places of its nodes, and put each
node of the list in its place, put all of them there. -/
theorem foldl_hasParent {α : Type} {step : Forest → α → Forest} {P : α → Nat → Prop}
    (hsize : ∀ g a, (step g a).size = g.size)
    (hkeep : ∀ g a i, HasParent g i → HasParent (step g a) i)
    (hput : ∀ g a i, P a i → i < g.size → HasParent (step g a) i) (as : List α) :
    ∀ g : Forest, (as.foldl step g).size = g.size ∧
      (∀ i, HasParent g i → HasParent (as.foldl step g) i) ∧
      ∀ a ∈ as, ∀ i, P a i → i < g.size → HasParent (as.foldl step g) i := by
  induction as with
  | nil => intro g; exact ⟨rfl, fun _ h => h, by simp⟩
  | cons a as ih =>
    intro g
    obtain ⟨hs, hk, hp⟩ := ih (step g a)
    refine ⟨hs.trans (hsize g a), fun i h => hk i (hkeep g a i h), fun b hb i hi hlt => ?_⟩
    rcases List.mem_cons.1 hb with rfl | hb
    · exact hk i (hput g b i hi hlt)
    · exact hp b hb i hi (by rwa [hsize])

theorem foldl_pushTag (owner : Nat) (ts : List Tree) (g : Forest) :
    let linked := ts.foldl (fun f t => f.pushTag owner t.id) g
    linked.size = g.size ∧ (∀ i, HasParent g i → HasParent linked i) ∧
      ∀ t ∈ ts, ∀ i, t.id = i → i < g.size → HasParent linked i := by
  refine foldl_hasParent (P := fun t i => t.id = i) (fun _ _ => size_pushTag)
    (fun _ _ _ h => h.pushTag) (fun g t i hi hlt => ?_) ts g
  subst hi
  exact hasParent_pushTag hlt

theorem foldl_pushChild (owner : Nat) (ts : List Tree) (g : Forest) :
    let linked := ts.foldl (fun f t => f.pushChild owner t.id) g
    linked.size = g.size ∧ (∀ i, HasParent g i → HasParent linked i) ∧
      ∀ t ∈ ts, ∀ i, t.id = i → i < g.size → HasParent linked i := by
  refine foldl_hasParent (P := fun t i => t.id = i) (fun _ _ => size_pushChild)
    (fun _ _ _ h => h.pushChild) (fun g t i hi hlt => ?_) ts g
  subst hi
  exact hasParent_pushChild hlt

theorem foldl_link (nodes : List Tree) (g : Forest) :
    (nodes.foldl link g).size = g.size ∧
      (∀ i, HasParent g i → HasParent (nodes.foldl link g) i) ∧
      ∀ p ∈ nodes, ∀ i, (∃ x, (x ∈ p.tags ∨ x ∈ p.children) ∧ x.id = i) → i < g.size →
        HasParent (nodes.foldl link g) i := by
  refine foldl_hasParent (fun g p => ?_) (fun g p i h => ?_) (fun g p i hx hlt => ?_) nodes g
  · exact (foldl_pushChild ..).1.trans (foldl_pushTag ..).1
  · exact (foldl_pushChild ..).2.1 i ((foldl_pushTag ..).2.1 i h)
  · obtain ⟨x, hx | hx, hi⟩ := hx
    · exact (foldl_pushChild ..).2.1 i ((foldl_pushTag ..).2.2 x hx i hi hlt)
    · refine (foldl_pushChild ..).2.2 x hx i hi ?_
      rwa [(foldl_pushTag ..).1]

theorem size_foldl_alloc (data : Nat → NodeData) (is : List Nat) (g : Forest) :
    (is.foldl (fun f i => f.alloc (data i)) g).size = g.size + is.length := by
  induction is generalizing g with
  | nil => rfl
  | cons i is ih =>
    rw [List.foldl_cons, ih]
    simp [size, alloc]
    omega

theorem size_ofTree (count : Nat) (root : Option Tree) (strays : List (Nat × NodeData)) :
    (ofTree count root strays).size = count := by
  unfold ofTree
  dsimp only
  rw [(foldl_link _ _).1, size_foldl_alloc, List.length_range]
  exact Nat.zero_add count

/-! ### What nodes say -/

@[simp] theorem data?_relink : (forest.relink i f).data? j = forest.data? j := by
  unfold data? relink
  rw [Array.getElem?_modify]
  split
  · cases forest.entries[j]? <;> rfl
  · rfl

@[simp] theorem data?_pushChild (owner node : Nat) :
    (forest.pushChild owner node).data? j = forest.data? j := by
  unfold pushChild
  dsimp only
  split <;> simp

@[simp] theorem data?_pushTag (owner node : Nat) :
    (forest.pushTag owner node).data? j = forest.data? j := by
  unfold pushTag
  dsimp only
  split <;> simp

theorem data?_foldl {α : Type} {step : Forest → α → Forest}
    (hstep : ∀ g a, (step g a).data? j = g.data? j) (as : List α) :
    ∀ g : Forest, (as.foldl step g).data? j = g.data? j := by
  induction as with
  | nil => intro g; rfl
  | cons a as ih => intro g; rw [List.foldl_cons, ih, hstep]

theorem data?_link (t : Tree) : (forest.link t).data? j = forest.data? j := by
  unfold link
  dsimp only
  rw [data?_foldl fun _ _ => data?_pushChild .., data?_foldl fun _ _ => data?_pushTag ..]

theorem data?_alloc (d : NodeData) :
    (forest.alloc d).data? j = if j = forest.size then some d else forest.data? j := by
  unfold data? alloc size
  rw [Array.getElem?_push]
  split <;> rfl

theorem data?_foldl_alloc (data : Nat → NodeData) (n : Nat) :
    ((List.range n).foldl (fun (f : Forest) i => f.alloc (data i)) {}).data? j =
      if j < n then some (data j) else none := by
  induction n with
  | zero => rfl
  | succ n ih =>
    have hsize := size_foldl_alloc data (List.range n) {}
    rw [List.length_range, show size {} = 0 from rfl, Nat.zero_add] at hsize
    rw [List.range_succ, List.foldl_append, List.foldl_cons, List.foldl_nil, data?_alloc, hsize, ih]
    by_cases hj : j = n
    · rw [if_pos hj, if_pos (by omega), hj]
    · rw [if_neg hj]
      by_cases hlt : j < n
      · rw [if_pos hlt, if_pos (by omega)]
      · rw [if_neg hlt, if_neg (by omega)]

/-- What a node of the forest of a tree says is what the tree or the list of stray nodes has under
its number. -/
theorem data?_ofTree (count : Nat) (root : Option Tree) (strays : List (Nat × NodeData)) :
    (ofTree count root strays).data? j =
      if j < count then some (Tree.dataAt ((root.map Tree.preorder).getD []) strays j)
      else none := by
  unfold ofTree
  dsimp only
  rw [data?_foldl fun _ _ => data?_link _, data?_foldl_alloc]

/-- In the forest of a tree, every node of the tree but its root has a parent. -/
theorem hasParent_ofTree {count : Nat} {root x : Tree} (strays : List (Nat × NodeData))
    (hx : x ∈ root.preorder) (hne : x ≠ root) (hlt : x.id < count) :
    (ofTree count (some root) strays).HasParent x.id := by
  obtain ⟨p, hp, hbelow⟩ := (Tree.mem_preorder_cases hx).resolve_left hne
  refine (foldl_link _ _).2.2 p hp x.id ⟨x, hbelow, rfl⟩ ?_
  rw [size_foldl_alloc, List.length_range]
  exact Nat.lt_of_lt_of_le hlt (Nat.le_add_left ..)

end Forest

end Metadoc
