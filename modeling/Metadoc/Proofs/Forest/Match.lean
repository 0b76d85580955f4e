import Metadoc.Forest.Match
import Metadoc.Proofs.Forest.WellFormed
import Metadoc.Proofs.Tree.View

/-!
# Comparing nodes where they stand

* `Forest.OnTrees` says that comparing nodes is comparing their trees, and
  `Forest.deepMatchTo_onTrees` that the comparison along the links of well-formed forests does so;
* `Handle` is a node of a well-formed forest, and `Handle.view` what a comparison sees of it;
* `Handle.deepMatch_decides` : two nodes match exactly when a comparison sees the same of both.
-/

namespace Metadoc

namespace Forest

variable {f g : Forest} {i j : Nat} {o : MatchOptions} {deep : Nat → Nat → Bool}

/-! ### Comparing along the links -/

/-- Whether comparing a node of one forest with the nodes of another is comparing their trees. -/
def OnTrees (f g : Forest) (p : Nat → Nat → Bool) (q : Tree → Tree → Bool) (i : Nat) : Prop :=
  ∀ j a b, f.tree? i = some a → g.tree? j = some b → p i j = q a b

theorem zipMatch_eq {p : Nat → Nat → Bool} {q : Tree → Tree → Bool} {is js : List Nat}
    {as bs : List Tree} (has : List.Forall₂ (fun i a => f.tree? i = some a) is as)
    (hbs : List.Forall₂ (fun j b => g.tree? j = some b) js bs)
    (hpq : ∀ i ∈ is, OnTrees f g p q i) :
    zipMatch p is js = (as.zip bs).all fun x => q x.1 x.2 := by
  unfold zipMatch
  induction has generalizing js bs with
  | nil => rfl
  | @cons i a is as ha _ ih =>
    cases hbs with
    | nil => rfl
    | @cons j b js bs hb hbs =>
      rw [List.zip_cons_cons, List.zip_cons_cons, List.all_cons, List.all_cons,
        hpq i List.mem_cons_self j a b ha hb,
        ih hbs fun k hk => hpq k (List.mem_cons_of_mem _ hk)]

section Levels

variable (hf : f.WellFormed) (hg : g.WellFormed)
include hf hg

theorem sameHead_onTrees :
    OnTrees f g (sameHead f g) (fun a b => Tree.sameHead a.data b.data) i := by
  intro j a b ha hb
  rw [sameHead, (hf.holds_of_tree ha).1, (hg.holds_of_tree hb).1]

theorem childrenMatch_onTrees
    (hdeep : ∀ k ∈ f.children i, OnTrees f g deep (Tree.deepMatch o) k) :
    OnTrees f g (childrenMatch f g deep)
      (fun a b => Tree.childrenMatch o a.children b.children) i := by
  intro j a b ha hb
  obtain ⟨-, -, has⟩ := hf.holds_of_tree ha
  obtain ⟨-, -, hbs⟩ := hg.holds_of_tree hb
  dsimp only
  rw [childrenMatch, Tree.childrenMatch_eq_zip, hf.linked.childCount, hg.linked.childCount,
    has.length_eq, hbs.length_eq, zipMatch_eq has hbs hdeep]

theorem tagMatch_onTrees (hdeep : ∀ k ∈ f.children i, OnTrees f g deep (Tree.deepMatch o) k) :
    OnTrees f g (tagMatch f g o deep) (Tree.tagMatch o) i := by
  intro j a b ha hb
  have hstring : f.string? i = g.string? j ↔ a.data.string = b.data.string := by
    simp [string?, (hf.holds_of_tree ha).1, (hg.holds_of_tree hb).1]
  rw [tagMatch, Tree.tagMatch, childrenMatch_onTrees hf hg hdeep j a b ha hb]
  simp only [hstring]

theorem tagsMatch_onTrees
    (hdeep : ∀ m ∈ f.tags i, ∀ k ∈ f.children m, OnTrees f g deep (Tree.deepMatch o) k) :
    OnTrees f g (tagsMatch f g o deep) (fun a b => Tree.tagsMatch o a.tags b.tags) i := by
  intro j a b ha hb
  obtain ⟨-, has, -⟩ := hf.holds_of_tree ha
  obtain ⟨-, hbs, -⟩ := hg.holds_of_tree hb
  dsimp only
  rw [tagsMatch, Tree.tagsMatch_eq_zip, hf.linked.tagCount, hg.linked.tagCount, has.length_eq,
    hbs.length_eq, zipMatch_eq has hbs fun m hm => tagMatch_onTrees hf hg (hdeep m hm)]

theorem shallowMatchBy_onTrees
    (hdeep : ∀ m ∈ f.tags i, ∀ k ∈ f.children m, OnTrees f g deep (Tree.deepMatch o) k) :
    OnTrees f g (shallowMatchBy f g o deep) (Tree.shallowMatch o) i := by
  intro j a b ha hb
  rw [shallowMatchBy, Tree.shallowMatch, sameHead_onTrees hf hg j a b ha hb,
    tagsMatch_onTrees hf hg hdeep j a b ha hb]

/-- With more levels than there are nodes below it, a node is compared as its tree is. -/
theorem deepMatchTo_onTrees {n : Nat} (hn : f.below i < n) :
    OnTrees f g (deepMatchTo f g o n) (Tree.deepMatch o) i := by
  induction n generalizing i with
  | zero => omega
  | succ n ih =>
    have hlevel : ∀ k, f.Owns i k → f.below k < n := fun k howns => by
      have hlt := hf.below_lt howns
      omega
    -- The arguments of a tag are two levels below, but compared with as much as the children.
    have htags := shallowMatchBy_onTrees (i := i) hf hg fun m hm k hk =>
      ih ((hf.below_lt (.inr hk)).trans (hlevel m (.inl hm)))
    have hchildren := childrenMatch_onTrees (i := i) hf hg fun k hk => ih (hlevel k (.inr hk))
    intro j a b ha hb
    rw [deepMatchTo, htags j a b ha hb, hchildren j a b ha hb]
    cases a
    cases b
    rfl

variable {a b : Tree} (ha : f.tree? i = some a) (hb : g.tree? j = some b)
include ha hb

theorem deepMatch_eq : deepMatch f g o i j = a.deepMatch o b :=
  deepMatchTo_onTrees hf hg (hf.below_lt_size (lt_of_tree ha)) j a b ha hb

theorem shallowMatch_eq : shallowMatch f g o i j = a.shallowMatch o b :=
  shallowMatchBy_onTrees hf hg (fun _ _ _ _ _ _ _ ht hu => deepMatch_eq hf hg ht hu) j a b ha hb

end Levels

end Forest

/-! ### Nodes of well-formed forests -/

/-- A node of a well-formed forest. -/
structure Handle where
  /-- The forest. -/
  forest : Forest
  /-- It is one of trees. -/
  wellFormed : forest.WellFormed
  /-- The number of the node. -/
  index : Nat
  /-- It is one of the forest. -/
  inside : index < forest.size

namespace Handle

/-- Nodes of a well-formed forest. -/
def all {forest : Forest} (h : forest.WellFormed) (is : List Nat)
    (his : ∀ i ∈ is, i < forest.size) : List Handle :=
  is.pmap (fun i hi => ⟨forest, h, i, hi⟩) his

variable (a b : Handle) (o : MatchOptions)

/-- What the node says. -/
def data : NodeData := (a.forest.data? a.index).get (Forest.isSome_data a.inside)

/-- The tags of the node. -/
def tags : List Handle :=
  all a.wellFormed (a.forest.tags a.index) fun _ hj => a.wellFormed.linked.lt_of_owns (.inl hj)

/-- The children of the node. -/
def children : List Handle :=
  all a.wellFormed (a.forest.children a.index) fun _ hj => a.wellFormed.linked.lt_of_owns (.inr hj)

theorem tree_isSome : (a.forest.tree? a.index).isSome = true :=
  Option.isSome_iff_exists.2 (a.wellFormed.exists_tree a.inside)

/-- The node with everything below it. -/
def tree : Tree := (a.forest.tree? a.index).get a.tree_isSome

theorem tree?_eq_some : a.forest.tree? a.index = some a.tree := (Option.some_get _).symm

theorem data_tree : a.tree.data = a.data := by
  have hdata : a.forest.data? a.index = some a.data := (Option.some_get _).symm
  exact Option.some.inj ((a.wellFormed.holds_of_tree a.tree?_eq_some).1.symm.trans hdata)

theorem map_tree_all {forest : Forest} (h : forest.WellFormed) {is : List Nat} {ts : List Tree}
    (his : ∀ i ∈ is, i < forest.size)
    (hts : List.Forall₂ (fun i t => forest.tree? i = some t) is ts) :
    (all h is his).map tree = ts := by
  induction hts with
  | nil => rfl
  | @cons i t is ts ht _ ih =>
    have htree : tree ⟨forest, h, i, his i List.mem_cons_self⟩ = t :=
      Option.some.inj ((tree?_eq_some _).symm.trans ht)
    rw [← ih fun j hj => his j (List.mem_cons_of_mem _ hj), ← htree]
    rfl

theorem tags_tree : a.tree.tags = a.tags.map tree :=
  (map_tree_all _ _ (a.wellFormed.holds_of_tree a.tree?_eq_some).2.1).symm

theorem children_tree : a.tree.children = a.children.map tree :=
  (map_tree_all _ _ (a.wellFormed.holds_of_tree a.tree?_eq_some).2.2).symm

/-- What a comparison sees of the node. -/
def view : View := a.tree.view o

theorem views_children : Tree.views o a.tree.children = a.children.map (·.view o) := by
  rw [Tree.views_eq_map, children_tree, List.map_map]
  rfl

/-- What a comparison sees of a node is what it says, with what it sees of the nodes in its
lists. -/
theorem view_eq : a.view o = .node a.data.kind a.data.string
    (if o.tags then a.tags.map fun t =>
      (t.data.string, if o.arguments then some (t.children.map (·.view o)) else none) else [])
    (a.children.map (·.view o)) := by
  have htags : Tree.tagViews o a.tree.tags = a.tags.map fun t =>
      (t.data.string, if o.arguments then some (t.children.map (·.view o)) else none) := by
    rw [Tree.tagViews_eq_map, tags_tree, List.map_map]
    refine List.map_congr_left fun t _ => ?_
    rw [Function.comp_apply, data_tree, views_children]
  rw [view, Tree.view_eq, data_tree, views_children, htags]

/-- Whether the node and everything below it match another and what is below that. -/
def deepMatch : Bool := a.forest.deepMatch b.forest o a.index b.index

theorem deepMatch_eq : a.deepMatch b o = a.tree.deepMatch o b.tree :=
  Forest.deepMatch_eq a.wellFormed b.wellFormed a.tree?_eq_some b.tree?_eq_some

theorem deepMatch_eq_true_iff : a.deepMatch b o = true ↔ a.view o = b.view o := by
  rw [deepMatch_eq, Tree.deepMatch_eq_true_iff, view, view]

/-- What a comparison sees of a node is its kind and its text, the names of its tags and what it
sees of their arguments as far as these count, and what it sees of its children.  Two nodes match
exactly when it sees the same of both.  So matching is an equivalence, what matches does so where
fewer flags are set, and the arguments of tags do not count where tags do not. -/
theorem deepMatch_decides :
    (∀ (o : MatchOptions) (a : Handle), a.view o = .node a.data.kind a.data.string
      (if o.tags then a.tags.map fun t =>
        (t.data.string, if o.arguments then some (t.children.map (·.view o)) else none) else [])
      (a.children.map (·.view o))) ∧
    (∀ (o : MatchOptions) (a b : Handle), a.deepMatch b o = true ↔ a.view o = b.view o) ∧
    (∀ o : MatchOptions, Equivalence fun a b : Handle => a.deepMatch b o = true) ∧
    (∀ (o o' : MatchOptions) (a b : Handle), o.Includes o' → a.deepMatch b o = true →
      a.deepMatch b o' = true) ∧
    ∀ a b : Handle, a.deepMatch b ⟨false, true⟩ = a.deepMatch b ⟨false, false⟩ := by
  refine ⟨fun o a => a.view_eq o, fun o a b => deepMatch_eq_true_iff a b o, fun o => ?_,
    fun o o' a b h hmatch => ?_, fun a b => ?_⟩
  · have hview : (fun a b : Handle => a.deepMatch b o = true) = fun a b => a.view o = b.view o := by
      funext a b
      exact propext (deepMatch_eq_true_iff a b o)
    rw [hview]
    exact ⟨fun _ => rfl, .symm, .trans⟩
  · rw [deepMatch_eq] at hmatch ⊢
    exact Tree.deepMatch_of_covers h.covers a.tree b.tree hmatch
  · rw [deepMatch_eq, deepMatch_eq]
    exact Tree.deepMatch_congr (.of_not_tags rfl) (.of_not_tags rfl) a.tree b.tree

/-- Two nodes of one forest with a tag of the same name but with different arguments: they match as
long as arguments do not count. -/
theorem deepMatch_decides_arguments :
    let edits : List Forest.Edit :=
      [.alloc (.plain .main "a"), .alloc (.plain .tag "t"), .alloc (.plain .main "x"),
        .alloc (.plain .main "a"), .alloc (.plain .tag "t"), .alloc (.plain .main "y"),
        .push .tag 0 1, .push .tag 3 4, .push .child 1 2, .push .child 4 5]
    ∃ a b : Handle, a.forest = Forest.build edits ∧ a.index = 0 ∧
      b.forest = Forest.build edits ∧ b.index = 3 ∧
      a.view ⟨true, false⟩ = b.view ⟨true, false⟩ ∧ a.deepMatch b ⟨false, false⟩ = true ∧
      a.view ⟨true, true⟩ ≠ b.view ⟨true, true⟩ := by
  intro edits
  have horderly : Forest.Edit.Orderly edits := by
    have h7 : Forest.Edit.Orderly (edits.take 7) :=
      Forest.Edit.orderly_nil.alloc.alloc.alloc.alloc.alloc.alloc.concat
        (Forest.Edit.fits_push (by decide) (by decide) (by decide) fun r i => by simp)
    have h8 : Forest.Edit.Orderly (edits.take 8) :=
      h7.concat (Forest.Edit.fits_push (by decide) (by decide) (by decide)
        fun r i => by simp [edits])
    have h9 : Forest.Edit.Orderly (edits.take 9) :=
      h8.concat (Forest.Edit.fits_push (by decide) (by decide) (by decide)
        fun r i => by simp [edits])
    exact h9.concat (Forest.Edit.fits_push (by decide) (by decide) (by decide)
      fun r i => by simp [edits])
  have hsize : (Forest.build edits).size = 6 := by decide +kernel
  have htags : (Forest.build edits).deepMatch (.build edits) ⟨true, false⟩ 0 3 = true := by
    decide +kernel
  have harguments : (Forest.build edits).deepMatch (.build edits) ⟨true, true⟩ 0 3 = false := by
    decide +kernel
  let a : Handle := ⟨.build edits, horderly.wellFormed, 0, by rw [hsize]; decide⟩
  let b : Handle := ⟨.build edits, horderly.wellFormed, 3, by rw [hsize]; decide⟩
  obtain ⟨-, hview, -, hlax, -⟩ := deepMatch_decides
  refine ⟨a, b, rfl, rfl, rfl, rfl, (hview _ a b).1 htags, hlax ⟨true, false⟩ _ a b ?_ htags,
    fun heq => ?_⟩
  · exact ⟨fun _ => rfl, id⟩
  · exact Bool.false_ne_true (harguments.symm.trans ((hview _ a b).2 heq))

end Handle

end Metadoc
