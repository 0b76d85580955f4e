import Metadoc.Forest.Query
import Metadoc.Proofs.Forest.Walks

/-!
# Building forests

A forest is built in steps: nodes are added, what they say is changed, and nodes are put at the ends
of the lists of others.

* `Forest.Edit` is such a step, and `Forest.build` the forest after a list of them;
* `Edit.pushed` and `Edit.said?` say what a list of steps asks for: which nodes it puts in a list,
  and what it makes a node say;
* `Edit.Orderly` says that every node is put in a list at most once, and never below itself;
* `Forest.Arranged.build` : the links that are built are those of the lists that are asked for;
* `Forest.built_build` : so the forest is `Forest.Built` as it is asked for.
-/

namespace Metadoc

namespace Forest

/-- A step in the building of a forest. -/
inductive Edit where
  /-- Adds a node. -/
  | alloc (data : NodeData)
  /-- Changes what a node says. -/
  | assign (node : Nat) (change : NodeData → NodeData)
  /-- Puts a node at the end of a list of another. -/
  | push (role : Role) (owner node : Nat)

/-- The forest after one step more. -/
def apply (forest : Forest) : Edit → Forest
  | .alloc data => forest.alloc data
  | .assign node change => forest.modify node change
  | .push role owner node => forest.push role owner node

/-- The forest that steps build from nothing. -/
def build (edits : List Edit) : Forest := edits.foldl apply {}

@[simp] theorem build_nil : build [] = {} := rfl

@[simp] theorem build_concat (edits : List Edit) (e : Edit) :
    build (edits ++ [e]) = (build edits).apply e := by
  simp [build]

/-! ### What is asked for -/

namespace Edit

variable (edits : List Edit)

/-- What the nodes say when they are added, in order. -/
def allocated : List NodeData :=
  edits.filterMap fun
    | .alloc data => some data
    | _ => none

/-- The changes to what a node says, in order. -/
def assigned (i : Nat) : List (NodeData → NodeData) :=
  edits.filterMap fun
    | .assign node change => if node = i then some change else none
    | _ => none

/-- The nodes that are put in the lists, in order. -/
def pushed : Lists := fun r i =>
  edits.filterMap fun
    | .push role owner node => if r = role ∧ i = owner then some node else none
    | _ => none

/-- What a node says in the end: what it said when it was added, changed by its own changes. -/
def said? (i : Nat) : Option NodeData :=
  (allocated edits)[i]?.map fun data =>
    (assigned edits i).foldl (fun data change => change data) data

/-- Whether a node is put in a list of another. -/
def Owns (i j : Nat) : Prop := ∃ r, j ∈ pushed edits r i

/-- Whether a step may follow others: it is about nodes that have been added, and what is put in a
list is in none yet, and is neither the owner of the list nor above it. -/
def Fits : Edit → Prop
  | .alloc _ => True
  | .assign node _ => node < (allocated edits).length
  | .push _ owner node =>
    owner < (allocated edits).length ∧ node < (allocated edits).length ∧
      (∀ i, ¬Owns edits i node) ∧ ¬Relation.ReflTransGen (Owns edits) node owner

/-- Whether each step may follow those before it. -/
def Orderly : Prop := ∀ before e after, edits = before ++ e :: after → Fits before e

variable {edits} {e : Edit} {i j : Nat}

theorem Orderly.of_concat (h : Orderly (edits ++ [e])) : Orderly edits ∧ Fits edits e :=
  ⟨fun before e' after heq => h before e' (after ++ [e]) (by rw [heq]; simp), h edits e [] rfl⟩

theorem orderly_nil : Orderly [] := fun before e after heq => by cases before <;> cases heq

/-- A step that may follow orderly steps keeps them orderly. -/
theorem Orderly.concat (h : Orderly edits) (he : Fits edits e) : Orderly (edits ++ [e]) := by
  intro before e' after heq
  rcases split_concat heq with ⟨rfl, rfl, -⟩ | ⟨after, -, hold⟩
  · exact he
  · exact h before e' after hold

theorem Orderly.alloc {data : NodeData} (h : Orderly edits) : Orderly (edits ++ [.alloc data]) :=
  h.concat trivial

theorem allocated_concat : allocated (edits ++ [e]) = allocated edits ++ allocated [e] :=
  List.filterMap_append

theorem assigned_concat : assigned (edits ++ [e]) i = assigned edits i ++ assigned [e] i :=
  List.filterMap_append

theorem pushed_concat {r : Role} :
    pushed (edits ++ [e]) r i = pushed edits r i ++ pushed [e] r i :=
  List.filterMap_append

theorem mem_pushed_iff {r : Role} : j ∈ pushed edits r i ↔ .push r i j ∈ edits := by
  simp only [pushed, List.mem_filterMap]
  constructor
  · rintro ⟨e, he, hj⟩
    cases e with
    | push role owner node =>
      dsimp only at hj
      split at hj
      · rename_i hplace
        cases hj
        rw [hplace.1, hplace.2]
        exact he
      · cases hj
    | alloc _ | assign _ _ => cases hj
  · exact fun he => ⟨_, he, if_pos ⟨rfl, rfl⟩⟩

/-- A node that is in no list and has none itself may be put in a list of another. -/
theorem fits_push {r : Role} {owner node : Nat} (howner : owner < (allocated edits).length)
    (hnode : node < (allocated edits).length) (hne : node ≠ owner)
    (hapart : ∀ r i, .push r i node ∉ edits ∧ .push r node i ∉ edits) :
    Fits edits (.push r owner node) := by
  refine ⟨howner, hnode, fun i ⟨r', hmem⟩ => (hapart r' i).1 (mem_pushed_iff.1 hmem), ?_⟩
  intro hbelow
  -- Nothing is below the node, so the owner would have to be the node itself.
  rcases Relation.ReflTransGen.cases_head hbelow with heq | ⟨i, ⟨r', hmem⟩, -⟩
  · exact hne heq
  · exact (hapart r' i).2 (mem_pushed_iff.1 hmem)

theorem pushed_push {r : Role} {owner node : Nat} :
    pushed (edits ++ [.push r owner node]) = (pushed edits).extend r owner [node] := by
  funext r' i
  rw [pushed_concat, Lists.extend]
  by_cases h : r' = r ∧ i = owner
  · simp [pushed, h]
  · simp [pushed, h]

theorem pushed_other (h : pushed [e] = fun _ _ => []) : pushed (edits ++ [e]) = pushed edits := by
  funext r i
  rw [pushed_concat, h, List.append_nil]

theorem Orderly.assigned_eq_nil (h : Orderly edits) (hi : (allocated edits).length ≤ i) :
    assigned edits i = [] := by
  induction edits using List.reverseRecOn with
  | nil => rfl
  | append_singleton edits e ih =>
    obtain ⟨hbefore, hfits⟩ := h.of_concat
    rw [allocated_concat, List.length_append] at hi
    rw [assigned_concat, ih hbefore (by omega), List.nil_append]
    cases e with
    | alloc _ | push _ _ _ => rfl
    | assign node change =>
      have hlt : node < (allocated edits).length := hfits
      have hne : node ≠ i := by omega
      simp [assigned, hne]

theorem Orderly.said?_alloc (h : Orderly edits) (data : NodeData) :
    said? (edits ++ [.alloc data]) i =
      if i = (allocated edits).length then some data else said? edits i := by
  have hassigned : assigned (edits ++ [.alloc data]) i = assigned edits i := by
    rw [assigned_concat]
    exact List.append_nil _
  have hallocated : allocated (edits ++ [.alloc data]) = allocated edits ++ [data] :=
    allocated_concat
  unfold said?
  rw [hassigned, hallocated]
  split
  · rename_i hi
    rw [hi, h.assigned_eq_nil (Nat.le_refl _), List.getElem?_concat_length]
    rfl
  · rename_i hi
    rw [List.getElem?_append]
    split
    · rfl
    · rename_i hle
      rw [List.getElem?_eq_none (l := allocated edits) (by omega), List.getElem?_eq_none]
      simp only [List.length_singleton]
      omega

theorem said?_assign (node : Nat) (change : NodeData → NodeData) :
    said? (edits ++ [.assign node change]) i =
      if node = i then (said? edits i).map change else said? edits i := by
  have hallocated : allocated (edits ++ [.assign node change]) = allocated edits := by
    rw [allocated_concat]
    exact List.append_nil _
  have hassigned : assigned (edits ++ [.assign node change]) i =
      assigned edits i ++ if node = i then [change] else [] := by
    rw [assigned_concat]
    by_cases hi : node = i <;> simp [assigned, hi]
  unfold said?
  rw [hallocated, hassigned]
  split
  · simp only [List.foldl_append, Option.map_map]
    rfl
  · rw [List.append_nil]

theorem said?_push {r : Role} {owner node : Nat} :
    said? (edits ++ [.push r owner node]) i = said? edits i := by
  unfold said?
  rw [allocated_concat, assigned_concat]
  simp [allocated, assigned]

theorem owns_iff : Owns edits i j ↔ j ∈ pushed edits .tag i ∨ j ∈ pushed edits .child i := by
  constructor
  · rintro ⟨r, hj⟩
    cases r
    · exact .inl hj
    · exact .inr hj
  · rintro (hj | hj)
    · exact ⟨.tag, hj⟩
    · exact ⟨.child, hj⟩

theorem owns_push_iff {r : Role} {owner node : Nat} :
    Owns (edits ++ [.push r owner node]) i j ↔ Owns edits i j ∨ i = owner ∧ j = node := by
  simp only [Owns, pushed_push, Lists.mem_extend_iff, List.mem_singleton]
  constructor
  · rintro ⟨r', h | ⟨⟨-, hi⟩, hj⟩⟩
    · exact .inl ⟨r', h⟩
    · exact .inr ⟨hi, hj⟩
  · rintro (⟨r', h⟩ | ⟨hi, hj⟩)
    · exact ⟨r', .inl h⟩
    · exact ⟨r, .inr ⟨⟨rfl, hi⟩, hj⟩⟩

theorem owns_other (h : pushed [e] = fun _ _ => []) : Owns (edits ++ [e]) = Owns edits := by
  unfold Owns
  rw [pushed_other h]

/-- With a node put in a list, what is below another was so before, or it is that node or below it
and the other is the owner of the list or above it. -/
theorem transGen_push {r : Role} {owner node : Nat}
    (hfresh : ¬Relation.ReflTransGen (Owns edits) node owner)
    (h : Relation.TransGen (Owns (edits ++ [.push r owner node])) i j) :
    Relation.TransGen (Owns edits) i j ∨
      Relation.ReflTransGen (Owns edits) i owner ∧ Relation.ReflTransGen (Owns edits) node j := by
  induction h with
  | single hstep =>
    rcases owns_push_iff.1 hstep with hold | ⟨rfl, rfl⟩
    · exact .inl (.single hold)
    · exact .inr ⟨.refl, .refl⟩
  | tail _ hstep ih =>
    rcases owns_push_iff.1 hstep with hold | ⟨rfl, rfl⟩
    · exact ih.imp (·.tail hold) fun ⟨hi, hnode⟩ => ⟨hi, hnode.tail hold⟩
    · rcases ih with hbelow | ⟨-, hnode⟩
      · exact .inr ⟨hbelow.to_reflTransGen, .refl⟩
      · exact absurd hnode hfresh

theorem Orderly.acyclic (h : Orderly edits) : ¬Relation.TransGen (Owns edits) i i := by
  induction edits using List.reverseRecOn generalizing i with
  | nil =>
    intro hbelow
    obtain ⟨j, ⟨r, hj⟩, -⟩ := Relation.TransGen.head'_iff.1 hbelow
    cases hj
  | append_singleton edits e ih =>
    obtain ⟨hbefore, hfits⟩ := h.of_concat
    cases e with
    | alloc data =>
      rw [owns_other rfl]
      exact ih hbefore
    | assign node change =>
      rw [owns_other rfl]
      exact ih hbefore
    | push r owner node =>
      -- A cycle is old, or it goes through the new place: then the owner was below the node.
      intro hbelow
      obtain ⟨-, -, -, hfresh⟩ := hfits
      rcases transGen_push hfresh hbelow with hold | ⟨hi, hnode⟩
      · exact ih hbefore hold
      · exact hfresh (hnode.trans hi)

end Edit

/-! ### What is built -/

variable {forest : Forest} {edits : List Edit} {i j : Nat}

theorem size_alloc (data : NodeData) : (forest.alloc data).size = forest.size + 1 := by
  simp [size, alloc]

@[simp] theorem size_modify (change : NodeData → NodeData) :
    (forest.modify i change).size = forest.size := by
  simp [size, modify]

theorem links_modify (change : NodeData → NodeData) :
    (forest.modify i change).links j = forest.links j := by
  unfold links modify
  rw [Array.getElem?_modify]
  split
  · cases forest.entries[j]? <;> rfl
  · rfl

theorem data?_modify (change : NodeData → NodeData) :
    (forest.modify i change).data? j =
      if i = j then (forest.data? j).map change else forest.data? j := by
  unfold data? modify
  rw [Array.getElem?_modify]
  split
  · cases forest.entries[j]? <;> rfl
  · rfl

theorem data?_push {r : Role} {owner node : Nat} :
    (forest.push r owner node).data? j = forest.data? j := by
  cases r
  · exact data?_pushTag owner node
  · exact data?_pushChild owner node

theorem size_build : (build edits).size = (Edit.allocated edits).length := by
  induction edits using List.reverseRecOn with
  | nil => rfl
  | append_singleton edits e ih =>
    rw [build_concat, Edit.allocated_concat, List.length_append, ← ih]
    cases e with
    | alloc data => exact size_alloc data
    | assign node change => exact size_modify change
    | push r owner node => exact size_push

theorem data?_build (h : Edit.Orderly edits) : (build edits).data? i = Edit.said? edits i := by
  induction edits using List.reverseRecOn with
  | nil => rfl
  | append_singleton edits e ih =>
    obtain ⟨hbefore, -⟩ := h.of_concat
    rw [build_concat]
    cases e with
    | alloc data => rw [apply, data?_alloc, ih hbefore, size_build, hbefore.said?_alloc]
    | assign node change => rw [apply, data?_modify, ih hbefore, Edit.said?_assign]
    | push r owner node => rw [apply, data?_push, ih hbefore, Edit.said?_push]

namespace Arranged

variable {lists : Lists}

theorem alloc (h : forest.Arranged lists) (data : NodeData) :
    (forest.alloc data).Arranged lists where
  ends r i := by rw [links_alloc, h.ends]
  place heq := by rw [links_alloc, h.place heq]
  loose hj := by rw [links_alloc, h.loose hj]
  apart := h.apart
  inside hj := by
    rw [size_alloc]
    exact Nat.lt_succ_of_lt (h.inside hj)

theorem modify (h : forest.Arranged lists) (node : Nat) (change : NodeData → NodeData) :
    (forest.modify node change).Arranged lists where
  ends r i := by rw [links_modify, h.ends]
  place heq := by rw [links_modify, h.place heq]
  loose hj := by rw [links_modify, h.loose hj]
  apart := h.apart
  inside hj := by
    rw [size_modify]
    exact h.inside hj

theorem siblings_eq {r : Role} {before after : List Nat} (h : forest.Arranged lists)
    (heq : lists r i = before ++ j :: after) : forest.siblings j = j :: after := by
  have hlength := h.length_le r i
  rw [heq, List.length_append] at hlength
  exact h.follow_of_split heq (by omega)

/-- The links that are built are those of the lists that are asked for. -/
theorem build (h : Edit.Orderly edits) : (build edits).Arranged (Edit.pushed edits) := by
  induction edits using List.reverseRecOn with
  | nil => exact arranged_of_links fun _ => rfl
  | append_singleton edits e ih =>
    obtain ⟨hbefore, hfits⟩ := h.of_concat
    have hrest := ih hbefore
    rw [build_concat]
    cases e with
    | alloc data =>
      rw [Edit.pushed_other rfl]
      exact hrest.alloc data
    | assign node change =>
      rw [Edit.pushed_other rfl]
      exact hrest.modify node change
    | push r owner node =>
      obtain ⟨howner, hnode, hfresh, -⟩ := hfits
      rw [← size_build] at howner hnode
      rw [Edit.pushed_push]
      exact hrest.push howner hnode fun r i hmem => hfresh i ⟨r, hmem⟩

end Arranged

/-- Whether a forest is as a list of steps asks for. -/
structure Built (edits : List Edit) (forest : Forest) : Prop where
  /-- It has the nodes that were added. -/
  size : forest.size = (Edit.allocated edits).length
  /-- Each of them says what it was made to say. -/
  data : ∀ i, forest.data? i = Edit.said? edits i
  /-- The children of a node are the nodes that were put there, in order. -/
  children : ∀ i, forest.children i = Edit.pushed edits .child i
  /-- So are its tags. -/
  tags : ∀ i, forest.tags i = Edit.pushed edits .tag i
  /-- A node holds on to both ends of its lists, and counts what is in them. -/
  ends : ∀ r i, (forest.links i).ends r = ⟨(Edit.pushed edits r i).head?,
    (Edit.pushed edits r i).getLast?, (Edit.pushed edits r i).length⟩
  /-- A node in a list knows the nodes beside it, of which there is none at the ends. -/
  beside : ∀ r i before j after, Edit.pushed edits r i = before ++ j :: after →
    (forest.links j).prev = before.getLast? ∧ (forest.links j).next = after.head?
  /-- Nodes beside each other know each other. -/
  neighbours : ∀ i j, (forest.links j).prev = some i ↔ (forest.links i).next = some j
  /-- The parent of a node is the one that it was put below. -/
  parent : ∀ i j, (forest.links j).parent = some i ↔ Edit.Owns edits i j
  /-- A node that was put nowhere has no parent, and no node beside it. -/
  loose : ∀ j, (∀ i, ¬Edit.Owns edits i j) → (forest.links j).parent = none ∧
    (forest.links j).prev = none ∧ (forest.links j).next = none
  /-- From a node in a list on, there is the rest of the list. -/
  siblings : ∀ r i before j after, Edit.pushed edits r i = before ++ j :: after →
    forest.siblings j = j :: after
  /-- A node stands in one list, once. -/
  once : ∀ r i, (Edit.pushed edits r i).Nodup ∧
    ∀ r' i', ∀ j ∈ Edit.pushed edits r i, j ∈ Edit.pushed edits r' i' → r' = r ∧ i' = i
  /-- No node stands below itself. -/
  acyclic : ∀ i, ¬Relation.TransGen (Edit.Owns edits) i i

/-- Steps that put each node in a list once at most, and never below itself, build the forest that
they ask for. -/
theorem built_build (edits : List Edit) (h : Edit.Orderly edits) : Built edits (build edits) := by
  have harranged := Arranged.build h
  exact {
    size := size_build
    data := fun i => data?_build h
    children := harranged.children_eq
    tags := harranged.tags_eq
    ends := harranged.ends
    beside := fun r i before j after heq =>
      ⟨congrArg Seat.prev (harranged.place heq), congrArg Seat.next (harranged.place heq)⟩
    neighbours := fun i j => harranged.prev_iff
    parent := fun i j => harranged.parent_iff.trans Edit.owns_iff.symm
    loose := fun j hj => by
      have hplace := harranged.loose fun r i hmem => hj i ⟨r, hmem⟩
      exact ⟨congrArg Seat.parent hplace, congrArg Seat.prev hplace, congrArg Seat.next hplace⟩
    siblings := fun r i before j after heq => harranged.siblings_eq heq
    once := fun r i => ⟨harranged.nodup r i, fun r' i' j hj hj' => harranged.unique hj hj'⟩
    acyclic := fun i => h.acyclic }

/-- Two nodes get children and tags in turn, and one of them says something else in between. -/
theorem built_build_interleaved :
    let edits : List Edit :=
      [.alloc (.plain .main "a"), .alloc (.plain .main "b"), .alloc (.plain .tag "t"),
        .alloc (.plain .main "c"), .push .child 0 1, .alloc (.plain .error "d"), .push .tag 1 2,
        .push .child 0 3, .assign 1 fun data => { data with string := "e" }, .push .child 1 4]
    Edit.Orderly edits ∧ Built edits (build edits) ∧ (build edits).children 0 = [1, 3] ∧
      (build edits).siblings 3 = [3] ∧ (build edits).string? 1 = some "e" := by
  intro edits
  have horderly : Edit.Orderly edits := by
    have h5 : Edit.Orderly (edits.take 5) :=
      Edit.orderly_nil.alloc.alloc.alloc.alloc.concat
        (Edit.fits_push (by decide) (by decide) (by decide) fun r i => by simp)
    have h7 : Edit.Orderly (edits.take 7) :=
      h5.alloc.concat
        (Edit.fits_push (by decide) (by decide) (by decide) fun r i => by simp [edits])
    have h9 : Edit.Orderly (edits.take 9) :=
      (h7.concat (Edit.fits_push (by decide) (by decide) (by decide)
        fun r i => by simp [edits])).concat (show 1 < 5 by decide)
    exact h9.concat (Edit.fits_push (by decide) (by decide) (by decide)
      fun r i => by simp [edits])
  exact ⟨horderly, built_build edits horderly, by decide +kernel, by decide +kernel,
    by decide +kernel⟩

end Forest

end Metadoc
