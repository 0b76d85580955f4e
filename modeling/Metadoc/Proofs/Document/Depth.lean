import Metadoc.Proofs.Document.Anchors
import Metadoc.Proofs.Document.Metering

/-!
# How deep trees are

The limit on how deep sets nest bounds the depth of every tree, whatever kinds of sets it nests.

* `Tree.trails` lists the nodes of a tree with the ways that lead to them;
* `Tree.Shallow` bounds these ways, and `Grammar.Run.shallow` says that each level of sets adds one
  child and one tag to them;
* `State.Refuses` says that each set reported to be too deep is that of a node without contents, and
  `Grammar.Run.refuses` that this holds of all that is read;
* `Parse.DepthLimited` puts both together, and `Parse.depthLimited` says it of every document.
-/

namespace Metadoc

open Grammar (maxDepth)

/-! ### Trails -/

/-- A node of a tree with the way that leads to it from the root. -/
structure Trail where
  /-- Number of steps from a node to one of its children. -/
  children : Nat
  /-- Number of steps from a node to one of its tags. -/
  tags : Nat
  /-- Whether the last step leads to a tag. -/
  isTag : Bool
  /-- The node. -/
  node : Tree

namespace Trail

/-- Whether the way to a node takes at most `c` steps to children and `g` to tags. -/
def AtMost (c g : Nat) (x : Trail) : Prop := x.children ≤ c ∧ x.tags ≤ g

/-- Whether a node is as one whose set is refused: it has no contents, its set is not closed, and
its kind is that of an error, or of a tag. -/
def isBarren (x : Trail) : Bool :=
  x.node.isLeaf && x.node.data.facets.closed.isNone &&
    x.node.data.kind == if x.isTag then .tag else .error

end Trail

namespace Tree

mutual

/-- The nodes of a tree with the ways that lead to them, if `c` children and `g` tags lie on the way
to its root. -/
def trails (c g : Nat) (isTag : Bool) : Tree → List Trail
  | node i d ts cs =>
    ⟨c, g, isTag, node i d ts cs⟩ :: (trailsAll c (g + 1) true ts ++ trailsAll (c + 1) g false cs)

/-- The nodes of several trees with the ways that lead to them. -/
def trailsAll (c g : Nat) (isTag : Bool) : List Tree → List Trail
  | [] => []
  | t :: ts => trails c g isTag t ++ trailsAll c g isTag ts

end

mutual

theorem map_node_trails (c g : Nat) (isTag : Bool) (t : Tree) :
    (trails c g isTag t).map Trail.node = t.preorder := by
  cases t with
  | node i d ts cs =>
    simp [trails, preorder, map_node_trailsAll c (g + 1) true ts,
      map_node_trailsAll (c + 1) g false cs]

theorem map_node_trailsAll (c g : Nat) (isTag : Bool) (ts : List Tree) :
    (trailsAll c g isTag ts).map Trail.node = preorderAll ts := by
  cases ts with
  | nil => rfl
  | cons t ts =>
    simp [trailsAll, preorderAll, map_node_trails c g isTag t, map_node_trailsAll c g isTag ts]

end

theorem trails_eq (c g : Nat) (isTag : Bool) (t : Tree) : trails c g isTag t =
    ⟨c, g, isTag, t⟩ ::
      (trailsAll c (g + 1) true t.tags ++ trailsAll (c + 1) g false t.children) := by
  cases t
  rfl

theorem trailsAll_singleton (c g : Nat) (isTag : Bool) (t : Tree) :
    trailsAll c g isTag [t] = trails c g isTag t := List.append_nil _

/-! ### Bounds -/

/-- Whether no way into some trees takes more than `n` steps to children or `k` to tags. -/
def Shallow (n k : Nat) (ts : List Tree) : Prop :=
  ∀ c g isTag, ∀ x ∈ trailsAll c g isTag ts, x.AtMost (c + n) (g + k)

section Shallow

variable {n k : Nat} {t : Tree} {ts : List Tree}

theorem shallow_nil : Shallow n k [] := fun _ _ _ _ hx => nomatch hx

theorem shallow_cons : Shallow n k (t :: ts) ↔ Shallow n k [t] ∧ Shallow n k ts := by
  simp only [Shallow, trailsAll, List.append_nil, List.mem_append, or_imp, forall_and]

theorem Shallow.mono {n' k' : Nat} (h : Shallow n k ts) (hn : n ≤ n') (hk : k ≤ k') :
    Shallow n' k' ts := fun c g isTag x hx =>
  have hle := h c g isTag x hx
  ⟨hle.1.trans (Nat.add_le_add_left hn c), hle.2.trans (Nat.add_le_add_left hk g)⟩

/-- The ways into a tree are those to its root, into its tags and into its children. -/
theorem shallow_singleton : Shallow n k [t] ↔
    (∀ c g, ∀ x ∈ trailsAll c (g + 1) true t.tags, x.AtMost (c + n) (g + k)) ∧
      ∀ c g, ∀ x ∈ trailsAll (c + 1) g false t.children, x.AtMost (c + n) (g + k) := by
  have hroot (c g : Nat) (isTag : Bool) : (⟨c, g, isTag, t⟩ : Trail).AtMost (c + n) (g + k) :=
    ⟨Nat.le_add_right c n, Nat.le_add_right g k⟩
  simp [Shallow, trailsAll, trails_eq, or_imp, forall_and, hroot]

theorem shallow_congr {u : Tree} (htags : u.tags = t.tags) (hchildren : u.children = t.children) :
    Shallow n k [u] ↔ Shallow n k [t] := by
  rw [shallow_singleton, shallow_singleton, htags, hchildren]

/-- A set adds a step to a child. -/
theorem shallow_of_children (htags : t.tags = [])
    (h : t.children = [] ∨ ∃ m, n = m + 1 ∧ Shallow m k t.children) : Shallow n k [t] := by
  refine shallow_singleton.2 ⟨?_, fun c g x hx => ?_⟩
  · rw [htags]
    exact fun _ _ _ hx => nomatch hx
  · rcases h with h | ⟨m, rfl, h⟩
    · rw [h] at hx
      cases hx
    · have hle := h _ _ _ x hx
      exact ⟨by have := hle.1; omega, hle.2⟩

/-- Tags add a step to a tag. -/
theorem shallow_dress (h : Shallow n n [t]) (hts : Shallow n n ts) (pre : String) :
    Shallow n (n + 1) [Grammar.dress pre ts t] := by
  cases t with
  | node i d us cs =>
    refine shallow_singleton.2 ⟨fun c g x hx => ?_, fun c g x hx => ?_⟩
    · have hle := hts _ _ _ x hx
      exact ⟨hle.1, by have := hle.2; omega⟩
    · have hle := (shallow_singleton.1 h).2 c g x hx
      exact ⟨hle.1, hle.2.trans (Nat.le_succ _)⟩

end Shallow

/-! ### Nodes without contents -/

/-- The numbers of the nodes that are as those whose sets are refused. -/
def barrenAll (c g : Nat) (isTag : Bool) (ts : List Tree) : List Nat :=
  ((trailsAll c g isTag ts).filter Trail.isBarren).map (·.node.id)

section Barren

variable {c g : Nat} {isTag : Bool} {t : Tree} {ts : List Tree}

@[simp] theorem barrenAll_nil : barrenAll c g isTag [] = [] := rfl

theorem barrenAll_cons :
    barrenAll c g isTag (t :: ts) = barrenAll c g isTag [t] ++ barrenAll c g isTag ts := by
  simp [barrenAll, trailsAll]

theorem barrenAll_singleton : barrenAll c g isTag [t] =
    (if Trail.isBarren ⟨c, g, isTag, t⟩ then [t.id] else []) ++
      (barrenAll c (g + 1) true t.tags ++ barrenAll (c + 1) g false t.children) := by
  by_cases h : Trail.isBarren ⟨c, g, isTag, t⟩ = true <;>
    simp [barrenAll, trailsAll, trails_eq, h]

theorem barrenAll_dress_perm (htags : t.tags = []) (pre : String) :
    (barrenAll c (g + 1) true ts ++ barrenAll c g isTag [t]).Perm
      (barrenAll c g isTag [Grammar.dress pre ts t]) := by
  cases t with
  | node i d us cs =>
    obtain rfl : us = [] := htags
    rw [barrenAll_singleton, barrenAll_singleton]
    simp only [Grammar.dress, tags, children, barrenAll_nil, List.nil_append]
    rw [← List.append_assoc, ← List.append_assoc]
    exact List.perm_append_comm.append_right _

theorem barrenAll_precede (sep : Option Separator) (t : Tree) :
    barrenAll c g isTag [Grammar.precede sep t] = barrenAll c g isTag [t] := by
  cases t
  rw [barrenAll_singleton, barrenAll_singleton]
  rfl

theorem barrenAll_follow (sep : Separator) (t : Tree) (s : State) :
    barrenAll c g isTag [(Grammar.follow sep t s).value] = barrenAll c g isTag [t] := by
  cases t
  rw [barrenAll_singleton, barrenAll_singleton]
  unfold Grammar.follow
  dsimp only
  split <;> rfl

end Barren

end Tree

/-! ### Between two states -/

namespace State

open Metadoc.Tree (barrenAll)

variable {s s' s'' : State} {isTag : Bool} {ts us : List Tree} {t : Tree}

/-- The nodes that are reported to be too deep between two states are nodes of some trees without
contents, each of them one. -/
def Refuses (s s' : State) (isTag : Bool) (ts : List Tree) : Prop :=
  ∃ new, s'.tooDeep = s.tooDeep ++ new ∧ ∀ c g, new.Subperm (barrenAll c g isTag ts)

namespace Refuses

theorem of_eq (h : s'.tooDeep = s.tooDeep) : Refuses s s' isTag ts :=
  ⟨[], by simp [h], fun _ _ => List.nil_subperm⟩

theorem cons (h : Refuses s s' isTag [t]) (h' : Refuses s' s'' isTag ts) :
    Refuses s s'' isTag (t :: ts) := by
  obtain ⟨new, hnew, hsub⟩ := h
  obtain ⟨new', hnew', hsub'⟩ := h'
  refine ⟨new ++ new', by rw [hnew', hnew, List.append_assoc], fun c g => ?_⟩
  rw [Tree.barrenAll_cons]
  exact (hsub c g).append (hsub' c g)

/-- Steps that report nothing to be too deep may come before. -/
theorem after (h : Refuses s' s'' isTag ts) (heq : s'.tooDeep = s.tooDeep) :
    Refuses s s'' isTag ts := by
  rwa [Refuses, ← heq]

/-- Steps that report nothing to be too deep may come after. -/
theorem before (h : Refuses s s' isTag ts) (heq : s''.tooDeep = s'.tooDeep) :
    Refuses s s'' isTag ts := by
  rwa [Refuses, heq]

theorem precede (h : Refuses s s' isTag [t]) (sep : Option Separator) :
    Refuses s s' isTag [Grammar.precede sep t] := by
  simpa only [Refuses, Tree.barrenAll_precede] using h

theorem follow (h : Refuses s s' isTag [t]) (sep : Separator) :
    Refuses s (Grammar.follow sep t s').state isTag [(Grammar.follow sep t s').value] := by
  simpa only [Refuses, Tree.barrenAll_follow, Grammar.tooDeep_follow] using h

/-- Tags are those of a node. -/
theorem dress (hts : Refuses s s' true ts) (ht : Refuses s' s'' isTag [t]) (htags : t.tags = [])
    (pre : String) : Refuses s s'' isTag [Grammar.dress pre ts t] := by
  obtain ⟨new, hnew, hsub⟩ := hts
  obtain ⟨new', hnew', hsub'⟩ := ht
  refine ⟨new ++ new', by rw [hnew', hnew, List.append_assoc], fun c g => ?_⟩
  exact ((hsub c (g + 1)).append (hsub' c g)).trans (Tree.barrenAll_dress_perm htags pre).subperm

end Refuses

/-- What is reported to be too deep while the set of the node `id` is read: the set itself, and then
it has no contents, or sets in it. -/
def RefusesSet (s : State) (id : Nat) (r : Read SetBody) : Prop :=
  (r.value.refused = true ∧ r.value.children = [] ∧ r.value.closed = none ∧
    r.state.tooDeep = s.tooDeep ++ [id]) ∨
  (r.value.refused = false ∧ Refuses s r.state false r.value.children)

end State

namespace Grammar

open State (Refuses RefusesSet)
open Metadoc.Tree (Shallow)

variable {n : Nat} {s : State}

/-! ### Parts of the grammar -/

/-- How deep the trees are that a part yields with `n` levels of sets. -/
def Part.Shallow (n : Nat) (b : SetBody) : Part → Prop
  | .tag | .tags | .bare .. => Tree.Shallow n n b.children
  | .bracketed .. | .line .. => b.children = [] ∨ ∃ m, n = m + 1 ∧ Tree.Shallow m n b.children
  | _ => Tree.Shallow n (n + 1) b.children

theorem shallow_close (id start : Nat) (kind : NodeKind) (label : Label) (facets : Facets)
    {children : List Tree} (s : State)
    (h : children = [] ∨ ∃ m, n = m + 1 ∧ Shallow m n children) :
    Shallow n n [(close id start kind label facets children s).value] :=
  Tree.shallow_of_children rfl h

theorem shallow_unexpected (n : Nat) (s : State) : Shallow n n [(unexpected s).value] := by
  unfold unexpected
  dsimp only
  split <;> exact shallow_close _ _ _ _ _ _ (.inl rfl)

theorem shallow_untaggable (n : Nat) (ts : List Tree) (s : State) :
    Shallow n n [(untaggable ts s).value] := shallow_close _ _ _ _ _ _ (.inl rfl)

theorem shallow_precede {n k : Nat} {t : Tree} (sep : Option Separator) :
    Shallow n k [precede sep t] ↔ Shallow n k [t] := by
  cases t
  exact Tree.shallow_congr rfl rfl

theorem shallow_follow {n k : Nat} {t : Tree} (sep : Separator) (s : State) :
    Shallow n k [(follow sep t s).value] ↔ Shallow n k [t] := by
  unfold follow
  dsimp only
  split <;> exact Tree.shallow_congr rfl rfl

/-- Each level of sets adds a step to a child and a step to a tag. -/
theorem Run.shallow {part : Part} {r : Read SetBody} (h : Run n part s r) :
    part.Shallow n r.value := by
  induction h with
  | namelessTag _ _ | plainTag _ _ _ | label _ _ => exact shallow_close _ _ _ _ _ _ (.inl rfl)
  | tagWithArguments _ _ _ _ ih | labeledLine _ _ _ _ ih | unlabeled _ _ _ ih =>
    exact shallow_close _ _ _ _ _ _ ih
  | labeledSet _ _ _ _ _ ih =>
    simp only [Part.Shallow, Read.one_value, reportCramped_value]
    exact shallow_close _ _ _ _ _ _ ih
  | tagsEnd _ | entriesEnd _ => exact Tree.shallow_nil
  | tagsCons _ _ _ ihFirst ihRest | lineCons _ _ _ ihFirst ihRest =>
    exact Tree.shallow_cons.2 ⟨ihFirst, ihRest⟩
  | bracketedRefused _ | lineMissing _ | lineRefused _ => exact .inl rfl
  | bracketedClosed _ _ _ ih | bracketedOpen _ _ _ ih | lineRead _ _ ih => exact .inr ⟨_, rfl, ih⟩
  | untaggable _ _ => exact shallow_untaggable _ _ _
  | unexpected _ _ _ => exact shallow_unexpected _ _
  | node _ _ ihTags ihBare => exact Tree.shallow_dress ihBare ihTags _
  | entry _ ih | lineLast _ _ ih => exact ih
  | stray _ _ => exact (shallow_unexpected _ _).mono le_rfl (Nat.le_succ _)
  | extraSeparator _ _ _ ih =>
    exact Tree.shallow_cons.2 ⟨(shallow_unexpected _ _).mono le_rfl (Nat.le_succ _), ih⟩
  | separated _ _ _ _ _ ihFirst ihRest =>
    exact Tree.shallow_cons.2 ⟨(shallow_follow ..).2 ((shallow_precede _).2 ihFirst), ihRest⟩
  | unseparated _ _ _ _ _ ihFirst ihRest =>
    exact Tree.shallow_cons.2 ⟨(shallow_precede _).2 ihFirst, ihRest⟩

/-- What is reported to be too deep while a part is read. -/
def Part.Refuses (s : State) (r : Read SetBody) : Part → Prop
  | .tag | .tags => State.Refuses s r.state true r.value.children
  | .bracketed id _ | .line id _ => s.RefusesSet id r
  | _ => State.Refuses s r.state false r.value.children

theorem tooDeep_behindLabel (s : State) (l : Lexeme) : (s.behindLabel l).tooDeep = s.tooDeep :=
  State.tooDeep_takeLabel _ l s.count

/-- A node whose set is refused has no contents. -/
theorem refuses_close {id : Nat} {r : Read SetBody} {isTag : Bool} {kind : NodeKind}
    {facets : Facets} (h : s.RefusesSet id r)
    (hkind : r.value.refused = true → kind = if isTag then .tag else .error)
    (hclosed : facets.closed = r.value.closed) (start : Nat) (label : Label) :
    Refuses s (close id start kind label facets r.value.children r.state).state isTag
      [(close id start kind label facets r.value.children r.state).value] := by
  rcases h with ⟨hrefused, hchildren, hnone, hreport⟩ | ⟨-, new, hnew, hsub⟩
  · refine ⟨[id], by rw [tooDeep_close, hreport], fun c g => ?_⟩
    have hbarren : Trail.isBarren ⟨c, g, isTag,
        (close id start kind label facets r.value.children r.state).value⟩ = true := by
      simp [Trail.isBarren, close, Tree.isLeaf, Tree.children, Tree.data, hchildren, hclosed, hnone,
        hkind hrefused]
    rw [Tree.barrenAll_singleton, if_pos hbarren]
    exact (List.sublist_append_left _ _).subperm
  · refine ⟨new, by rw [tooDeep_close, hnew], fun c g => (hsub (c + 1) g).trans ?_⟩
    rw [Tree.barrenAll_singleton]
    exact ((List.sublist_append_right _ _).trans (List.sublist_append_right _ _)).subperm

/-- What is read reports sets to be too deep only at nodes without contents. -/
theorem Run.refuses {part : Part} {r : Read SetBody} (h : Run n part s r) : part.Refuses s r := by
  induction h with
  | namelessTag _ _ => exact .of_eq (by simp)
  | @plainTag _ s l _ _ _ => exact .of_eq (by simp [tooDeep_behindLabel])
  | @tagWithArguments _ s l r _ _ _ _ ih =>
    exact (refuses_close ih (fun _ => rfl) rfl _ _).after (by simp [tooDeep_behindLabel])
  | tagsEnd _ | entriesEnd _ => exact .of_eq rfl
  | tagsCons _ _ _ ihFirst ihRest | lineCons _ _ _ ihFirst ihRest => exact ihFirst.cons ihRest
  | bracketedRefused _ => exact .inl ⟨rfl, rfl, rfl, by simp⟩
  | bracketedClosed _ _ _ ih =>
    exact .inr ⟨rfl, (ih.after (State.tooDeep_advance _)).before (State.tooDeep_advance _)⟩
  | bracketedOpen _ _ _ ih =>
    exact .inr ⟨rfl, (ih.after (State.tooDeep_advance _)).before (by simp)⟩
  | lineMissing _ => exact .inr ⟨rfl, .of_eq (by simp)⟩
  | lineRefused _ => exact .inl ⟨rfl, rfl, rfl, by simp⟩
  | lineRead _ _ ih => exact .inr ⟨rfl, ih⟩
  | label _ _ => exact .of_eq (by simp [labeledNode, tooDeep_behindLabel])
  | @labeledSet _ _ _ s l _ r _ _ _ _ _ ih =>
    have hnode : State.Refuses (s.behindLabel l).advance
        (labeledNode s.count l.start l.label r).state false
        [(labeledNode s.count l.start l.label r).value] :=
      refuses_close ih (fun hr => by simp [SetBody.kind, hr]) rfl _ _
    simp only [Part.Refuses, Read.one_value, Read.one_state, reportCramped_value]
    exact (hnode.after (by simp [tooDeep_behindLabel])).before (tooDeep_reportCramped _ _)
  | labeledLine _ _ _ _ ih =>
    exact (refuses_close ih (fun hr => by simp [SetBody.kind, hr]) rfl _ _).after
      (by simp [tooDeep_behindLabel])
  | unlabeled _ _ _ ih =>
    refine (refuses_close ih (fun hr => by simp [SetBody.kind, hr]) rfl _ _).after ?_
    split <;> simp
  | untaggable _ _ => exact .of_eq (by simp)
  | unexpected _ _ _ => exact .of_eq (by simp)
  | node _ bare ihTags ihBare =>
    obtain ⟨htagless, -⟩ := bare.unfollowed _ List.mem_cons_self
    exact ihTags.dress ihBare htagless _
  | entry _ ih | lineLast _ _ ih => exact ih
  | stray _ _ => exact .of_eq (by simp)
  | extraSeparator _ _ _ ih => exact State.Refuses.cons (.of_eq (tooDeep_unexpected _)) ih
  | separated _ _ _ _ _ ihFirst ihRest => exact ((ihFirst.precede _).follow _).cons ihRest
  | unseparated _ _ _ _ _ ihFirst ihRest => exact (ihFirst.precede _).cons ihRest

end Grammar

/-! ### Documents -/

theorem State.tooDeep_begin (source : Source) (pos : Nat) : (begin source pos).tooDeep = [] :=
  tooDeep_reportGap _

namespace Parse

/-- The nodes of the tree with the ways that lead to them from its root. -/
def trails (p : Parse) : List Trail := (p.root.map (Tree.trails 0 0 false)).getD []

/-- Whether the tree of a parse is at most so many children deep, and each set that is reported to
be too deep is one that is refused where the same is read along with a meter, and leaves its node
without contents. -/
structure DepthLimited (p : Parse) (children : Nat) (g : Parse × Meter) : Prop where
  /-- It is what is read along with the meter. -/
  read : g.1 = p
  /-- Each node is on one trail. -/
  nodes : p.trails.map Trail.node = p.nodes
  /-- The way to a node takes at most so many steps to children. -/
  children : ∀ x ∈ p.trails, x.children ≤ children
  /-- It takes at most one step to a tag for each level of sets, and another. -/
  tags : ∀ x ∈ p.trails, x.tags ≤ maxDepth + 1
  /-- There is a report for each node whose set is refused. -/
  reported : (p.diagnostics.filter (·.message = Problem.tooDeep.message)).length =
    (p.trails.filter (·.node.id ∈ g.2.refused)).length
  /-- Such a node has no children. -/
  childless : ∀ x ∈ p.trails, x.node.id ∈ g.2.refused → x.node.children = []
  /-- Its set is not closed. -/
  unclosed : ∀ x ∈ p.trails, x.node.id ∈ g.2.refused → x.node.data.facets.closed = none
  /-- It is an error, or a tag. -/
  kind : ∀ x ∈ p.trails, x.node.id ∈ g.2.refused →
    x.node.data.kind = if x.isTag then .tag else .error

theorem map_node_trails (p : Parse) : p.trails.map Trail.node = p.nodes := by
  unfold trails nodes
  cases p.root with
  | none => rfl
  | some t => exact Tree.map_node_trails 0 0 false t

/-- The ways through a small document: to its root, to a label and to the one inside its set, and
from there to its tag. -/
example : (document ⟨"d", Utf8.ofString "a: (@t b)"⟩).trails.map
    (fun x => (x.children, x.tags, x.isTag)) =
      [(0, 0, false), (1, 0, false), (2, 0, false), (2, 1, true)] := by decide +kernel

/-- The reports that a set is too deep are those with its wording. -/
theorem length_filter_diagnostics (p : Parse) :
    (p.diagnostics.filter (·.message = Problem.tooDeep.message)).length =
      (p.reports.filter (·.problem = .tooDeep)).length := by
  rw [diagnostics, List.filter_map, List.length_map]
  congr 2
  funext r
  have hiff : r.diagnostic.message = Problem.tooDeep.message ↔ r.problem = .tooDeep :=
    ⟨Problem.eq_of_message (by decide), fun h => congrArg Problem.message h⟩
  simp [hiff]

/-- A tree is limited in its depth if the ways into it are, and the nodes that are reported to be
too deep are among those without contents. -/
theorem depthLimited_of_subperm {p : Parse} {n : Nat} {g : Parse × Meter} (hread : g.1 = p)
    (hbound : ∀ x ∈ p.trails, x.AtMost n (maxDepth + 1))
    (hnodup : (p.nodes.map Tree.id).Nodup)
    (hrefused : g.2.refused = (p.reports.filter (·.problem = .tooDeep)).map Report.node)
    (hsub : g.2.refused.Subperm ((p.trails.filter Trail.isBarren).map (·.node.id))) :
    p.DepthLimited n g := by
  have hids : (p.trails.map (·.node.id)).Nodup := by
    rw [← map_node_trails, List.map_map] at hnodup
    exact hnodup
  have hsublist : ((p.trails.filter Trail.isBarren).map (·.node.id)).Sublist
      (p.trails.map (·.node.id)) := List.filter_sublist.map _
  -- Numbers tell nodes apart, so a node with the number of one without contents is that node.
  have hbarren : ∀ x ∈ p.trails, x.node.id ∈ g.2.refused → x.isBarren = true := by
    intro x hx hid
    obtain ⟨y, hy, heq⟩ := List.mem_map.1 (hsub.subset hid)
    obtain ⟨hmem, hyes⟩ := List.mem_filter.1 hy
    rwa [List.inj_on_of_nodup_map hids hmem hx heq] at hyes
  have hcount : ((p.trails.map (·.node.id)).filter (· ∈ g.2.refused)).Perm g.2.refused := by
    have hdistinct : g.2.refused.Nodup := by
      obtain ⟨some, hperm, hsome⟩ := hsub
      exact hperm.nodup_iff.1 (hids.sublist (hsome.trans hsublist))
    refine (List.perm_ext_iff_of_nodup (hids.filter _) hdistinct).2 fun i => ?_
    simp only [List.mem_filter, decide_eq_true_eq, and_iff_right_iff_imp]
    exact fun hi => hsublist.subset (hsub.subset hi)
  have hlooks (x : Trail) (hx : x ∈ p.trails) (hid : x.node.id ∈ g.2.refused) :
      x.node.children = [] ∧ x.node.data.facets.closed = none ∧
        x.node.data.kind = if x.isTag then .tag else .error := by
    have h := hbarren x hx hid
    simpa [Trail.isBarren, Tree.isLeaf, and_assoc] using h
  refine ⟨hread, p.map_node_trails, fun x hx => (hbound x hx).1, fun x hx => (hbound x hx).2, ?_,
    fun x hx hid => (hlooks x hx hid).1, fun x hx hid => (hlooks x hx hid).2.1,
    fun x hx hid => (hlooks x hx hid).2.2⟩
  rw [length_filter_diagnostics, ← List.length_map (f := Report.node), ← hrefused,
    ← hcount.length_eq, List.filter_map, List.length_map]
  rfl

theorem depthLimited_document (source : Source) :
    (document source).DepthLimited (maxDepth + 1) (Metered.document source) := by
  have hrun := Grammar.run_entries maxDepth .top (State.begin source 0).alloc.state
  have hbegin : (State.begin source 0).alloc.state.tooDeep = [] := State.tooDeep_begin source 0
  have hrefused := (Metered.agrees_document source).keeps.refused hbegin.symm
  obtain ⟨new, hnew, hsub⟩ := hrun.refuses
  rw [hbegin, List.nil_append] at hnew
  refine depthLimited_of_subperm (Metered.document_fst source) (fun x hx => ?_)
    ((document_ids_perm source).nodup_iff.2 List.nodup_range).of_append_left hrefused ?_
  · rcases List.mem_cons.1 hx with rfl | hx
    · exact ⟨Nat.zero_le _, Nat.zero_le _⟩
    · obtain ⟨hchildren, htags⟩ := hrun.shallow 1 0 false x hx
      exact ⟨by omega, by omega⟩
  · have hentries := hsub 1 0
    rw [← hrefused.trans hnew] at hentries
    exact hentries.trans (((List.sublist_cons_self _ _).filter _).map _).subperm

theorem depthLimited_oneNode (text : Bytes) (pos : Nat) :
    (oneNode text pos).DepthLimited maxDepth (Metered.oneNode text pos) := by
  let source : Source := ⟨anonymous, text⟩
  have hbegin := State.tooDeep_begin source pos
  have hread := Metered.oneNode_fst text pos
  have hnodup := ((oneNode_ids_perm text pos).nodup_iff.2 List.nodup_range).of_append_left
  cases hend : (State.begin source pos).cursor.atEnd with
  | true =>
    rw [oneNode_of_atEnd hend] at hnodup hread ⊢
    rw [Metered.oneNode_of_atEnd hend] at hread ⊢
    exact depthLimited_of_subperm hread nofun hnodup hbegin.symm List.nil_subperm
  | false =>
    have hrun := Grammar.run_entry (Grammar.soundBelow maxDepth) .top (State.begin source pos)
    have hrefused := (Metered.agrees_oneNode hend).keeps.refused hbegin.symm
    obtain ⟨new, hnew, hsub⟩ := hrun.refuses
    rw [hbegin, List.nil_append] at hnew
    rw [oneNode_of_not_atEnd hend] at hnodup hread ⊢
    rw [Metered.oneNode_of_not_atEnd hend] at hread ⊢
    refine depthLimited_of_subperm hread (fun x hx => ?_) hnodup hrefused ?_
    · obtain ⟨hchildren, htags⟩ :=
        hrun.shallow 0 0 false x (by rw [Read.one_value, Tree.trailsAll_singleton]; exact hx)
      exact ⟨by omega, by omega⟩
    · have hfirst := hsub 0 0
      rw [← hrefused.trans hnew, Read.one_value, Tree.barrenAll, Tree.trailsAll_singleton] at hfirst
      exact hfirst

/-- No tree is deeper than the limit allows, whatever nests in it: each node of a document is at
most `maxDepth + 1` steps to children and as many steps to tags away from the root, and one less of
the former where only one node is read.  There is a report for each node whose set is refused, and
such a node is left without contents, as an error or as the tag that it is. -/
theorem depthLimited (path : String) (text : Bytes) (pos : Nat) :
    (document ⟨path, text⟩).DepthLimited (maxDepth + 1) (Metered.document ⟨path, text⟩) ∧
      (oneNode text pos).DepthLimited maxDepth (Metered.oneNode text pos) :=
  ⟨depthLimited_document _, depthLimited_oneNode text pos⟩

end Parse

end Metadoc
