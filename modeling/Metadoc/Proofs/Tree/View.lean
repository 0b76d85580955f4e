import Metadoc.Tree.Match

/-!
# What a comparison of nodes sees

* `View` is what is left of a node when all is left out that does not count in a comparison;
* `Tree.view` leaves it out: with the tags or without them, with their arguments or without those;
* `Tree.deepMatch_eq_true_iff` : two nodes match exactly when the same is left of both;
* `Tree.deepMatch_of_covers` : what matches does so for a comparison that looks at less.
-/

namespace Metadoc

/-- What a comparison sees of a node: its kind, its text, the names of its tags with the arguments
when these count, and its children. -/
inductive View where
  | node (kind : NodeKind) (string : String) (tags : List (String × Option (List View)))
    (children : List View)
deriving Repr

namespace Tree

variable (o : MatchOptions)

mutual

/-- What a comparison sees of a node. -/
def view : Tree → View
  | node _ d ts cs => .node d.kind d.string (if o.tags then tagViews ts else []) (views cs)

/-- What a comparison sees of nodes. -/
def views : List Tree → List View
  | [] => []
  | t :: ts => view t :: views ts

/-- What a comparison sees of tags: their names alone, or with their arguments. -/
def tagViews : List Tree → List (String × Option (List View))
  | [] => []
  | node _ d _ cs :: ts => (d.string, if o.arguments then some (views cs) else none) :: tagViews ts

end

theorem view_eq (t : Tree) : t.view o =
    .node t.data.kind t.data.string (if o.tags then tagViews o t.tags else [])
      (views o t.children) := by
  cases t
  rw [view]
  rfl

theorem views_eq_map (ts : List Tree) : views o ts = ts.map (view o) := by
  induction ts with
  | nil => rfl
  | cons t ts ih => rw [views, ih, List.map_cons]

theorem tagViews_eq_map (ts : List Tree) : tagViews o ts =
    ts.map fun t => (t.data.string, if o.arguments then some (views o t.children) else none) := by
  induction ts with
  | nil => rfl
  | cons t ts ih =>
    cases t
    rw [tagViews, ih]
    rfl

/-! ### Lists side by side -/

/-- Whether two tags have the same name and, on demand, arguments that match one by one. -/
def tagMatch (a b : Tree) : Bool :=
  a.data.string = b.data.string && (!o.arguments || childrenMatch o a.children b.children)

theorem tagsMatch_cons (a b : Tree) (as bs : List Tree) :
    tagsMatch o (a :: as) (b :: bs) = (a.tagMatch o b && tagsMatch o as bs) := by
  cases a
  cases b
  rfl

theorem childrenMatch_eq_zip (as bs : List Tree) : childrenMatch o as bs =
    (decide (as.length = bs.length) && (as.zip bs).all fun p => p.1.deepMatch o p.2) := by
  induction as generalizing bs with
  | nil => cases bs <;> simp [childrenMatch]
  | cons a as ih =>
    cases bs with
    | nil => simp [childrenMatch]
    | cons b bs => simp [childrenMatch, ih, Bool.and_left_comm]

theorem tagsMatch_eq_zip (as bs : List Tree) : tagsMatch o as bs =
    (decide (as.length = bs.length) && (as.zip bs).all fun p => p.1.tagMatch o p.2) := by
  induction as generalizing bs with
  | nil => cases bs <;> simp [tagsMatch]
  | cons a as ih =>
    cases bs with
    | nil => cases a; simp [tagsMatch]
    | cons b bs => simp [tagsMatch_cons, ih, Bool.and_left_comm]

/-! ### Matching is looking the same -/

theorem sameHead_eq_true_iff {d d' : NodeData} :
    sameHead d d' = true ↔ d.kind = d'.kind ∧ d.string = d'.string := by
  simp [sameHead]

mutual

/-- Two nodes match exactly when a comparison sees the same of both. -/
theorem deepMatch_eq_true_iff (a b : Tree) :
    a.deepMatch o b = true ↔ a.view o = b.view o := by
  cases a with
  | node id d ts cs =>
    cases b with
    | node id' d' ts' cs' =>
      have htags : (!o.tags || tagsMatch o ts ts') = true ↔
          (if o.tags then tagViews o ts else []) = if o.tags then tagViews o ts' else [] := by
        cases o.tags with
        | false => simp
        | true => simpa using tagsMatch_eq_true_iff ts ts'
      rw [deepMatch, Bool.and_eq_true, Bool.and_eq_true, sameHead_eq_true_iff, htags,
        childrenMatch_eq_true_iff cs cs', view, view, View.node.injEq, and_assoc, and_assoc]

theorem childrenMatch_eq_true_iff (as bs : List Tree) :
    childrenMatch o as bs = true ↔ views o as = views o bs := by
  cases as with
  | nil => cases bs <;> simp [childrenMatch, views]
  | cons a as =>
    cases bs with
    | nil => simp [childrenMatch, views]
    | cons b bs =>
      rw [childrenMatch, Bool.and_eq_true, deepMatch_eq_true_iff a b,
        childrenMatch_eq_true_iff as bs, views, views, List.cons.injEq]

theorem tagsMatch_eq_true_iff (as bs : List Tree) :
    tagsMatch o as bs = true ↔ tagViews o as = tagViews o bs := by
  cases as with
  | nil =>
    cases bs with
    | nil => simp [tagsMatch]
    | cons b bs => cases b; simp [tagsMatch, tagViews]
  | cons a as =>
    cases a with
    | node id d ts cs =>
      cases bs with
      | nil => simp [tagsMatch, tagViews]
      | cons b bs =>
        cases b with
        | node id' d' ts' cs' =>
          have harguments : (!o.arguments || childrenMatch o cs cs') = true ↔
              (if o.arguments then some (views o cs) else none) =
                if o.arguments then some (views o cs') else none := by
            cases o.arguments with
            | false => simp
            | true => simpa using childrenMatch_eq_true_iff cs cs'
          rw [tagsMatch, Bool.and_eq_true, Bool.and_eq_true, decide_eq_true_iff, harguments,
            tagsMatch_eq_true_iff as bs, tagViews, tagViews, List.cons.injEq, Prod.mk.injEq]

end

end Tree

/-! ### Fewer flags -/

namespace MatchOptions

/-- Whether all flags of another comparison are set. -/
def Includes (o o' : MatchOptions) : Prop :=
  (o'.tags = true → o.tags = true) ∧ (o'.arguments = true → o.arguments = true)

/-- Whether a comparison looks at all that another one looks at, which looks at arguments only where
it looks at tags. -/
structure Covers (o o' : MatchOptions) : Prop where
  /-- It looks at tags if the other one does. -/
  tags : o'.tags = true → o.tags = true
  /-- It looks at their arguments if the other one does. -/
  arguments : o'.tags = true → o'.arguments = true → o.arguments = true

theorem Includes.covers {o o' : MatchOptions} (h : o.Includes o') : o.Covers o' :=
  ⟨h.1, fun _ => h.2⟩

/-- Every comparison looks at all that one without tags looks at. -/
theorem Covers.of_not_tags {o o' : MatchOptions} (h : o'.tags = false) : o.Covers o' :=
  ⟨fun htags => by simp [h] at htags, fun htags => by simp [h] at htags⟩

end MatchOptions

namespace Tree

variable {o o' : MatchOptions}

mutual

/-- What matches does so for a comparison that looks at less. -/
theorem deepMatch_of_covers (h : o.Covers o') (a b : Tree)
    (hmatch : a.deepMatch o b = true) : a.deepMatch o' b = true := by
  cases a with
  | node id d ts cs =>
    cases b with
    | node id' d' ts' cs' =>
      rw [deepMatch, Bool.and_eq_true, Bool.and_eq_true] at hmatch ⊢
      obtain ⟨⟨hhead, htags⟩, hchildren⟩ := hmatch
      refine ⟨⟨hhead, ?_⟩, childrenMatch_of_covers h cs cs' hchildren⟩
      cases ho' : o'.tags with
      | false => rfl
      | true =>
        rw [h.tags ho'] at htags
        exact tagsMatch_of_covers h ho' ts ts' htags

theorem childrenMatch_of_covers (h : o.Covers o') (as bs : List Tree)
    (hmatch : childrenMatch o as bs = true) : childrenMatch o' as bs = true := by
  cases as with
  | nil =>
    cases bs with
    | nil => rfl
    | cons b bs => exact hmatch
  | cons a as =>
    cases bs with
    | nil => exact hmatch
    | cons b bs =>
      rw [childrenMatch, Bool.and_eq_true] at hmatch ⊢
      exact ⟨deepMatch_of_covers h a b hmatch.1, childrenMatch_of_covers h as bs hmatch.2⟩

theorem tagsMatch_of_covers (h : o.Covers o') (ho' : o'.tags = true) (as bs : List Tree)
    (hmatch : tagsMatch o as bs = true) : tagsMatch o' as bs = true := by
  cases as with
  | nil => cases bs <;> exact hmatch
  | cons a as =>
    cases bs with
    | nil => cases a; exact hmatch
    | cons b bs =>
      cases a with
      | node id d ts cs =>
        cases b with
        | node id' d' ts' cs' =>
          rw [tagsMatch, Bool.and_eq_true, Bool.and_eq_true] at hmatch ⊢
          obtain ⟨⟨hname, harguments⟩, hrest⟩ := hmatch
          refine ⟨⟨hname, ?_⟩, tagsMatch_of_covers h ho' as bs hrest⟩
          cases hargs : o'.arguments with
          | false => rfl
          | true =>
            rw [h.arguments ho' hargs] at harguments
            exact childrenMatch_of_covers h cs cs' harguments

end

theorem deepMatch_congr (h : o.Covers o') (h' : o'.Covers o) (a b : Tree) :
    a.deepMatch o b = a.deepMatch o' b :=
  Bool.eq_iff_iff.2 ⟨deepMatch_of_covers h a b, deepMatch_of_covers h' a b⟩

end Tree

end Metadoc
