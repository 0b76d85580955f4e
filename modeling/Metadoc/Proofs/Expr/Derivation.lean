import Metadoc.Expr.Parse

/-!
# Arithmetic by its grammar

* `ExprGrammar.Derives` is the grammar of arithmetic without ranks of operators: operands with
  operators between them;
* `ExprGrammar.reference` parts such a list at the operator that is applied last, by looking for
  it: the last loose one between operands, else the last tight one;
* `ExprGrammar.Means` is the grammar with ranks, which says what a list means;
* `Derives.exists_means` : what is derivable has a meaning, unless it holds an error;
* `Means.eq_reference` : the meaning of a list is its reference.
-/

namespace Metadoc

namespace ExprGrammar

/-- What the grammar without ranks derives. -/
inductive Category where
  /-- An operand with the minus signs before it. -/
  | operand
  /-- Operands with operators between them. -/
  | whole
deriving DecidableEq, Repr

/-- The grammar of arithmetic without ranks, with at most `n` signs and sets around anything. -/
inductive Derives : Category → Nat → List Tree → Prop
  /-- An operand with a minus sign before it. -/
  | minus {n t ts} (ht : Operator.ofNode? t = some .minus) (operand : Derives .operand n ts) :
      Derives .operand (n + 1) (t :: ts)
  /-- A leaf that is neither an operator nor a set without a label. -/
  | atom {n t} (hleaf : t.isLeaf = true) (ht : Operator.ofNode? t = none)
      (hset : t.unlabeledSet? = none) : Derives .operand n [t]
  /-- A set in round brackets that is not empty. -/
  | parens {n t} (hset : t.unlabeledSet? = some .paren) (hleaf : t.isLeaf = false)
      (inside : Derives .whole n t.children) : Derives .operand (n + 1) [t]
  /-- An operand alone. -/
  | one {n ts} (first : Derives .operand n ts) : Derives .whole n ts
  /-- One more operand. -/
  | more {n ts o op us} (first : Derives .whole n ts) (ho : Operator.ofNode? o = some op)
      (operand : Derives .operand n us) : Derives .whole n (ts ++ o :: us)

/-- No node of a list is an error, nor one in the sets in round brackets without a label. -/
inductive Intact : List Tree → Prop
  | intro {ts} (kind : ∀ t ∈ ts, t.data.kind ≠ .error)
      (inside : ∀ t ∈ ts, t.unlabeledSet? = some .paren → Intact t.children) : Intact ts

theorem Intact.kind {ts : List Tree} (h : Intact ts) {t : Tree} (ht : t ∈ ts) :
    t.data.kind ≠ .error := by
  cases h with
  | intro kind inside => exact kind t ht

theorem Intact.children {ts : List Tree} (h : Intact ts) {t : Tree} (ht : t ∈ ts)
    (hset : t.unlabeledSet? = some .paren) : Intact t.children := by
  cases h with
  | intro kind inside => exact inside t ht hset

theorem Intact.mono {ts us : List Tree} (h : Intact ts) (hsub : us ⊆ ts) : Intact us :=
  .intro (fun _ ht => h.kind (hsub ht)) fun _ ht => h.children (hsub ht)

/-! ### The reference -/

/-- Parts a list at the last operator that `p` holds of and that stands between operands, that is,
behind a node that is no operator. -/
def splitLast (p : Operator → Bool) : List Tree → Option (List Tree × Operator × List Tree)
  | a :: b :: rest =>
    match splitLast p (b :: rest) with
    | some (before, op, after) => some (a :: before, op, after)
    | none =>
      match Operator.ofNode? a, Operator.ofNode? b with
      | none, some op => if p op then some ([a], op, rest) else none
      | _, _ => none
  | _ => none

/-- Parts a list at the operator that is applied last: the last loose one, else the last tight
one. -/
def outermost (ts : List Tree) : Option (List Tree × Operator × List Tree) :=
  (splitLast (fun op => !op.isTight) ts).or (splitLast Operator.isTight ts)

/-- Number of nodes of a list of trees. -/
def weight (ts : List Tree) : Nat := (Tree.preorderAll ts).length

theorem weight_cons (t : Tree) (ts : List Tree) : weight (t :: ts) = weight [t] + weight ts := by
  simp [weight, Tree.preorderAll]

theorem weight_append (ts us : List Tree) : weight (ts ++ us) = weight ts + weight us := by
  induction ts with
  | nil => simp [weight, Tree.preorderAll]
  | cons t ts ih => rw [List.cons_append, weight_cons, ih, weight_cons t ts, Nat.add_assoc]

theorem weight_children_lt (t : Tree) (ts : List Tree) : weight t.children < weight (t :: ts) := by
  obtain ⟨id, d, tags, cs⟩ := t
  simp only [weight, Tree.preorderAll, Tree.preorder, Tree.children, List.length_append,
    List.length_cons]
  omega

theorem weight_pos (t : Tree) (ts : List Tree) : 0 < weight (t :: ts) :=
  Nat.lt_of_le_of_lt (Nat.zero_le _) (weight_children_lt t ts)

theorem eq_append_of_splitLast {p : Operator → Bool} {ts before after : List Tree}
    {op : Operator} (h : splitLast p ts = some (before, op, after)) :
    before ≠ [] ∧ ∃ o, Operator.ofNode? o = some op ∧ ts = before ++ o :: after := by
  fun_induction splitLast p ts generalizing before with
  | case1 a b rest before' op' after' hrest ih =>
    cases h
    obtain ⟨-, o, ho, heq⟩ := ih hrest
    exact ⟨List.cons_ne_nil _ _, o, ho, by rw [heq]; rfl⟩
  | case2 a b rest hrest op' hb ha hp =>
    cases h
    exact ⟨List.cons_ne_nil _ _, b, hb, rfl⟩
  | case3 | case4 | case5 => cases h

theorem eq_append_of_outermost {ts before after : List Tree} {op : Operator}
    (h : outermost ts = some (before, op, after)) :
    before ≠ [] ∧ ∃ o, Operator.ofNode? o = some op ∧ ts = before ++ o :: after := by
  rcases Option.or_eq_some_iff.1 h with hloose | ⟨-, htight⟩
  · exact eq_append_of_splitLast hloose
  · exact eq_append_of_splitLast htight

theorem weight_lt_of_outermost {ts before after : List Tree} {op : Operator}
    (h : outermost ts = some (before, op, after)) :
    weight before < weight ts ∧ weight after < weight ts := by
  obtain ⟨hne, o, -, rfl⟩ := eq_append_of_outermost h
  obtain ⟨t, rest, rfl⟩ := List.exists_cons_of_ne_nil hne
  have hbefore := weight_pos t rest
  have ho := weight_pos o []
  rw [weight_append, weight_cons o after]
  omega

/-- The expression that a list of nodes stands for, by the operator that is applied last.  A list
without one is a sign and an operand, an atom, or a set. -/
def reference (ts : List Tree) : Expr :=
  match _h : outermost ts with
  | some (before, op, after) => .binary op.kind (reference before) (reference after)
  | none =>
    match ts with
    | [] => .missing
    | t :: rest =>
      if Operator.ofNode? t = some .minus then .unary .negate (reference rest)
      else if t.isLeaf then .atomOf t.data.string ⟨t.id, t.data.facets.literal⟩
      else reference t.children
termination_by weight ts
decreasing_by
  · exact (weight_lt_of_outermost _h).1
  · exact (weight_lt_of_outermost _h).2
  · rw [weight_cons t rest]
    exact Nat.lt_add_of_pos_left (weight_pos t [])
  · exact weight_children_lt t rest

theorem reference_of_outermost {ts before after : List Tree} {op : Operator}
    (h : outermost ts = some (before, op, after)) :
    reference ts = .binary op.kind (reference before) (reference after) := by
  rw [reference.eq_def]
  split
  · rename_i hsome
    cases h.symm.trans hsome
    rfl
  · rename_i hnone
    cases h.symm.trans hnone

theorem reference_cons {t : Tree} {rest : List Tree} (h : outermost (t :: rest) = none) :
    reference (t :: rest) =
      if Operator.ofNode? t = some .minus then .unary .negate (reference rest)
      else if t.isLeaf then .atomOf t.data.string ⟨t.id, t.data.facets.literal⟩
      else reference t.children := by
  rw [reference.eq_def]
  split
  · rename_i hsome
    cases h.symm.trans hsome
  · rfl

/-! ### The grammar with ranks -/

/-- How tightly the operators bind that join what a list is made of. -/
inductive Rank where
  /-- No operator joins anything. -/
  | unary
  /-- Tight operators join operands. -/
  | product
  /-- Any operators join products. -/
  | sum
deriving DecidableEq, Repr

/-- Whether an operator may stand between operands in a list of a rank. -/
def Rank.joins : Rank → Operator → Bool
  | unary, _ => false
  | product, op => op.isTight
  | sum, _ => true

/-- What a list of a rank means, with at most `n` signs and sets around anything. -/
inductive Means : Rank → Nat → List Tree → Expr → Prop
  /-- An operand with a minus sign before it. -/
  | minus {n t ts e} (ht : Operator.ofNode? t = some .minus) (operand : Means .unary n ts e) :
      Means .unary (n + 1) (t :: ts) (.unary .negate e)
  /-- An atom. -/
  | atom {n t} (hkind : t.data.kind ≠ .error) (hleaf : t.isLeaf = true)
      (ht : Operator.ofNode? t = none) (hset : t.unlabeledSet? = none) :
      Means .unary n [t] (.atomOf t.data.string ⟨t.id, t.data.facets.literal⟩)
  /-- A set in round brackets. -/
  | parens {n t e} (hset : t.unlabeledSet? = some .paren) (hleaf : t.isLeaf = false)
      (inside : Means .sum n t.children e) : Means .unary (n + 1) [t] e
  /-- An operand alone. -/
  | factor {n ts e} (first : Means .unary n ts e) : Means .product n ts e
  /-- A product and one more operand. -/
  | times {n ts o op us e e'} (first : Means .product n ts e) (ho : Operator.ofNode? o = some op)
      (htight : op.isTight = true) (operand : Means .unary n us e') :
      Means .product n (ts ++ o :: us) (.binary op.kind e e')
  /-- A product alone. -/
  | term {n ts e} (first : Means .product n ts e) : Means .sum n ts e
  /-- A sum and one more product. -/
  | plus {n ts o op us e e'} (first : Means .sum n ts e) (ho : Operator.ofNode? o = some op)
      (hloose : op.isTight = false) (operand : Means .product n us e') :
      Means .sum n (ts ++ o :: us) (.binary op.kind e e')

/-- One more operand goes to the last product of a sum, or makes a new one. -/
theorem Means.exists_append {n : Nat} {ts us : List Tree} {o : Tree} {op : Operator}
    {e e' : Expr} (h : Means .sum n ts e) (ho : Operator.ofNode? o = some op)
    (hu : Means .unary n us e') : ∃ e'', Means .sum n (ts ++ o :: us) e'' := by
  by_cases htight : op.isTight = true
  · cases h with
    | term first => exact ⟨_, .term (.times first ho htight hu)⟩
    | plus first ho' hloose operand =>
      rw [List.append_assoc, List.cons_append]
      exact ⟨_, .plus first ho' hloose (.times operand ho htight hu)⟩
  · exact ⟨_, .plus h ho (Bool.eq_false_iff.2 htight) (.factor hu)⟩

/-- The rank of what a category derives. -/
def Category.rank : Category → Rank
  | operand => .unary
  | whole => .sum

/-- What is derivable without errors has a meaning. -/
theorem Derives.exists_means {c : Category} {n : Nat} {ts : List Tree} (h : Derives c n ts)
    (hts : Intact ts) : ∃ e, Means c.rank n ts e := by
  induction h with
  | minus ht _ ih =>
    obtain ⟨e, he⟩ := ih (hts.mono (List.subset_cons_self _ _))
    exact ⟨_, .minus ht he⟩
  | atom hleaf ht hset => exact ⟨_, .atom (hts.kind List.mem_cons_self) hleaf ht hset⟩
  | parens hset hleaf _ ih =>
    obtain ⟨e, he⟩ := ih (hts.children List.mem_cons_self hset)
    exact ⟨e, .parens hset hleaf he⟩
  | one _ ih =>
    obtain ⟨e, he⟩ := ih hts
    exact ⟨e, .term (.factor he)⟩
  | @more n ts o op us _ ho _ ih ih' =>
    obtain ⟨e, he⟩ := ih (hts.mono (List.subset_append_left _ _))
    have hsub : us ⊆ ts ++ o :: us := fun _ h => List.mem_append_right ts (List.mem_cons_of_mem o h)
    obtain ⟨e', he'⟩ := ih' (hts.mono hsub)
    exact he.exists_append ho he'

/-! ### Meaning and reference -/

section Split

variable {p : Operator → Bool} {ts us : List Tree} {a o t : Tree} {op : Operator}

theorem splitLast_cons_of_some {before after : List Tree}
    (h : splitLast p ts = some (before, op, after)) :
    splitLast p (a :: ts) = some (a :: before, op, after) := by
  cases ts with
  | nil => cases h
  | cons b rest => rw [splitLast, h]

theorem splitLast_cons_eq_none :
    splitLast p (a :: ts) = none ↔ splitLast p ts = none ∧
      ∀ b ∈ ts.head?, Operator.ofNode? a = none → ∀ op, Operator.ofNode? b = some op →
        p op = false := by
  cases ts with
  | nil => simp [splitLast]
  | cons b rest =>
    rw [splitLast]
    cases hrest : splitLast p (b :: rest) with
    | some r => simp
    | none =>
      cases ha : Operator.ofNode? a <;> cases hb : Operator.ofNode? b <;> simp [hb]

theorem splitLast_operator_cons (ho : Operator.ofNode? o = some op)
    (h : splitLast p us = none) : splitLast p (o :: us) = none := by
  refine splitLast_cons_eq_none.2 ⟨h, fun b _ hnone => ?_⟩
  cases ho.symm.trans hnone

/-- An operator that nothing behind it comes after is the last one. -/
theorem splitLast_append (ht : Operator.ofNode? t = none) (ho : Operator.ofNode? o = some op)
    (hp : p op = true) (hus : splitLast p us = none) (before : List Tree) :
    splitLast p (before ++ t :: o :: us) = some (before ++ [t], op, us) := by
  induction before with
  | nil =>
    have hrest := splitLast_operator_cons ho hus
    rw [List.nil_append, splitLast, hrest]
    simp [ht, ho, hp]
  | cons x before ih => exact splitLast_cons_of_some ih

theorem splitLast_append_eq_none (ho : Operator.ofNode? o = some op) (hp : p op = false)
    (hus : splitLast p us = none) (before : List Tree)
    (hts : splitLast p (before ++ [t]) = none) :
    splitLast p (before ++ t :: o :: us) = none := by
  induction before with
  | nil =>
    refine splitLast_cons_eq_none.2 ⟨splitLast_operator_cons ho hus, fun b hb _ op' hop' => ?_⟩
    cases hb
    cases ho.symm.trans hop'
    exact hp
  | cons x before ih =>
    obtain ⟨hrest, hhead⟩ := splitLast_cons_eq_none.1 hts
    refine splitLast_cons_eq_none.2 ⟨ih hrest, fun b hb => hhead b ?_⟩
    cases before <;> exact hb

end Split

theorem Means.exists_last {r : Rank} {n : Nat} {ts : List Tree} {e : Expr} (h : Means r n ts e) :
    ∃ before t, ts = before ++ [t] ∧ Operator.ofNode? t = none := by
  induction h with
  | @minus n t ts e ht _ ih =>
    obtain ⟨before, u, rfl, hu⟩ := ih
    exact ⟨t :: before, u, rfl, hu⟩
  | @atom n t _ _ ht _ => exact ⟨[], t, rfl, ht⟩
  | @parens n t e hset hleaf _ ih =>
    refine ⟨[], t, rfl, ?_⟩
    simp [Operator.ofNode?, hleaf]
  | factor _ ih | term _ ih => exact ih
  | @times n ts o op us e e' _ _ _ _ _ ih | @plus n ts o op us e e' _ _ _ _ _ ih =>
    obtain ⟨before, u, rfl, hu⟩ := ih
    exact ⟨ts ++ o :: before, u, by simp, hu⟩

/-- Only operators that join what a list is made of stand between its operands. -/
theorem Means.splitLast_eq_none {r : Rank} {n : Nat} {ts : List Tree} {e : Expr}
    (h : Means r n ts e) {p : Operator → Bool} (hp : ∀ op, r.joins op = true → p op = false) :
    splitLast p ts = none := by
  induction h with
  | minus ht _ ih => exact splitLast_operator_cons ht (ih hp)
  | atom => rfl
  | parens => rfl
  | factor _ ih => exact ih nofun
  | term _ ih => exact ih fun op _ => hp op rfl
  | times first ho htight _ ih ih' =>
    obtain ⟨before, t, rfl, ht⟩ := first.exists_last
    rw [List.append_assoc, List.singleton_append]
    exact splitLast_append_eq_none ho (hp _ htight) (ih' nofun) before (ih hp)
  | plus first ho hloose _ ih ih' =>
    obtain ⟨before, t, rfl, ht⟩ := first.exists_last
    rw [List.append_assoc, List.singleton_append]
    exact splitLast_append_eq_none ho (hp _ rfl) (ih' fun op _ => hp op rfl) before (ih hp)

/-- The meaning of a list is its reference. -/
theorem Means.eq_reference {r : Rank} {n : Nat} {ts : List Tree} {e : Expr}
    (h : Means r n ts e) : e = reference ts := by
  induction h with
  | @minus n t ts e ht operand ih =>
    have hnone : outermost (t :: ts) = none := by
      simp [outermost, (Means.minus ht operand).splitLast_eq_none nofun]
    rw [reference_cons hnone, if_pos ht, ← ih]
  | @atom n t _ hleaf ht _ =>
    rw [reference_cons rfl, if_neg (by simp [ht]), if_pos hleaf]
  | @parens n t e hset hleaf inside ih =>
    rw [reference_cons rfl, if_neg (by simp [Operator.ofNode?, hleaf]), if_neg (by simp [hleaf]),
      ← ih]
  | factor _ ih | term _ ih => exact ih
  | @times n ts o op us e e' first ho htight operand ih ih' =>
    have hloose := (Means.times first ho htight operand).splitLast_eq_none
      (p := fun op => !op.isTight) (by simp [Rank.joins])
    have htight' := operand.splitLast_eq_none (p := Operator.isTight) nofun
    obtain ⟨before, t, rfl, ht⟩ := first.exists_last
    have hlast := splitLast_append ht ho htight htight' before
    rw [List.append_assoc, List.singleton_append] at hloose ⊢
    -- No loose operator stands in a product, so the last tight one parts it.
    have houter : outermost (before ++ t :: o :: us) = some (before ++ [t], op, us) := by
      rw [outermost, hloose, Option.none_or, hlast]
    rw [reference_of_outermost houter, ← ih, ← ih']
  | @plus n ts o op us e e' first ho hloose operand ih ih' =>
    have hnone := operand.splitLast_eq_none (p := fun op => !op.isTight) (by simp [Rank.joins])
    obtain ⟨before, t, rfl, ht⟩ := first.exists_last
    have hlast := splitLast_append (p := fun op => !op.isTight) ht ho (by simp [hloose]) hnone before
    rw [List.append_assoc, List.singleton_append]
    have houter : outermost (before ++ t :: o :: us) = some (before ++ [t], op, us) := by
      rw [outermost, hlast, Option.some_or]
    rw [reference_of_outermost houter, ← ih, ← ih']

end ExprGrammar

end Metadoc
