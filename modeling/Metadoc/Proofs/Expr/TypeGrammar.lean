import Metadoc.Proofs.Expr.Types

/-!
# Types by their grammar

* `ExprGrammar.DerivesType` is the grammar of types, whose sizes are those of `Derives`;
* `ExprGrammar.typeReference` reads a list from its first node on: a star, square brackets, round
  brackets or an atom;
* `ExprGrammar.MeansType.eq_typeReference` : the meaning of a list as a type is its reference;
* `ExprGrammar.outcome_types` : on any number of levels a type is read up to the end of a list that
  is derivable, or something is reported;
* `ExprParse.read_type` : nothing is reported just when the nodes are derivable, and then the type
  is the reference.
-/

namespace Metadoc

namespace ExprGrammar

/-- The grammar of types, with at most `n` stars, sets and signs around anything. -/
inductive DerivesType : Nat → List Tree → Prop
  /-- A type with a star before it. -/
  | pointer {n t ts} (ht : Operator.ofNode? t = some .star) (pointee : DerivesType n ts) :
      DerivesType (n + 1) (t :: ts)
  /-- A type with empty square brackets before it. -/
  | slice {n t ts} (hset : t.unlabeledSet? = some .bracket) (hleaf : t.isLeaf = true)
      (element : DerivesType n ts) : DerivesType (n + 1) (t :: ts)
  /-- A type with arithmetic in square brackets before it. -/
  | array {n t ts} (hset : t.unlabeledSet? = some .bracket) (hleaf : t.isLeaf = false)
      (size : Derives .whole n t.children) (element : DerivesType n ts) :
      DerivesType (n + 1) (t :: ts)
  /-- A type in round brackets. -/
  | parens {n t} (hset : t.unlabeledSet? = some .paren) (hleaf : t.isLeaf = false)
      (inside : DerivesType n t.children) : DerivesType (n + 1) [t]
  /-- A leaf that is neither an operator nor a set without a label. -/
  | atom {n t} (hleaf : t.isLeaf = true) (ht : Operator.ofNode? t = none)
      (hset : t.unlabeledSet? = none) : DerivesType n [t]

/-- No node of a list is an error, nor one in the sets without a label. -/
inductive Unbroken : List Tree → Prop
  | intro {ts} (kind : ∀ t ∈ ts, t.data.kind ≠ .error)
      (inside : ∀ t ∈ ts, ∀ d, t.unlabeledSet? = some d → Unbroken t.children) : Unbroken ts

namespace Unbroken

variable {ts us : List Tree} {t : Tree}

theorem kind (h : Unbroken ts) (ht : t ∈ ts) : t.data.kind ≠ .error := by
  cases h with
  | intro kind inside => exact kind t ht

theorem children (h : Unbroken ts) (ht : t ∈ ts) {d : Delimiter} (hset : t.unlabeledSet? = some d) :
    Unbroken t.children := by
  cases h with
  | intro kind inside => exact inside t ht d hset

theorem mono (h : Unbroken ts) (hsub : us ⊆ ts) : Unbroken us :=
  .intro (fun _ ht => h.kind (hsub ht)) fun _ ht _ => h.children (hsub ht)

theorem intact (h : Unbroken ts) : Intact ts := by
  induction h with
  | intro kind inside ih => exact .intro kind fun t ht hset => ih t ht .paren hset

end Unbroken

/-! ### The reference -/

/-- The type that a list of nodes stands for, by its first node. -/
def typeReference : List Tree → Expr
  | [] => .missing
  | t :: rest =>
    if Operator.ofNode? t = some .star then .unary .pointer (typeReference rest)
    else if t.unlabeledSet? = some .bracket then
      .array (typeReference rest) (if t.isLeaf then none else some (reference t.children))
    else if t.isLeaf then .atomOf t.data.string ⟨t.id, t.data.facets.literal⟩
    else typeReference t.children
termination_by ts => weight ts
decreasing_by
  · rw [weight_cons t rest]
    exact Nat.lt_add_of_pos_left (weight_pos t [])
  · rw [weight_cons t rest]
    exact Nat.lt_add_of_pos_left (weight_pos t [])
  · exact weight_children_lt t rest

/-- The meaning of a list as a type is its reference. -/
theorem MeansType.eq_typeReference {n : Nat} {ts : List Tree} {e : Expr} (h : MeansType n ts e) :
    e = typeReference ts := by
  induction h with
  | pointer ht _ ih => rw [typeReference, if_pos ht, ← ih]
  | slice hset hleaf _ ih =>
    rw [typeReference, if_neg (by simp [ofNode?_of_unlabeledSet hset]), if_pos hset, if_pos hleaf,
      ← ih]
  | array hset hleaf inside _ ih =>
    rw [typeReference, if_neg (by simp [ofNode?_of_unlabeledSet hset]), if_pos hset,
      if_neg (by simp [hleaf]), ← ih, ← inside.eq_reference]
  | parens hset hleaf _ ih =>
    rw [typeReference, if_neg (by simp [ofNode?_of_unlabeledSet hset]), if_neg (by simp [hset]),
      if_neg (by simp [hleaf]), ← ih]
  | atom _ hleaf ht hset =>
    rw [typeReference, if_neg (by simp [ht]), if_neg (by simp [hset]), if_pos hleaf]

theorem DerivesType.exists_means {n : Nat} {ts : List Tree} (h : DerivesType n ts)
    (hts : Unbroken ts) : ∃ e, MeansType n ts e := by
  induction h with
  | @pointer n t ts ht _ ih =>
    obtain ⟨e, he⟩ := ih (hts.mono (List.subset_cons_self t ts))
    exact ⟨_, .pointer ht he⟩
  | @slice n t ts hset hleaf _ ih =>
    obtain ⟨e, he⟩ := ih (hts.mono (List.subset_cons_self t ts))
    exact ⟨_, .slice hset hleaf he⟩
  | @array n t ts hset hleaf size _ ih =>
    obtain ⟨e, he⟩ := ih (hts.mono (List.subset_cons_self t ts))
    obtain ⟨e', he'⟩ := size.exists_means (hts.children List.mem_cons_self hset).intact
    exact ⟨_, .array hset hleaf he' he⟩
  | parens hset hleaf _ ih =>
    obtain ⟨e, he⟩ := ih (hts.children List.mem_cons_self hset)
    exact ⟨e, .parens hset hleaf he⟩
  | atom hleaf ht hset => exact ⟨_, .atom (hts.kind List.mem_cons_self) hleaf ht hset⟩

/-! ### How reading ends -/

/-- How a type is read with `n` levels left when no node ahead is an error. -/
def TypeOutcome (n : Nat) : Prop :=
  ∀ s : ExprState, Unbroken s.ahead → Outcome (DerivesType n) s (type (levels n) s)

variable {s : ExprState} {n : Nat} {t : Tree} {rest : List Tree}

theorem outcome_pointer (hahead : s.ahead = t :: rest) (ht : Operator.ofNode? t = some .star)
    (hs : Unbroken s.ahead) (hinside : ∀ m, n = m + 1 → TypeOutcome m) :
    Outcome (DerivesType n) s (type (levels n) s) := by
  rw [type, hahead]
  simp only [ht, if_true]
  cases n with
  | zero => exact .failDeep (show (s.step t rest).reports = s.reports from rfl) t
  | succ n =>
    have hrest : Unbroken rest := hs.mono (by rw [hahead]; exact List.subset_cons_self t rest)
    have hread := hinside n rfl (s.step t rest) hrest
    have hbuilt := hread.andThen (R := DerivesType n)
      (fun e => outcome_build _ (.unary .pointer e))
      (fun ts us hts hus => by rwa [hus, List.append_nil])
    exact hbuilt.behind hahead fun ts hts => .pointer ht hts

theorem outcome_size {size : ExprRead} (hahead : s.ahead = t :: rest)
    (hset : t.unlabeledSet? = some .bracket) (hs : Unbroken s.ahead)
    (hsize : (if t.isLeaf then ⟨none, s.step t rest⟩
      else contents .expression .leftoverInSize t (level (levels n)) (s.step t rest)) = size) :
    size.state.ahead = rest ∧ (s.reports.length < size.state.reports.length ∨
      size.state.reports = s.reports ∧ (t.isLeaf = false → Derives .whole n t.children)) := by
  subst hsize
  by_cases hleaf : t.isLeaf = true
  · rw [if_pos hleaf]
    exact ⟨rfl, .inr ⟨rfl, fun h => by rw [hleaf] at h; cases h⟩⟩
  · rw [if_neg hleaf]
    have hinside := hs.children (hahead ▸ List.mem_cons_self) hset
    have hread : Outcome (Derives .whole n) ((s.step t rest).enter t)
        ((level (levels n)).read .expression ((s.step t rest).enter t)) :=
      (outcome_levels n).2 _ hinside.intact
    obtain ⟨hbehind, houtcome⟩ := outcome_contents hread .leftoverInSize
    exact ⟨hbehind, houtcome.imp id fun ⟨hreports, _, hderives⟩ => ⟨hreports, fun _ => hderives⟩⟩

theorem outcome_array (hahead : s.ahead = t :: rest) (hset : t.unlabeledSet? = some .bracket)
    (hs : Unbroken s.ahead) (hinside : ∀ m, n = m + 1 → TypeOutcome m) :
    Outcome (DerivesType n) s (type (levels n) s) := by
  rw [type, hahead]
  simp only [ofNode?_of_unlabeledSet hset, reduceCtorEq, if_false, hset]
  cases n with
  | zero => exact .failDeep (show (s.step t rest).reports = s.reports from rfl) t
  | succ n =>
    simp only [levels]
    generalize hsize : (if t.isLeaf then (⟨none, s.step t rest⟩ : ExprRead)
      else contents .expression .leftoverInSize t (level (levels n)) (s.step t rest)) = size
    obtain ⟨hbehind, houtcome⟩ := outcome_size hahead hset hs hsize
    have hrest : Unbroken size.state.ahead :=
      hs.mono (by rw [hahead, hbehind]; exact List.subset_cons_self t rest)
    have hread := (hinside n rfl size.state hrest).andThen (R := DerivesType n)
      (fun e => outcome_build _ (.array e size.value))
      (fun ts us hts hus => by rwa [hus, List.append_nil])
    rcases houtcome with hlt | ⟨hreports, hderives⟩
    · have hsuffix : size.state.ahead <:+ s.ahead := by
        rw [hahead, hbehind]
        exact List.suffix_cons t rest
      exact .reported (hread.suffix.trans hsuffix) (Nat.lt_of_lt_of_le hlt hread.reports_le)
    · -- Behind a size that is read, the element is read as if behind the brackets alone.
      have helement : Outcome (DerivesType n) (s.step t rest) _ :=
        hread.congr hbehind.symm hreports.symm
      refine helement.behind hahead fun ts hts => ?_
      cases hleaf : t.isLeaf with
      | true => exact .slice hset hleaf hts
      | false => exact .array hset hleaf (hderives hleaf) hts

/-- With a level less, so are types: by what stands first. -/
theorem outcome_type (hinside : ∀ m, n = m + 1 → TypeOutcome m) : TypeOutcome n := by
  intro s hs
  cases hahead : s.ahead with
  | nil =>
    rw [type, hahead]
    exact .fail List.suffix_rfl rfl _ _
  | cons t rest =>
    by_cases hstar : Operator.ofNode? t = some .star
    · exact outcome_pointer hahead hstar hs hinside
    by_cases hbracket : t.unlabeledSet? = some .bracket
    · exact outcome_array hahead hbracket hs hinside
    have hkind := hs.kind (hahead ▸ List.mem_cons_self)
    rw [type, hahead]
    simp only [hstar, if_false]
    cases hset : t.unlabeledSet? with
    | none =>
      cases ht : Operator.ofNode? t with
      | some op => exact .fail (suffix_step hahead) rfl _ _
      | none => exact outcome_atom hahead hkind fun hleaf => .atom hleaf ht hset
    | some d =>
      cases d with
      | bracket => exact absurd hset hbracket
      | brace => exact .fail (suffix_step hahead) rfl _ _
      | paren =>
        have hchildren := hs.children (hahead ▸ List.mem_cons_self) hset
        refine outcome_parens (P := DerivesType) hahead
          (fun m hm s hs => hinside m hm s (hs ▸ hchildren)) ?_
        rintro m rfl hleaf hderives
        exact .parens hset hleaf hderives

/-- On any number of levels a type is read as derivable, or something is reported. -/
theorem outcome_types (n : Nat) : TypeOutcome n := by
  induction n with
  | zero => exact outcome_type nofun
  | succ n ih => exact outcome_type fun m hm => by cases hm; exact ih

end ExprGrammar

namespace ExprParse

open ExprGrammar (DerivesType Unbroken typeReference)

/-- Nodes without errors are read as a type without a diagnostic just when the grammar of types
derives them, and then as their reference: stars and square brackets from left to right, the latter
with a size just when there is something in them. -/
theorem read_type (first : Tree) (rest : List Tree) (h : Unbroken (first :: rest)) :
    ((read .type first rest).diagnostics = [] ↔
      DerivesType ExprGrammar.maxDepth (first :: rest)) ∧
    (DerivesType ExprGrammar.maxDepth (first :: rest) →
      (read .type first rest).root = some (typeReference (first :: rest))) := by
  have hread := ExprGrammar.outcome_types ExprGrammar.maxDepth
    { ahead := first :: rest, anchor := first } h
  have hderived (hd : DerivesType ExprGrammar.maxDepth (first :: rest)) :
      (read .type first rest).diagnostics = [] ∧
        (read .type first rest).root = some (typeReference (first :: rest)) := by
    obtain ⟨e, he⟩ := hd.exists_means h
    have hmeans : ExprGrammar.MeansBy ExprGrammar.maxDepth (first :: rest) e .type := he
    rw [← he.eq_typeReference]
    exact read_of_means hmeans
  exact ⟨⟨holds_of_diagnostics hread, fun hd => (hderived hd).1⟩, fun hd => (hderived hd).2⟩

/-- What follows the `*` in `*[4 + n][](T)`. -/
def arrays : List Tree :=
  [.node 0 { NodeData.plain .main "" with facets := { opened := some .bracket } } []
      [leaf .numeric "4", leaf .symbol "+", leaf .identifier "n"],
    .node 0 { NodeData.plain .main "" with facets := { opened := some .bracket } } [] [],
    .node 0 { NodeData.plain .main "" with facets := { opened := some .paren } } []
      [leaf .identifier "T"]]

theorem unbroken_of_leaves {ts : List Tree} (kind : ∀ t ∈ ts, t.data.kind ≠ .error)
    (hset : ∀ t ∈ ts, t.unlabeledSet? = none) : Unbroken ts :=
  .intro kind fun t ht d h => by
    rw [hset t ht] at h
    cases h

theorem unbroken_arrays : Unbroken (leaf .symbol "*" :: arrays) := by
  refine .intro (by decide) fun t ht d hset => ?_
  simp only [arrays, List.mem_cons, List.not_mem_nil, or_false] at ht
  rcases ht with rfl | rfl | rfl | rfl
  · cases hset
  · exact unbroken_of_leaves (by decide) (by decide)
  · exact unbroken_of_leaves (by decide) (by decide)
  · exact unbroken_of_leaves (by decide) (by decide)

theorem derivesType_arrays : DerivesType ExprGrammar.maxDepth (leaf .symbol "*" :: arrays) := by
  have hsize : ExprGrammar.Derives .whole 126
      [leaf .numeric "4", leaf .symbol "+", leaf .identifier "n"] :=
    .more (.one (.atom rfl rfl rfl))
      (show Operator.ofNode? (leaf .symbol "+") = some .plus by decide) (.atom rfl rfl rfl)
  have hstar : Operator.ofNode? (leaf .symbol "*") = some .star := by decide
  exact .pointer hstar (.array rfl rfl hsize (.slice rfl rfl (.parens rfl rfl (.atom rfl rfl rfl))))

/-- A pointer to arrays of which only the outer one has a size. -/
theorem read_type_arrays :
    Unbroken (leaf .symbol "*" :: arrays) ∧
      DerivesType ExprGrammar.maxDepth (leaf .symbol "*" :: arrays) ∧
      (read .type (leaf .symbol "*") arrays).diagnostics = [] ∧
      (read .type (leaf .symbol "*") arrays).root =
        some (typeReference (leaf .symbol "*" :: arrays)) :=
  ⟨unbroken_arrays, derivesType_arrays, (read_type _ _ unbroken_arrays).1.2 derivesType_arrays,
    (read_type _ _ unbroken_arrays).2 derivesType_arrays⟩

end ExprParse

end Metadoc
