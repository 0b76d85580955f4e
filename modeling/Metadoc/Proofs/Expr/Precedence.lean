import Metadoc.Proofs.Expr.Derivation

/-!
# Reading arithmetic by precedence

* `Means.reads` : what has a meaning is read as that, without a report;
* `Outcome` says how reading ends when no node ahead is an error: with one more report, or behind a
  list that is derivable;
* `sum_outcome` : that is how arithmetic is read, on any number of levels;
* `ExprParse.read_expression` : nothing is reported just when the nodes are derivable, and then the
  expression is the reference.
-/

namespace Metadoc

namespace ExprGrammar

/-! ### What has a meaning is read -/

/-- Reading yields an expression without a report, and leaves the nodes `rest`. -/
structure Reads (s : ExprState) (e : Expr) (rest : List Tree) (r : ExprRead) : Prop where
  /-- The expression. -/
  value : r.value = some e
  /-- What is left. -/
  ahead : r.state.ahead = rest
  /-- Nothing is reported. -/
  reports : r.state.reports = s.reports

theorem Reads.complete {s : ExprState} {e : Expr} {r : ExprRead} (h : Reads s e [] r)
    (problem : String → ExprProblem) : complete problem r = r := by
  rw [ExprGrammar.complete, h.value, h.ahead]

variable {inner : Option ExprLevels} {takes : Operator → Bool}
  {operand : Operator → ExprState → ExprRead} {s s' : ExprState} {e : Expr} {rest : List Tree}

/-- Reading an operand and what `chain` takes behind it comes to the state `s'` with the expression
`e`, with enough rounds left for the nodes ahead. -/
def Reaches (inner : Option ExprLevels) (takes : Operator → Bool)
    (operand : Operator → ExprState → ExprRead) (s : ExprState) (e : Expr) (s' : ExprState) :
    Prop :=
  ∃ k, s'.ahead.length ≤ k ∧ chained inner takes operand s = chain takes operand k e s'

theorem reaches_signed (h : Reads s e rest (signed inner s)) :
    Reaches inner takes operand s e (signed inner s).state := by
  refine ⟨_, Nat.le_refl _, ?_⟩
  rw [chained]
  simp only [h.value]

theorem Reaches.step (h : Reaches inner takes operand s e s') {o : Tree} {behind : List Tree}
    {op : Operator} {e' : Expr} (hahead : s'.ahead = o :: behind) (hne : behind ≠ [])
    (hle : rest.length ≤ behind.length) (ho : Operator.ofNode? o = some op)
    (htakes : takes op = true)
    (hright : Reads (s'.step o behind) e' rest (operand op (s'.step o behind))) :
    ∃ s'', Reaches inner takes operand s (.binary op.kind e e') s'' ∧ s''.ahead = rest ∧
      s''.reports = s'.reports := by
  obtain ⟨k, hk, heq⟩ := h
  rw [hahead] at hk
  obtain ⟨k, rfl⟩ : ∃ j, k = j + 1 := ⟨k - 1, by simp only [List.length_cons] at hk; omega⟩
  have hempty : behind.isEmpty = false := List.isEmpty_eq_false_iff.2 hne
  refine ⟨((operand op (s'.step o behind)).state.build (.binary op.kind e e')).state,
    ⟨k, ?_, ?_⟩, hright.ahead, hright.reports⟩
  · have hlength : rest.length ≤ k := Nat.le_trans hle (Nat.le_of_succ_le_succ hk)
    rw [← hright.ahead] at hlength
    exact hlength
  · rw [heq, chain, hahead]
    simp only [ho, htakes, hempty, hright.value, if_true, Bool.false_eq_true, if_false]

theorem Reaches.stop (h : Reaches inner takes operand s e s')
    (hstop : ∀ op, s'.ahead.head?.bind Operator.ofNode? = some op → takes op = false) :
    chained inner takes operand s = ⟨some e, s'⟩ := by
  obtain ⟨k, -, heq⟩ := h
  rw [heq]
  cases k with
  | zero => rfl
  | succ k =>
    rw [chain]
    cases hahead : s'.ahead with
    | nil => rfl
    | cons t rest =>
      cases ht : Operator.ofNode? t with
      | none => simp only [ht]
      | some op =>
        have htakes : takes op = false := hstop op (by rw [hahead]; exact ht)
        simp only [ht, htakes, Bool.false_eq_true, if_false]

/-- What stands right of an operator in a sum. -/
def sumOperand (inner : Option ExprLevels) (op : Operator) : ExprState → ExprRead :=
  if op.isTight then signed inner else product inner

theorem sum_eq_chained (inner : Option ExprLevels) :
    sum inner = chained inner (fun _ => true) (sumOperand inner) := rfl

/-- How a list of a rank is read when it means `e`: as `e`, and a product or a sum up to a place
where it may end. -/
def Rank.ReadsAs (n : Nat) (ts : List Tree) (e : Expr) : Rank → Prop
  | .unary => ∀ s rest, s.ahead = ts ++ rest → Reads s e rest (signed (levels n) s)
  | .product => ∀ takes operand,
      (∀ op : Operator, op.isTight = true → takes op = true ∧ operand op = signed (levels n)) →
        ∀ s rest, s.ahead = ts ++ rest →
          ∃ s', Reaches (levels n) takes operand s e s' ∧ s'.ahead = rest ∧
            s'.reports = s.reports
  | .sum => ∀ s rest, s.ahead = ts ++ rest →
      (∀ op : Operator, rest.head?.bind Operator.ofNode? = some op → op.isTight = false) →
        ∃ s', Reaches (levels n) (fun _ => true) (sumOperand (levels n)) s e s' ∧
          s'.ahead = rest ∧ s'.reports = s.reports

/-- A product ends where no tight operator is ahead. -/
theorem reads_product {n : Nat} {ts : List Tree} (h : Rank.ReadsAs n ts e .product)
    (hahead : s.ahead = ts ++ rest)
    (hrest : ∀ op : Operator, rest.head?.bind Operator.ofNode? = some op → op.isTight = false) :
    Reads s e rest (product (levels n) s) := by
  obtain ⟨s', hreaches, hs', hreports⟩ :=
    h Operator.isTight (fun _ => signed (levels n)) (fun op hop => ⟨hop, rfl⟩) s rest hahead
  have hstop := hreaches.stop (by rwa [hs'])
  rw [product, hstop]
  exact ⟨rfl, hs', hreports⟩

theorem reads_sum {n : Nat} {ts : List Tree} (h : Rank.ReadsAs n ts e .sum)
    (hahead : s.ahead = ts) : Reads s e [] (sum (levels n) s) := by
  obtain ⟨s', hreaches, hs', hreports⟩ := h s [] (by rw [hahead, List.append_nil]) nofun
  have hstop := hreaches.stop (by rw [hs']; nofun)
  rw [sum_eq_chained, hstop]
  exact ⟨rfl, hs', hreports⟩

theorem reads_contents {levels : ExprLevels} {mode : ExprMode} {set : Tree}
    (h : Reads (s.enter set) e [] (levels.read mode (s.enter set)))
    (problem : String → ExprProblem) :
    Reads s e s.ahead (contents mode problem set levels s) := by
  simp only [contents, h.complete]
  exact ⟨h.value, rfl, h.reports⟩

theorem parens_of_children (levels : ExprLevels) (mode : ExprMode) {t : Tree}
    (h : t.isLeaf = false) (s : ExprState) :
    parens (some levels) mode t s = contents mode .leftoverInParens t levels s :=
  if_neg (by simp [h])

/-- What has a meaning is read as that. -/
theorem Means.reads {r : Rank} {n : Nat} {ts : List Tree} {e : Expr} (h : Means r n ts e) :
    r.ReadsAs n ts e := by
  -- Left operands are read by one chain, right ones by a function of their own, so products and
  -- sums are followed from round to round of the chain.
  induction h with
  | @minus n t ts e ht operand ih =>
    intro s rest hahead
    obtain ⟨before, u, rfl, -⟩ := operand.exists_last
    have hinner := ih (s.step t ((before ++ [u]) ++ rest)) rest rfl
    have hempty : ((before ++ [u]) ++ rest).isEmpty = false := by simp
    rw [signed, hahead, List.cons_append]
    simp only [ht, if_true, hempty, levels, level, hinner.value, Bool.false_eq_true, if_false]
    exact ⟨rfl, hinner.ahead, hinner.reports⟩
  | @atom n t hkind hleaf ht hset =>
    intro s rest hahead
    rw [signed, hahead, List.singleton_append]
    simp only [ht, reduceCtorEq, if_false, primary, hahead, List.singleton_append, hset]
    rw [ExprGrammar.atom, if_neg hkind, if_pos hleaf]
    exact ⟨rfl, rfl, rfl⟩
  | @parens n t e hset hleaf inside ih =>
    intro s rest hahead
    have ht : Operator.ofNode? t = none := by simp [Operator.ofNode?, hleaf]
    have hinside : Reads (s.step t rest) e rest
        (contents .expression .leftoverInParens t (level (levels n)) (s.step t rest)) :=
      reads_contents (reads_sum ih rfl) _
    rw [signed, hahead, List.singleton_append]
    simp only [ht, reduceCtorEq, if_false, primary, hahead, List.singleton_append, hset]
    rw [levels, parens_of_children _ _ hleaf]
    exact ⟨hinside.value, hinside.ahead, hinside.reports⟩
  | factor _ ih =>
    intro takes operand _ s rest hahead
    have hread := ih s rest hahead
    exact ⟨_, reaches_signed hread, hread.ahead, hread.reports⟩
  | @times n ts o op us e e' first ho htight right ih ih' =>
    intro takes operand hoperand s rest hahead
    obtain ⟨s', hreaches, hs', hreports⟩ :=
      ih takes operand hoperand s (o :: us ++ rest) (by rw [hahead, List.append_assoc])
    obtain ⟨htakes, hsigned⟩ := hoperand op htight
    have hright := ih' (s'.step o (us ++ rest)) rest rfl
    rw [← hsigned] at hright
    obtain ⟨before, u, rfl, -⟩ := right.exists_last
    obtain ⟨s'', hstep, hs'', hreports'⟩ :=
      hreaches.step hs' (by simp) (by simp; omega) ho htakes hright
    exact ⟨s'', hstep, hs'', hreports'.trans hreports⟩
  | term _ ih =>
    intro s rest hahead _
    exact ih _ _ (fun op hop => ⟨rfl, if_pos hop⟩) s rest hahead
  | @plus n ts o op us e e' first ho hloose right ih ih' =>
    intro s rest hahead hrest
    have hbehind : ∀ op' : Operator,
        (o :: us ++ rest).head?.bind Operator.ofNode? = some op' → op'.isTight = false := by
      intro op' hop'
      cases ho.symm.trans hop'
      exact hloose
    obtain ⟨s', hreaches, hs', hreports⟩ :=
      ih s (o :: us ++ rest) (by rw [hahead, List.append_assoc]) hbehind
    -- The product on the right takes the tight operators behind it, and no loose one.
    have hright := reads_product (s := s'.step o (us ++ rest)) ih' rfl hrest
    have hproduct : sumOperand (levels n) op = product (levels n) := by
      rw [sumOperand, hloose]
      rfl
    rw [← hproduct] at hright
    obtain ⟨before, u, rfl, -⟩ := right.exists_last
    obtain ⟨s'', hstep, hs'', hreports'⟩ :=
      hreaches.step hs' (by simp) (by simp; omega) ho rfl hright
    exact ⟨s'', hstep, hs'', hreports'.trans hreports⟩

/-! ### How reading ends -/

/-- How reading from the state `s` ends: with one more report, or behind a list of which `P`
holds. -/
inductive Outcome (P : List Tree → Prop) (s : ExprState) (r : ExprRead) : Prop
  /-- Something has been reported. -/
  | reported (ahead : r.state.ahead <:+ s.ahead)
      (reports : s.reports.length < r.state.reports.length)
  /-- A list has been read. -/
  | read {ts} (ahead : s.ahead = ts ++ r.state.ahead) (reports : r.state.reports = s.reports)
      (value : r.value.isSome = true) (holds : P ts)

namespace Outcome

variable {P Q R : List Tree → Prop} {r : ExprRead}

theorem suffix (h : Outcome P s r) : r.state.ahead <:+ s.ahead := by
  cases h with
  | reported ahead _ => exact ahead
  | read ahead _ _ _ => exact ⟨_, ahead.symm⟩

theorem reports_le (h : Outcome P s r) : s.reports.length ≤ r.state.reports.length := by
  cases h with
  | reported _ reports => exact Nat.le_of_lt reports
  | read _ reports _ _ => exact Nat.le_of_eq (congrArg List.length reports.symm)

/-- Only what is ahead of a state and what has been reported count. -/
theorem congr (h : Outcome P s r) (hahead : s'.ahead = s.ahead)
    (hreports : s'.reports = s.reports) : Outcome P s' r := by
  cases h with
  | reported ahead reports => exact .reported (hahead ▸ ahead) (hreports ▸ reports)
  | read ahead reports value holds =>
    exact .read (hahead.trans ahead) (reports.trans hreports.symm) value holds

theorem mono (h : Outcome P s r) (hPQ : ∀ ts, P ts → Q ts) : Outcome Q s r := by
  cases h with
  | reported ahead reports => exact .reported ahead reports
  | read ahead reports value holds => exact .read ahead reports value (hPQ _ holds)

theorem fail (h : s'.ahead <:+ s.ahead) (hreports : s'.reports = s.reports) (problem : ExprProblem)
    (t : Tree) : Outcome P s (s'.fail problem t) := by
  refine .reported h ?_
  rw [← hreports]
  simp [ExprState.fail, ExprState.report]

theorem failDeep (hreports : s'.reports = s.reports) (t : Tree) :
    Outcome P s (s'.failDeep t) := by
  have hnil : ExprState.ahead { s' with ahead := [] } <:+ s.ahead := List.nil_suffix
  exact fail hnil hreports .tooDeep t

theorem behind {t : Tree} (h : Outcome P (s.step t rest) r) (hahead : s.ahead = t :: rest)
    (hPQ : ∀ ts, P ts → Q (t :: ts)) : Outcome Q s r := by
  cases h with
  | reported ahead reports =>
    refine .reported (ahead.trans ?_) reports
    rw [hahead]
    exact List.suffix_cons t rest
  | read ahead reports value holds =>
    refine .read ?_ reports value (hPQ _ holds)
    rw [hahead, List.cons_append, ← ahead]
    rfl

/-- What is to be the whole is all that is ahead, unless something is reported. -/
theorem complete (h : Outcome P s r) (problem : String → ExprProblem) :
    s.reports.length < (complete problem r).state.reports.length ∨
      (complete problem r).state.reports = s.reports ∧
        (complete problem r).value.isSome = true ∧ P s.ahead := by
  obtain ⟨value, behind⟩ := r
  cases value with
  | none =>
    cases h with
    | reported _ reports => exact .inl reports
    | read _ _ value _ => cases value
  | some e =>
    -- Nodes that are left over are reported.
    cases hahead : behind.ahead with
    | nil =>
      have hcomplete : ExprGrammar.complete problem ⟨some e, behind⟩ = ⟨some e, behind⟩ := by
        simp only [ExprGrammar.complete, hahead]
      rw [hcomplete]
      cases h with
      | reported _ reports => exact .inl reports
      | read ahead reports value holds =>
        have hall : s.ahead = _ ++ behind.ahead := ahead
        rw [hahead, List.append_nil] at hall
        exact .inr ⟨reports, rfl, hall ▸ holds⟩
    | cons t rest =>
      have hcomplete : ExprGrammar.complete problem ⟨some e, behind⟩ =
          ⟨some e, behind.report (problem t.data.raw) t⟩ := by
        simp only [ExprGrammar.complete, hahead]
      have hle : s.reports.length ≤ behind.reports.length := h.reports_le
      rw [hcomplete]
      refine .inl ?_
      simp only [ExprState.report, List.length_append, List.length_singleton]
      omega

theorem trans {r' : ExprRead} (h : Outcome P s r) (h' : Outcome Q r.state r')
    (hR : ∀ ts us, P ts → Q us → R (ts ++ us)) : Outcome R s r' := by
  cases h with
  | reported ahead reports =>
    exact .reported (h'.suffix.trans ahead) (Nat.lt_of_lt_of_le reports h'.reports_le)
  | read ahead reports _ holds =>
    cases h' with
    | reported ahead' reports' =>
      rw [reports] at reports'
      exact .reported (ahead'.trans ⟨_, ahead.symm⟩) reports'
    | read ahead' reports' value' holds' =>
      refine .read ?_ (reports'.trans reports) value' (hR _ _ holds holds')
      rw [ahead, ahead', List.append_assoc]

theorem of_none (h : Outcome P s r) (hv : r.value = none) :
    r.state.ahead <:+ s.ahead ∧ s.reports.length < r.state.reports.length := by
  cases h with
  | reported ahead reports => exact ⟨ahead, reports⟩
  | read _ _ value _ =>
    rw [hv] at value
    cases value

theorem andThen (h : Outcome P s r) {f : Expr → ExprRead}
    (hf : ∀ e, Outcome Q r.state (f e)) (hR : ∀ ts us, P ts → Q us → R (ts ++ us)) :
    Outcome R s (match r.value with | none => r | some e => f e) := by
  cases hv : r.value with
  | none =>
    obtain ⟨ahead, reports⟩ := h.of_none hv
    exact .reported ahead reports
  | some e => exact h.trans (hf e) hR

end Outcome

theorem outcome_build (s : ExprState) (e : Expr) : Outcome (· = []) s (s.build e) :=
  .read rfl rfl rfl rfl

theorem suffix_step {t : Tree} (hahead : s.ahead = t :: rest) : (s.step t rest).ahead <:+ s.ahead :=
  hahead ▸ List.suffix_cons t rest

theorem outcome_atom {P : List Tree → Prop} {t : Tree} (hahead : s.ahead = t :: rest)
    (hkind : t.data.kind ≠ .error) (hP : t.isLeaf = true → P [t]) :
    Outcome P s (atom t (s.step t rest)) := by
  rw [atom, if_neg hkind]
  by_cases hleaf : t.isLeaf = true
  · rw [if_pos hleaf]
    exact .read hahead rfl rfl (hP hleaf)
  · rw [if_neg hleaf]
    exact .fail (suffix_step hahead) rfl _ _

/-- The contents of a set are read as a whole, or something is reported; what is ahead stays
ahead. -/
theorem outcome_contents {P : List Tree → Prop} {levels : ExprLevels} {mode : ExprMode}
    {set : Tree} (h : Outcome P (s.enter set) (levels.read mode (s.enter set)))
    (problem : String → ExprProblem) :
    let r := contents mode problem set levels s
    r.state.ahead = s.ahead ∧ (s.reports.length < r.state.reports.length ∨
      r.state.reports = s.reports ∧ r.value.isSome = true ∧ P set.children) :=
  ⟨rfl, h.complete problem⟩

/-- How arithmetic is read with `n` levels left when no node ahead is an error. -/
def SumOutcome (n : Nat) : Prop :=
  ∀ s : ExprState, Intact s.ahead → Outcome (Derives .whole n) s (sum (levels n) s)

/-- How an operand is read with `n` levels left when no node ahead is an error. -/
def OperandOutcome (n : Nat) : Prop :=
  ∀ s : ExprState, Intact s.ahead → Outcome (Derives .operand n) s (signed (levels n) s)

theorem outcome_parens {P : Nat → List Tree → Prop} {Q : List Tree → Prop} {n : Nat}
    {mode : ExprMode} {t : Tree} (hahead : s.ahead = t :: rest)
    (hinside : ∀ m, n = m + 1 → ∀ s : ExprState, s.ahead = t.children →
      Outcome (P m) s ((level (levels m)).read mode s))
    (hset : ∀ m, n = m + 1 → t.isLeaf = false → P m t.children → Q [t]) :
    Outcome Q s (parens (levels n) mode t (s.step t rest)) := by
  by_cases hleaf : t.isLeaf = true
  · rw [show parens (levels n) mode t (s.step t rest) = _ from if_pos hleaf]
    exact .fail (suffix_step hahead) rfl _ _
  · cases n with
    | zero =>
      rw [show parens (levels 0) mode t (s.step t rest) = _ from if_neg hleaf]
      exact .failDeep (show (s.step t rest).reports = s.reports from rfl) t
    | succ n =>
      rw [Bool.not_eq_true] at hleaf
      rw [levels, parens_of_children _ _ hleaf]
      have hread := hinside n rfl ((s.step t rest).enter t) rfl
      obtain ⟨-, hlt | ⟨hreports, hvalue, hholds⟩⟩ := outcome_contents hread .leftoverInParens
      · exact .reported (suffix_step hahead) hlt
      · exact .read hahead hreports hvalue (hset n rfl hleaf hholds)

theorem outcome_primary {n : Nat} (hs : Intact s.ahead) (hinside : ∀ m, n = m + 1 → SumOutcome m) :
    Outcome (Derives .operand n) s (primary (levels n) s) := by
  rw [primary]
  cases hahead : s.ahead with
  | nil => exact .fail List.suffix_rfl rfl _ _
  | cons t rest =>
    dsimp only
    cases ht : Operator.ofNode? t with
    | some op => exact .fail (suffix_step hahead) rfl _ _
    | none =>
      have hkind := hs.kind (hahead ▸ List.mem_cons_self)
      cases hset : t.unlabeledSet? with
      | none => exact outcome_atom hahead hkind fun hleaf => .atom hleaf ht hset
      | some d =>
        cases d with
        | paren =>
          have hchildren := hs.children (hahead ▸ List.mem_cons_self) hset
          refine outcome_parens (P := Derives .whole) hahead
            (fun m hm s hs => hinside m hm s (hs ▸ hchildren)) ?_
          rintro m rfl hleaf hderives
          exact .parens hset hleaf hderives
        | bracket | brace => exact .fail (suffix_step hahead) rfl _ _

theorem outcome_signed {n : Nat}
    (hinside : ∀ m, n = m + 1 → OperandOutcome m ∧ SumOutcome m) : OperandOutcome n := by
  intro s hs
  have hprimary := outcome_primary hs fun m hm => (hinside m hm).2
  rw [signed]
  cases hahead : s.ahead with
  | nil => exact hprimary
  | cons t rest =>
    dsimp only
    by_cases hminus : Operator.ofNode? t = some .minus
    · rw [if_pos hminus]
      by_cases hempty : rest.isEmpty = true
      · rw [if_pos hempty]
        exact .fail (suffix_step hahead) rfl _ _
      · rw [if_neg hempty]
        cases n with
        | zero => exact .failDeep (show (s.step t rest).reports = s.reports from rfl) t
        | succ n =>
          have hrest : Intact rest := hs.mono (by rw [hahead]; exact List.subset_cons_self t rest)
          have hread := (hinside n rfl).1 (s.step t rest) hrest
          have hbuilt := hread.andThen (R := Derives .operand n)
            (fun e => outcome_build _ (.unary .negate e))
            (fun ts us hts hus => by rwa [hus, List.append_nil])
          exact hbuilt.behind hahead fun ts hts => .minus hminus hts
    · rw [if_neg hminus]
      exact hprimary

/-- A list that can stand behind any whole. -/
def Extends (n : Nat) (us : List Tree) : Prop :=
  ∀ ts, Derives .whole n ts → Derives .whole n (ts ++ us)

theorem extends_nil (n : Nat) : Extends n [] := fun ts h => by rwa [List.append_nil]

theorem Extends.append {n : Nat} {us vs : List Tree} (h : Extends n us) (h' : Extends n vs) :
    Extends n (us ++ vs) := by
  intro ts hts
  rw [← List.append_assoc]
  exact h' _ (h ts hts)

/-- An operator and a whole behind it can stand behind any whole. -/
theorem Derives.extends_cons {c : Category} {n : Nat} {o : Tree} {op : Operator} {us : List Tree}
    (ho : Operator.ofNode? o = some op) (h : Derives c n us) (hc : c = .whole) :
    Extends n (o :: us) := by
  induction h with
  | minus | atom | parens => cases hc
  | one first => exact fun ts hts => .more hts ho first
  | @more n vs o' op' us first ho' operand ih _ =>
    intro ts hts
    have hfirst := ih rfl ts hts
    rw [← List.cons_append, ← List.append_assoc]
    exact .more hfirst ho' operand

/-- How what stands right of operators is read with `n` levels left. -/
def OperandsOutcome (n : Nat) (operand : Operator → ExprState → ExprRead) : Prop :=
  ∀ op s, Intact s.ahead → Outcome (Derives .whole n) s (operand op s)

theorem outcome_chain {n : Nat} (hoperand : OperandsOutcome n operand) :
    ∀ k left s, Intact s.ahead → Outcome (Extends n) s (chain takes operand k left s) := by
  intro k
  induction k with
  | zero =>
    intro left s _
    exact .read rfl rfl rfl (extends_nil n)
  | succ k ih =>
    intro left s hs
    have hstay : Outcome (Extends n) s ⟨some left, s⟩ := .read rfl rfl rfl (extends_nil n)
    rw [chain]
    cases hahead : s.ahead with
    | nil => exact hstay
    | cons t rest =>
      dsimp only
      cases ht : Operator.ofNode? t with
      | none => exact hstay
      | some op =>
        dsimp only
        by_cases htakes : takes op = true
        · rw [if_pos htakes]
          by_cases hempty : rest.isEmpty = true
          · rw [if_pos hempty]
            refine .reported (suffix_step hahead) ?_
            simp [ExprState.report, ExprState.step]
          · rw [if_neg hempty]
            have hrest : Intact rest := hs.mono (by rw [hahead]; exact List.subset_cons_self t rest)
            have hright := hoperand op (s.step t rest) hrest
            -- Where the right side fails, its report is that of the whole.
            cases hv : (operand op (s.step t rest)).value with
            | none =>
              obtain ⟨ahead, reports⟩ := hright.of_none hv
              exact .reported (ahead.trans (suffix_step hahead)) reports
            | some right =>
              have hbehind := hrest.mono hright.suffix.subset
              have hnext := (outcome_build _ (.binary op.kind left right)).trans (R := Extends n)
                (ih (.binary op.kind left right) _ hbehind) (fun ts us h h' => by rwa [h])
              have hboth := hright.trans (R := fun ts => Extends n (t :: ts)) hnext
                fun ts us hts hus => (hts.extends_cons ht rfl).append hus
              exact hboth.behind hahead fun ts hts => hts
        · rw [if_neg htakes]
          exact hstay

theorem outcome_chained {n : Nat} (hsigned : OperandOutcome n)
    (hoperand : OperandsOutcome n operand) (hs : Intact s.ahead) :
    Outcome (Derives .whole n) s (chained (levels n) takes operand s) := by
  have hfirst := hsigned s hs
  exact hfirst.andThen
    (fun e => outcome_chain hoperand _ e _ (hs.mono hfirst.suffix.subset))
    (fun ts us hts hus => hus ts (.one hts))

/-- Arithmetic is read as derivable, or something is reported, on any number of levels. -/
theorem outcome_levels (n : Nat) : OperandOutcome n ∧ SumOutcome n := by
  -- On each level sums come from operands; operands come from the level below.
  have hlevel {n : Nat} (hsigned : OperandOutcome n) : SumOutcome n := by
    have hone : OperandsOutcome n fun _ => signed (levels n) :=
      fun op s hs => (hsigned s hs).mono fun ts h => .one h
    have hboth : OperandsOutcome n (sumOperand (levels n)) := by
      intro op s hs
      rw [sumOperand]
      split
      · exact hone op s hs
      · exact outcome_chained hsigned hone hs
    exact fun s hs => outcome_chained hsigned hboth hs
  induction n with
  | zero =>
    have hsigned : OperandOutcome 0 := outcome_signed nofun
    exact ⟨hsigned, hlevel hsigned⟩
  | succ n ih =>
    have hsigned : OperandOutcome (n + 1) := outcome_signed fun m hm => by
      cases hm
      exact ih
    exact ⟨hsigned, hlevel hsigned⟩

end ExprGrammar

namespace ExprParse

open ExprGrammar (Derives Intact Outcome reference)

/-- When nothing is reported, all nodes have been read. -/
theorem holds_of_diagnostics {P : List Tree → Prop} {mode : ExprMode} {first : Tree}
    {rest : List Tree}
    (h : Outcome P { ahead := first :: rest, anchor := first }
      ((ExprGrammar.level (ExprGrammar.levels ExprGrammar.maxDepth)).read mode
        { ahead := first :: rest, anchor := first }))
    (hquiet : (read mode first rest).diagnostics = []) : P (first :: rest) := by
  have hnil : (read mode first rest).reports = [] := List.map_eq_nil_iff.1 hquiet
  rcases h.complete (.leftover · mode) with hlt | ⟨-, -, hholds⟩
  · have hlt' : 0 < (read mode first rest).reports.length := hlt
    rw [hnil] at hlt'
    cases hlt'
  · exact hholds

/-- Nodes without errors are read without a diagnostic just when the grammar without ranks derives
them, and then as their reference: parted at the last loose operator, else at the last tight one. -/
theorem read_expression (first : Tree) (rest : List Tree) (h : Intact (first :: rest)) :
    ((read .expression first rest).diagnostics = [] ↔
      Derives .whole ExprGrammar.maxDepth (first :: rest)) ∧
    (Derives .whole ExprGrammar.maxDepth (first :: rest) →
      (read .expression first rest).root = some (reference (first :: rest))) := by
  have hread := (ExprGrammar.outcome_levels ExprGrammar.maxDepth).2
    { ahead := first :: rest, anchor := first } h
  have hderived (hd : Derives .whole ExprGrammar.maxDepth (first :: rest)) :
      (read .expression first rest).diagnostics = [] ∧
        (read .expression first rest).root = some (reference (first :: rest)) := by
    obtain ⟨e, he⟩ := hd.exists_means h
    have hsum := ExprGrammar.reads_sum (s := { ahead := first :: rest, anchor := first })
      he.reads rfl
    have hcomplete := hsum.complete (.leftover · .expression)
    constructor
    · have hreports : (read .expression first rest).reports = [] :=
        (congrArg (·.state.reports) hcomplete).trans hsum.reports
      rw [diagnostics, hreports, List.map_nil]
    · rw [← he.eq_reference]
      exact (congrArg (·.value) hcomplete).trans hsum.value
  exact ⟨⟨holds_of_diagnostics hread, fun hd => (hderived hd).1⟩, fun hd => (hderived hd).2⟩

/-- A leaf with a label of a given kind. -/
def leaf (kind : LiteralKind) (text : String) : Tree :=
  .node 0 { NodeData.plain .main text with facets := { literal := some kind } } [] []

/-- What follows the `1` in `1 - 2 * -(3)`. -/
def difference : List Tree :=
  [leaf .symbol "-", leaf .numeric "2", leaf .symbol "*", leaf .symbol "-",
    .node 0 { NodeData.plain .main "" with facets := { opened := some .paren } } []
      [leaf .numeric "3"]]

theorem intact_difference : Intact (leaf .numeric "1" :: difference) := by
  have hinside : Intact [leaf .numeric "3"] := by
    refine .intro (by decide) fun t ht hset => ?_
    cases List.mem_singleton.1 ht
    cases hset
  refine .intro (by decide) fun t ht hset => ?_
  simp only [difference, List.mem_cons, List.not_mem_nil, or_false] at ht
  rcases ht with rfl | rfl | rfl | rfl | rfl | rfl
  · cases hset
  · cases hset
  · cases hset
  · cases hset
  · cases hset
  · exact hinside

theorem derives_difference :
    Derives .whole ExprGrammar.maxDepth (leaf .numeric "1" :: difference) := by
  have hone : Derives .whole 128 [leaf .numeric "1"] := .one (.atom rfl rfl rfl)
  have htwo : Derives .operand 128 [leaf .numeric "2"] := .atom rfl rfl rfl
  have hthree : Derives .whole 126 [leaf .numeric "3"] := .one (.atom rfl rfl rfl)
  have hminus : Operator.ofNode? (leaf .symbol "-") = some .minus := by decide
  have hstar : Operator.ofNode? (leaf .symbol "*") = some .star := by decide
  exact .more (.more hone hminus htwo) hstar (.minus hminus (.parens rfl rfl hthree))

/-- The product of `1 - 2 * -(3)` is taken first. -/
theorem read_expression_difference :
    Intact (leaf .numeric "1" :: difference) ∧
      Derives .whole ExprGrammar.maxDepth (leaf .numeric "1" :: difference) ∧
      (read .expression (leaf .numeric "1") difference).diagnostics = [] ∧
      (read .expression (leaf .numeric "1") difference).root =
        some (reference (leaf .numeric "1" :: difference)) :=
  ⟨intact_difference, derives_difference,
    (read_expression _ _ intact_difference).1.2 derives_difference,
    (read_expression _ _ intact_difference).2 derives_difference⟩

end ExprParse

end Metadoc
