import Metadoc.Proofs.Expr.Precedence

/-!
# Reading types

* `ExprGrammar.MeansType` is the grammar of types, which says what a list means;
* `MeansType.reads` : what has a meaning is read as that, without a report;
* `ExprGrammar.MeansBy` brings the two grammars together, and `ExprParse.read_of_means` says how a
  list with a meaning is read from the outside.
-/

namespace Metadoc

namespace ExprGrammar

/-- What a list means as a type, with at most `n` signs and sets around anything. -/
inductive MeansType : Nat → List Tree → Expr → Prop
  /-- A type with a star before it. -/
  | pointer {n t ts e} (ht : Operator.ofNode? t = some .star) (pointee : MeansType n ts e) :
      MeansType (n + 1) (t :: ts) (.unary .pointer e)
  /-- A type with empty square brackets before it. -/
  | slice {n t ts e} (hset : t.unlabeledSet? = some .bracket) (hleaf : t.isLeaf = true)
      (element : MeansType n ts e) : MeansType (n + 1) (t :: ts) (.array e none)
  /-- A type with a size in square brackets before it. -/
  | array {n t ts e size} (hset : t.unlabeledSet? = some .bracket) (hleaf : t.isLeaf = false)
      (inside : Means .sum n t.children size) (element : MeansType n ts e) :
      MeansType (n + 1) (t :: ts) (.array e (some size))
  /-- A set in round brackets. -/
  | parens {n t e} (hset : t.unlabeledSet? = some .paren) (hleaf : t.isLeaf = false)
      (inside : MeansType n t.children e) : MeansType (n + 1) [t] e
  /-- An atom. -/
  | atom {n t} (hkind : t.data.kind ≠ .error) (hleaf : t.isLeaf = true)
      (ht : Operator.ofNode? t = none) (hset : t.unlabeledSet? = none) :
      MeansType n [t] (.atomOf t.data.string ⟨t.id, t.data.facets.literal⟩)

theorem ofNode?_of_unlabeledSet {t : Tree} {d : Delimiter} (h : t.unlabeledSet? = some d) :
    Operator.ofNode? t = none := by
  unfold Tree.unlabeledSet? at h
  split at h
  · rename_i hset
    simp [Operator.ofNode?, hset.2]
  · cases h

/-- An array type is read as its size and what comes behind the size. -/
theorem reads_bracket {levels : ExprLevels} {s : ExprState} {t : Tree} {ahead rest : List Tree}
    {e : Expr} {size : ExprRead} (hahead : s.ahead = t :: ahead)
    (hset : t.unlabeledSet? = some .bracket)
    (hsize : (if t.isLeaf then ⟨none, s.step t ahead⟩
      else contents .expression .leftoverInSize t levels (s.step t ahead)) = size)
    (hreports : size.state.reports = s.reports)
    (helement : Reads size.state e rest (levels.type size.state)) :
    Reads s (.array e size.value) rest (type (some levels) s) := by
  rw [type, hahead]
  simp only [ofNode?_of_unlabeledSet hset, reduceCtorEq, if_false, hset, hsize, helement.value]
  exact ⟨rfl, helement.ahead, helement.reports.trans hreports⟩

theorem MeansType.reads {n : Nat} {ts : List Tree} {e : Expr} (h : MeansType n ts e) :
    ∀ s rest, s.ahead = ts ++ rest → Reads s e rest (type (levels n) s) := by
  induction h with
  | @pointer n t ts e ht pointee ih =>
    intro s rest hahead
    have hinner := ih (s.step t (ts ++ rest)) rest rfl
    rw [type, hahead, List.cons_append]
    simp only [ht, if_true, levels, level, hinner.value]
    exact ⟨rfl, hinner.ahead, hinner.reports⟩
  | @slice n t ts e hset hleaf element ih =>
    intro s rest hahead
    exact reads_bracket hahead hset (if_pos hleaf) rfl (ih (s.step t (ts ++ rest)) rest rfl)
  | @array n t ts e size hset hleaf inside element ih =>
    intro s rest hahead
    -- Arithmetic is read up to the end of the set; what is behind the set stays ahead.
    have hsize : Reads (s.step t (ts ++ rest)) size (ts ++ rest)
        (contents .expression .leftoverInSize t (level (levels n)) (s.step t (ts ++ rest))) :=
      reads_contents (reads_sum inside.reads rfl) _
    rw [← hsize.value]
    exact reads_bracket hahead hset (if_neg (by simp [hleaf])) hsize.reports
      (ih _ rest hsize.ahead)
  | @parens n t e hset hleaf inside ih =>
    intro s rest hahead
    have hinner := ih ((s.step t rest).enter t) [] (List.append_nil _).symm
    have hread : Reads (s.step t rest) e rest
        (contents .type .leftoverInParens t (level (levels n)) (s.step t rest)) :=
      reads_contents hinner _
    rw [type, hahead, List.singleton_append]
    simp only [ofNode?_of_unlabeledSet hset, reduceCtorEq, if_false, hset]
    rw [levels, parens_of_children _ _ hleaf]
    exact ⟨hread.value, hread.ahead, hread.reports⟩
  | @atom n t hkind hleaf ht hset =>
    intro s rest hahead
    rw [type, hahead, List.singleton_append]
    simp only [ht, reduceCtorEq, if_false, hset]
    rw [ExprGrammar.atom, if_neg hkind, if_pos hleaf]
    exact ⟨rfl, rfl, rfl⟩

/-- What a list means as an operand or as a type, by the grammar that it is read by. -/
def MeansBy (n : Nat) (ts : List Tree) (e : Expr) : ExprMode → Prop
  | .expression => Means .unary n ts e
  | .type => MeansType n ts e

theorem MeansBy.reads {n : Nat} {ts : List Tree} {e : Expr} {mode : ExprMode}
    (h : MeansBy n ts e mode) {s : ExprState} (hahead : s.ahead = ts) :
    Reads s e [] ((level (levels n)).read mode s) := by
  cases mode with
  | expression =>
    have hsum : Means .sum n ts e := .term (.factor h)
    exact reads_sum hsum.reads hahead
  | type =>
    have htype : MeansType n ts e := h
    exact htype.reads s [] (by rw [hahead, List.append_nil])

end ExprGrammar

/-- What has a meaning is read as that, without a diagnostic. -/
theorem ExprParse.read_of_means {mode : ExprMode} {first : Tree} {rest : List Tree} {e : Expr}
    (h : ExprGrammar.MeansBy ExprGrammar.maxDepth (first :: rest) e mode) :
    (read mode first rest).diagnostics = [] ∧ (read mode first rest).root = some e := by
  let s : ExprState := { ahead := first :: rest, anchor := first }
  have hreads := h.reads (show s.ahead = first :: rest from rfl)
  have hcomplete := hreads.complete (.leftover · mode)
  have hreports : (read mode first rest).reports = [] :=
    (congrArg (·.state.reports) hcomplete).trans hreads.reports
  exact ⟨by rw [diagnostics, hreports, List.map_nil],
    (congrArg (·.value) hcomplete).trans hreads.value⟩

end Metadoc
