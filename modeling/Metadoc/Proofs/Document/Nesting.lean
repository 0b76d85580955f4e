import Metadoc.Proofs.Document.Flawless

/-!
# How deep sets nest

A part of the grammar that is read without a report needs as many levels as its sets nest deep, and
is read in the same way with any number of levels that is not less.

* `Tree.nesting` counts how deep the sets of a tree nest: sets in brackets, sets without brackets
  and the arguments of tags;
* `Grammar.Part.nesting` is how many levels a part needs;
* `Grammar.Run.with_levels` : with so many levels a part is read alike.
-/

namespace Metadoc

/-! ### Trees -/

/-- Whether a node has a set. -/
def NodeData.hasSet (d : NodeData) (children : List Tree) : Bool :=
  d.facets.opened.isSome || !children.isEmpty

namespace Tree

mutual

/-- How deep the sets of a tree nest, those of its tags included. -/
def nesting : Tree → Nat
  | .node _ d ts cs => max (nestingAll ts) (if d.hasSet cs then nestingAll cs + 1 else 0)

/-- How deep the sets of trees nest. -/
def nestingAll : List Tree → Nat
  | [] => 0
  | t :: ts => max (nesting t) (nestingAll ts)

end

@[simp] theorem nestingAll_nil : nestingAll [] = 0 := rfl

@[simp] theorem nestingAll_cons (t : Tree) (ts : List Tree) :
    nestingAll (t :: ts) = max t.nesting (nestingAll ts) := rfl

end Tree

namespace Grammar

open Metadoc.Tree (nestingAll)

theorem nesting_close (id start : Nat) (kind : NodeKind) (label : Label) (facets : Facets)
    (children : List Tree) (s : State) :
    (close id start kind label facets children s).value.nesting =
      if facets.opened.isSome || !children.isEmpty then nestingAll children + 1 else 0 :=
  Nat.zero_max _

theorem nesting_dress (pre : String) (ts : List Tree) {t : Tree} (h : t.tags = []) :
    (dress pre ts t).nesting = max (nestingAll ts) t.nesting := by
  cases t
  cases h
  exact congrArg (max _) (Nat.zero_max _).symm

theorem nesting_precede (sep : Option Separator) (t : Tree) :
    (precede sep t).nesting = t.nesting := by
  cases t
  rfl

theorem nesting_follow (sep : Separator) (t : Tree) (s : State) :
    (follow sep t s).value.nesting = t.nesting := by
  cases t
  unfold follow
  dsimp only
  split <;> rfl

/-! ### Runs -/

/-- How many levels a part needs that has yielded `b`. -/
def Part.nesting (b : SetBody) : Part → Nat
  | .bracketed .. | .line .. => nestingAll b.children + 1
  | _ => nestingAll b.children

variable {n : Nat} {s : State}

theorem Run.opened {id : Nat} {opened : Delimiter} {r : Read SetBody}
    (h : Run n (.bracketed id opened) s r) : r.value.opened = some opened := by
  cases h <;> rfl

theorem Run.children_ne_nil {id : Nat} {label : Span} {r : Read SetBody}
    (h : Run n (.line id label) s r) (hq : r.state.reports = []) : r.value.children ≠ [] := by
  cases h with
  | lineMissing _ => exact absurd hq (reports_report _ _ _ _)
  | lineRefused _ => exact absurd ((grows_skip ..).reports_eq_nil hq) (reports_report _ _ _ _)
  | lineRead _ body =>
    generalize hr : Read.many _ = r at body
    cases body with
    | lineLast _ _ => exact List.cons_ne_nil _ _
    | lineCons _ _ _ => exact List.cons_ne_nil _ _

/-- What is read without a report is read in the same way with as many levels as it needs. -/
theorem Run.with_levels {part : Part} {r : Read SetBody} (h : Run n part s r)
    (hq : r.state.reports = []) : ∀ {m : Nat}, part.nesting r.value ≤ m → Run m part s r := by
  induction h with
  | namelessTag _ _ =>
    exact absurd ((State.grows_claim _).reports_eq_nil hq) (reports_report _ _ _ _)
  | plainTag hat hl hargs => exact fun _ => .plainTag hat hl hargs
  | @tagWithArguments _ s l r hat hl hargs args ih =>
    intro m hm
    refine .tagWithArguments hat hl hargs (ih ((State.grows_claim _).reports_eq_nil hq) ?_)
    simpa [Part.nesting, nesting_close, args.opened] using hm
  | tagsEnd hat => exact fun _ => .tagsEnd hat
  | tagsCons hat first rest ihFirst ihRest =>
    intro m hm
    obtain ⟨hfirst, hrest⟩ := Nat.max_le.1 hm
    have hnesting := ihFirst (rest.grows.reports_eq_nil hq) (by simpa [Part.nesting] using hfirst)
    exact .tagsCons hat hnesting (ihRest hq hrest)
  | bracketedRefused _ =>
    exact absurd ((grows_skip ..).reports_eq_nil hq) (reports_report _ _ _ _)
  | bracketedClosed ho body hc ih =>
    intro m hm
    obtain ⟨m, rfl⟩ := Nat.exists_eq_add_of_le' (Nat.le_trans (Nat.le_add_left 1 _) hm)
    exact .bracketedClosed ho (ih ((State.grows_advance _).reports_eq_nil hq)
      (Nat.le_of_succ_le_succ hm)) hc
  | bracketedOpen _ _ _ => exact absurd hq (reports_report _ _ _ _)
  | lineMissing _ => exact absurd hq (reports_report _ _ _ _)
  | lineRefused _ => exact absurd ((grows_skip ..).reports_eq_nil hq) (reports_report _ _ _ _)
  | lineRead hm body ih =>
    intro m hle
    obtain ⟨m, rfl⟩ := Nat.exists_eq_add_of_le' (Nat.le_trans (Nat.le_add_left 1 _) hle)
    exact .lineRead hm (ih hq (Nat.le_of_succ_le_succ hle))
  | label hl hp => exact fun _ => .label hl hp
  | @labeledSet _ _ _ s l opened r hl hp ho hn body ih =>
    intro m hm
    have hquiet := (State.grows_claim _).reports_eq_nil ((grows_reportCramped ..).reports_eq_nil hq)
    refine .labeledSet hl hp ho hn (ih hquiet ?_)
    simpa [Part.nesting, reportCramped_value, labeledNode, nesting_close, body.opened] using hm
  | @labeledLine _ _ _ s l r hl hp ho body ih =>
    intro m hm
    have hquiet := (State.grows_claim _).reports_eq_nil hq
    have hne := body.children_ne_nil hquiet
    refine .labeledLine hl hp ho (ih hquiet ?_)
    simpa [Part.nesting, labeledNode, nesting_close, hne] using hm
  | @unlabeled _ _ _ s opened r hl ho body ih =>
    intro m hm
    refine .unlabeled hl ho (ih ((State.grows_claim _).reports_eq_nil hq) ?_)
    simpa [Part.nesting, nesting_close, body.opened] using hm
  | untaggable hs ht => exact fun _ => .untaggable hs ht
  | unexpected hl ho he => exact fun _ => .unexpected hl ho he
  | @node _ _ s ts t tags bare ihTags ihBare =>
    intro m hm
    obtain ⟨htagless, -⟩ := bare.unfollowed t.value List.mem_cons_self
    simp only [Part.nesting, Read.one_value, Tree.nestingAll_cons, Tree.nestingAll_nil,
      nesting_dress _ _ htagless, Nat.max_le] at hm
    refine .node (ihTags (bare.grows.reports_eq_nil hq) hm.1.1) (ihBare hq ?_)
    simpa [Part.nesting] using hm.1.2
  | entry _ ih => exact fun hm => .entry (ih hq hm)
  | stray hs hat => exact fun _ => .stray hs hat
  | entriesEnd he => exact fun _ => .entriesEnd he
  | extraSeparator _ _ rest _ =>
    exact absurd (rest.grows.reports_eq_nil hq) (reports_unexpected _)
  | @separated _ _ pending s e sep r he hs first hsep rest ihFirst ihRest =>
    intro m hm
    obtain ⟨hfirst, hrest⟩ := Nat.max_le.1 hm
    rw [nesting_follow, nesting_precede] at hfirst
    have hquiet := (grows_follow ..).reports_eq_nil (rest.grows.reports_eq_nil hq)
    exact .separated he hs (ihFirst hquiet (by simpa [Part.nesting] using hfirst)) hsep
      (ihRest hq hrest)
  | @unseparated _ _ pending s e r he hs first hsep rest ihFirst ihRest =>
    intro m hm
    obtain ⟨hfirst, hrest⟩ := Nat.max_le.1 hm
    rw [nesting_precede] at hfirst
    exact .unseparated he hs (ihFirst (rest.grows.reports_eq_nil hq)
      (by simpa [Part.nesting] using hfirst)) hsep (ihRest hq hrest)
  | lineLast _ he ih => exact fun hm => .lineLast (ih hq hm) he
  | lineCons first he rest ihFirst ihRest =>
    intro m hm
    obtain ⟨hfirst, hrest⟩ := Nat.max_le.1 hm
    exact .lineCons (ihFirst (rest.grows.reports_eq_nil hq) (by simpa [Part.nesting] using hfirst))
      he (ihRest hq hrest)

end Grammar

end Metadoc
