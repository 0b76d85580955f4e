import Metadoc.Expr.Basic
import Metadoc.Node.Basic
import Metadoc.Diagnostic.Basic

/-!
# Reading expressions out of nodes

A document knows nothing of operators: `(3 + 4) * 2` is a set followed by two leaves.  Here a part
of a list of nodes gets its structure as an expression or as a type.

* `ExprParse.read` reads a list of nodes by one of two grammars;
* `ExprGrammar.sum` is the grammar of arithmetic: `*`, `/` and `%` bind tighter than `+` and `-`,
  operators of one rank group to the left, and a set in round brackets stands for its contents;
* `ExprGrammar.type` is the grammar of types: `*T`, `[N]T`, and round brackets;
* `ExprLevels` holds how operands and contents of sets are read one level further down, and
  `ExprGrammar.levels` builds it for a given number of levels.
-/

namespace Metadoc

/-- The two grammars. -/
inductive ExprMode where
  /-- Arithmetic. -/
  | expression
  /-- Types. -/
  | type
deriving DecidableEq, Repr

/-- The word for what a grammar reads. -/
def ExprMode.word : ExprMode → String
  | .expression => "expression"
  | .type => "type"

/-- The marks of operations. -/
inductive Operator where
  /-- `+` -/
  | plus
  /-- `-` -/
  | minus
  /-- `*` -/
  | star
  /-- `/` -/
  | slash
  /-- `%` -/
  | percent
deriving DecidableEq, Repr

namespace Operator

/-- Every operator. -/
def all : List Operator := [plus, minus, star, slash, percent]

/-- The text of an operator. -/
def text : Operator → String
  | plus => "+"
  | minus => "-"
  | star => "*"
  | slash => "/"
  | percent => "%"

/-- The operation between two operands. -/
def kind : Operator → ExprKind
  | plus => .add
  | minus => .subtract
  | star => .multiply
  | slash => .divide
  | percent => .modulo

/-- Whether an operator binds tighter than the others. -/
def isTight (op : Operator) : Bool := op != plus && op != minus

/-- The operator that a node is: a leaf that was written as a symbol. -/
def ofNode? (t : Tree) : Option Operator :=
  if t.data.facets.literal = some .symbol ∧ t.isLeaf then
    all.find? fun op => op.text == t.data.string
  else none

end Operator

/-- What is wrong with an expression. -/
inductive ExprProblem where
  /-- More levels of sets and signs than are read. -/
  | tooDeep
  /-- Something behind a whole expression or type. -/
  | leftover (text : String) (mode : ExprMode)
  /-- Something behind the contents of round brackets. -/
  | leftoverInParens (text : String)
  /-- Something behind the size of an array. -/
  | leftoverInSize (text : String)
  /-- An operator with nothing behind it. -/
  | missingOperand (text : String)
  /-- Nothing where an expression or a type has to come. -/
  | nothing (mode : ExprMode)
  /-- An operator where an operand has to come. -/
  | unexpectedOperator (text : String)
  /-- A set where an operand has to come. -/
  | unexpectedSet (mode : ExprMode)
  /-- Round brackets with nothing in them. -/
  | emptyParens
  /-- A set with a label where an atom has to come. -/
  | labeledSet (text : String)
deriving DecidableEq, Repr

/-- The wording of a problem. -/
def ExprProblem.message : ExprProblem → String
  | .tooDeep => "expression nested too deeply"
  | .leftover text mode => "unexpected `" ++ text ++ "` after " ++ mode.word
  | .leftoverInParens text => "expected `)`, found `" ++ text ++ "`"
  | .leftoverInSize text => "expected `]` after the array size, found `" ++ text ++ "`"
  | .missingOperand text => "expected an operand after `" ++ text ++ "`"
  | .nothing .expression => "expected expression"
  | .nothing .type => "expected a type"
  | .unexpectedOperator text => "unexpected operator `" ++ text ++ "`"
  | .unexpectedSet .expression => "expected expression, found a set"
  | .unexpectedSet .type => "expected a type, found a set"
  | .emptyParens => "empty parentheses"
  | .labeledSet text => "expected an atom, found the set `" ++ text ++ "`"

/-- A problem found at a node. -/
structure ExprReport where
  /-- What is wrong. -/
  problem : ExprProblem
  /-- Where. -/
  span : Span
  /-- The number of the node that it is about. -/
  node : Nat
deriving DecidableEq, Repr

/-- A report in words. -/
def ExprReport.diagnostic (r : ExprReport) : Diagnostic :=
  ⟨.error, r.problem.message, r.span, some r.node⟩

/-- The state of reading an expression. -/
structure ExprState where
  /-- The nodes ahead. -/
  ahead : List Tree
  /-- The node at which something missing is reported: the last one read, or the set around. -/
  anchor : Tree
  /-- Number of expressions built so far, those given up included. -/
  count : Nat := 0
  /-- The problems found, in order. -/
  reports : List ExprReport := []

/-- What a part of the grammar yields: an expression unless reading has failed, and the state behind
what was read. -/
structure ExprRead where
  /-- The expression. -/
  value : Option Expr
  /-- The state behind. -/
  state : ExprState

namespace ExprState

variable (s : ExprState)

/-- Adds a problem at a node. -/
def report (problem : ExprProblem) (t : Tree) : ExprState :=
  { s with reports := s.reports ++ [⟨problem, t.data.span, t.id⟩] }

/-- Gives up with a problem at a node. -/
def fail (problem : ExprProblem) (t : Tree) : ExprRead := ⟨none, s.report problem t⟩

/-- Yields an expression that has been built. -/
def build (e : Expr) : ExprRead := ⟨some e, { s with count := s.count + 1 }⟩

/-- Steps over the node `t` ahead, before the nodes `rest`. -/
def step (t : Tree) (rest : List Tree) : ExprState := { s with ahead := rest, anchor := t }

/-- Gives up because no more levels are read.  The nodes ahead are dropped. -/
def failDeep (t : Tree) : ExprRead := ExprState.fail { s with ahead := [] } .tooDeep t

/-- The state for reading the contents of a set. -/
def enter (set : Tree) : ExprState := { s with ahead := set.children, anchor := set }

/-- The state behind a set whose contents have been read. -/
def leave (inside : ExprState) : ExprState :=
  { s with count := inside.count, reports := inside.reports }

/-- The operator ahead. -/
def operator? : Option Operator := s.ahead.head?.bind Operator.ofNode?

end ExprState

/-- The brackets of a set without a label. -/
def Tree.unlabeledSet? (t : Tree) : Option Delimiter :=
  if t.data.kind = .main ∧ t.data.facets.literal = none then t.data.facets.opened else none

/-- How things are read one level further down. -/
structure ExprLevels where
  /-- Reads an operand with the signs before it. -/
  signed : ExprState → ExprRead
  /-- Reads arithmetic. -/
  sum : ExprState → ExprRead
  /-- Reads a type. -/
  type : ExprState → ExprRead

namespace ExprLevels

/-- Reads what a grammar describes. -/
def read (l : ExprLevels) : ExprMode → ExprState → ExprRead
  | .expression => l.sum
  | .type => l.type

end ExprLevels

namespace ExprGrammar

/-- Reports the first node behind an expression that should have been the last. -/
def complete (problem : String → ExprProblem) (r : ExprRead) : ExprRead :=
  match r.value, r.state.ahead with
  | some _, t :: _ => ⟨r.value, r.state.report (problem t.data.raw) t⟩
  | _, _ => r

/-- Reads an atom, which has been stepped over. -/
def atom (t : Tree) (s : ExprState) : ExprRead :=
  if t.data.kind = .error then ⟨none, s⟩
  else if t.isLeaf then
    s.build (.atomOf t.data.string ⟨t.id, t.data.facets.literal⟩)
  else s.fail (.labeledSet t.data.string) t

section Productions

variable (inner : Option ExprLevels)

/-- Reads the contents of the set `set` as a whole. -/
def contents (mode : ExprMode) (problem : String → ExprProblem) (set : Tree)
    (levels : ExprLevels) (s : ExprState) : ExprRead :=
  let r := complete problem (levels.read mode (s.enter set))
  ⟨r.value, s.leave r.state⟩

/-- Reads a set in round brackets, which has been stepped over. -/
def parens (mode : ExprMode) (set : Tree) (s : ExprState) : ExprRead :=
  if set.isLeaf then s.fail .emptyParens set
  else
    match inner with
    | none => s.failDeep set
    | some levels => contents mode .leftoverInParens set levels s

/-! ### Arithmetic -/

/-- Reads an operand without signs. -/
def primary (s : ExprState) : ExprRead :=
  match s.ahead with
  | [] => s.fail (.nothing .expression) s.anchor
  | t :: rest =>
    let s := s.step t rest
    match Operator.ofNode? t with
    | some op => s.fail (.unexpectedOperator op.text) t
    | none =>
      match t.unlabeledSet? with
      | some .paren => parens inner .expression t s
      | some _ => s.fail (.unexpectedSet .expression) t
      | none => atom t s

/-- Reads an operand with the minus signs before it. -/
def signed (s : ExprState) : ExprRead :=
  match s.ahead with
  | [] => primary inner s
  | t :: rest =>
    if Operator.ofNode? t = some .minus then
      let s := s.step t rest
      if rest.isEmpty then s.fail (.missingOperand "-") t
      else
        match inner with
        | none => s.failDeep t
        | some levels =>
          let r := levels.signed s
          match r.value with
          | none => r
          | some operand => r.state.build (.unary .negate operand)
    else primary inner s

/-- Reads operators and operands behind the operand `left`, at most `n` of them, for as long as
`takes` holds of the operator ahead; `operand` reads what stands right of an operator.  It ends
with what has been read when an operand is missing or fails. -/
def chain (takes : Operator → Bool) (operand : Operator → ExprState → ExprRead) :
    Nat → Expr → ExprState → ExprRead
  | 0, left, s => ⟨some left, s⟩
  | n + 1, left, s =>
    match s.ahead with
    | [] => ⟨some left, s⟩
    | t :: rest =>
      match Operator.ofNode? t with
      | none => ⟨some left, s⟩
      | some op =>
        if takes op then
          let s := s.step t rest
          if rest.isEmpty then ⟨some left, s.report (.missingOperand op.text) t⟩
          else
            let r := operand op s
            match r.value with
            | none => ⟨some left, r.state⟩
            | some right =>
              let e := r.state.build (.binary op.kind left right)
              chain takes operand n (.binary op.kind left right) e.state
        else ⟨some left, s⟩

/-- Reads an operand and what `chain` takes behind it. -/
def chained (takes : Operator → Bool) (operand : Operator → ExprState → ExprRead)
    (s : ExprState) : ExprRead :=
  let r := signed inner s
  match r.value with
  | none => r
  | some left => chain takes operand r.state.ahead.length left r.state

/-- Reads operands with tight operators between them. -/
def product (s : ExprState) : ExprRead :=
  chained inner Operator.isTight (fun _ => signed inner) s

/-- Reads arithmetic. -/
def sum (s : ExprState) : ExprRead :=
  chained inner (fun _ => true)
    (fun op => if op.isTight then signed inner else product inner) s

/-! ### Types -/

/-- Reads a type. -/
def type (s : ExprState) : ExprRead :=
  match s.ahead with
  | [] => s.fail (.nothing .type) s.anchor
  | t :: rest =>
    let s := s.step t rest
    if Operator.ofNode? t = some .star then
      match inner with
      | none => s.failDeep t
      | some levels =>
        let r := levels.type s
        match r.value with
        | none => r
        | some pointee => r.state.build (.unary .pointer pointee)
    else
      match t.unlabeledSet? with
      | some .bracket =>
        match inner with
        | none => s.failDeep t
        | some levels =>
          let size : ExprRead :=
            if t.isLeaf then ⟨none, s⟩ else contents .expression .leftoverInSize t levels s
          let r := levels.type size.state
          match r.value with
          | none => r
          | some element => r.state.build (.array element size.value)
      | some .paren => parens inner .type t s
      | some .brace => s.fail (.unexpectedSet .type) t
      | none =>
        match Operator.ofNode? t with
        | some op => s.fail (.unexpectedOperator op.text) t
        | none => atom t s

end Productions

/-- How things are read on a level, given how they are read one level further down. -/
def level (inner : Option ExprLevels) : ExprLevels :=
  { signed := signed inner, sum := sum inner, type := type inner }

/-- How things are read when at most `n` more levels of sets and signs may be entered. -/
def levels : Nat → Option ExprLevels
  | 0 => none
  | n + 1 => some (level (levels n))

/-- The greatest number of levels of sets and signs around an atom. -/
def maxDepth : Nat := 128

end ExprGrammar

/-- An expression that has been read. -/
structure ExprParse where
  /-- The expression, if there is one. -/
  root : Option Expr
  /-- Number of expressions built, those given up included. -/
  count : Nat
  /-- The problems found, in order. -/
  reports : List ExprReport

namespace ExprParse

/-- Reads the nodes `first :: rest` with at most `depth` levels of sets and signs around an
atom. -/
def readTo (depth : Nat) (mode : ExprMode) (first : Tree) (rest : List Tree) : ExprParse :=
  let level := ExprGrammar.level (ExprGrammar.levels depth)
  let r := ExprGrammar.complete (.leftover · mode)
    (level.read mode { ahead := first :: rest, anchor := first })
  ⟨r.value, r.state.count, r.state.reports⟩

/-- Reads the nodes `first :: rest`. -/
def read (mode : ExprMode) (first : Tree) (rest : List Tree) : ExprParse :=
  readTo ExprGrammar.maxDepth mode first rest

/-- The problems found, in words. -/
def diagnostics (p : ExprParse) : List Diagnostic := p.reports.map ExprReport.diagnostic

/-- The text of the expression, `_` when there is none. -/
def display (p : ExprParse) : String := (p.root.getD .missing).display

end ExprParse

end Metadoc
