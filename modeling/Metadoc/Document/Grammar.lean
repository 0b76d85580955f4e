import Metadoc.Document.State

/-!
# The grammar

A document is a list of entries.  An entry is a node: tags, then a label, a set, or both.

* `node` reads one entry, `entries` the entries of a set in brackets or of a whole document, and
  `lineEntries` the entries of a set without brackets, up to the end of its line;
* `Levels` holds how the contents of sets are read one level further down, and `levels` builds it
  for a given number of levels: with none left a set is skipped as a whole;
* reading never fails: what fits nowhere becomes a node of kind `error`, with a report.

Every loop is bounded by the number of words ahead when it begins, since each round reads a word.
-/

namespace Metadoc

/-- Where an entry stands. -/
inductive Context where
  /-- In no set. -/
  | top
  /-- In a set in brackets. -/
  | bracketed
  /-- In a set without brackets, which ends with its line. -/
  | line
deriving DecidableEq, Repr

/-- How the contents of a set are read. -/
structure Levels where
  /-- Reads the entries of a set in brackets. -/
  bracketed : State → Read (List Tree)
  /-- Reads the entries of a set without brackets. -/
  line : State → Read (List Tree)

/-- The contents of a set. -/
structure SetBody where
  /-- The opening bracket. -/
  opened : Option Delimiter := none
  /-- The closing bracket. -/
  closed : Option Delimiter := none
  /-- The entries. -/
  children : List Tree := []
  /-- Whether the set was too deep and has been skipped. -/
  refused : Bool := false

/-- The kind of a node with a set: a skipped set makes it an error. -/
def SetBody.kind (b : SetBody) : NodeKind := if b.refused then .error else .main

namespace Grammar

/-- Repeats `step` for as long as it yields something, at most `n` times. -/
def many {α : Type} (step : State → Option (Read α)) : Nat → State → Read (List α)
  | 0, s => ⟨[], s⟩
  | n + 1, s =>
    match step s with
    | none => ⟨[], s⟩
    | some r =>
      let rest := many step n r.state
      ⟨r.value :: rest.value, rest.state⟩

/-! ### Nodes -/

/-- The node that is read from position `start` up to here, under the number `id`. -/
def close (id start : Nat) (kind : NodeKind) (label : Label) (facets : Facets)
    (children : List Tree) (s : State) : Read Tree :=
  let post := s.claim
  ⟨.node id
    { kind, facets, string := label.string, raw := label.raw, bytes := label.bytes,
      span := s.spanFrom start, post := post.value } [] children,
    post.state⟩

/-- A label that says nothing. -/
def noLabel : Label := ⟨.identifier, "", "", []⟩

/-- A label that is nothing but a shown text. -/
def plainLabel (text : String) (bytes : Bytes) : Label := ⟨.identifier, text, text, bytes⟩

/-- Reads the word ahead into an error node. -/
def unexpected (s : State) : Read Tree :=
  let id := s.alloc
  let start := s.cursor.pos
  let span := s.cursor.span
  let behind := id.state.advance
  match s.cursor.lexeme? with
  | some l =>
    close id.value start .error (plainLabel l.text l.bytes) {} []
      (behind.report (.unexpected l.text) span id.value)
  | none =>
    close id.value start .error noLabel {} [] (behind.report .unexpectedEnd span id.value)

/-! ### Sets that are too deep -/

/-- Skips the rest of a set without building nodes, at most `n` words of it.  `depth` counts the
brackets that are open.  A set in brackets ends behind its closing bracket, any bracket closing
any other; a set without brackets ends where a line ends outside all brackets. -/
def skip (bracketed : Bool) : Nat → Nat → State → State
  | 0, _, s => s
  | n + 1, depth, s =>
    if s.cursor.atEnd then s
    else if depth = 0 ∧ s.cursor.atLineEnd then s
    else
      let depth :=
        if s.cursor.opens?.isSome then depth + 1
        else if s.cursor.closes?.isSome then depth - 1
        else depth
      let s := s.advance
      if depth = 0 ∧ (bracketed ∨ 0 < s.cursor.newlines) then s else skip bracketed n depth s

section Productions

variable (inner : Option Levels)

/-! ### Sets -/

/-- Reads a set in brackets, from its opening bracket on, for the node `id`.  Any bracket closes
it. -/
def bracketedSet (id : Nat) (opened : Delimiter) (s : State) : Read SetBody :=
  let span := s.cursor.span
  let s := s.advance
  match inner with
  | none =>
    let s := s.report .tooDeep span id
    ⟨{ opened := some opened, refused := true }, skip true s.left 1 s⟩
  | some levels =>
    let r := levels.bracketed s
    match r.state.cursor.closes? with
    | some closed =>
      ⟨{ opened := some opened, closed := some closed, children := r.value }, r.state.advance⟩
    | none =>
      ⟨{ opened := some opened, children := r.value }, r.state.report .unterminatedSet span id⟩

/-- Reads a set without brackets, from its first word on, for the node `id` whose label stands at
`label`. -/
def lineSet (id : Nat) (label : Span) (s : State) : Read SetBody :=
  if 2 ≤ s.cursor.newlines ∨ s.cursor.atLineEnd then
    ⟨{}, s.report .emptyLabel label id⟩
  else
    match inner with
    | none =>
      let s := s.report .tooDeep label id
      ⟨{ refused := true }, skip false s.left 0 s⟩
    | some levels =>
      let r := levels.line s
      ⟨{ children := r.value }, r.state⟩

/-! ### Tags -/

/-- Reads a tag, from its at sign on: a name, and arguments when a round bracket touches the
name. -/
def tag (s : State) : Read Tree :=
  let mark := s.cursor.span
  let id := s.advance.alloc
  match id.state.cursor.label? with
  | none =>
    close id.value mark.start .error (plainLabel "@" [tagMark]) {} []
      (id.state.report .missingTagName mark id.value)
  | some l =>
    let label := id.state.takeLabel l id.value
    let c := label.state.cursor
    let set :=
      if c.isAt Delimiter.paren.openByte ∧ c.adjacent then
        bracketedSet inner id.value .paren label.state
      else ⟨{}, label.state⟩
    close id.value mark.start .tag label.value
      { opened := set.value.opened, closed := set.value.closed,
        literal := some label.value.literal }
      set.value.children set.state

/-- Reads the tags that begin here. -/
def tags (s : State) : Read (List Tree) :=
  many (fun s => if s.cursor.isAt tagMark then some (tag inner s) else none) s.left s

/-! ### Entries -/

/-- The node of a label with its set. -/
def labeledNode (id start : Nat) (label : Label) (set : Read SetBody) : Read Tree :=
  close id start set.value.kind label
    { opened := set.value.opened, closed := set.value.closed, literal := some label.literal }
    set.value.children set.state

/-- Reads a node that begins with the label `l` ahead.  A colon on the same line promises a set:
in brackets when one opens before the next blank line, else the rest of the line. -/
def labeled (l : Lexeme) (s : State) : Read Tree :=
  let id := s.alloc
  let label := id.state.takeLabel l id.value
  if label.state.cursor.isAt labelMark ∧ label.state.cursor.newlines = 0 then
    let s := label.state.advance
    match s.cursor.opens? with
    | some opened =>
      if s.cursor.newlines < 2 then
        let r := labeledNode id.value l.start label.value (bracketedSet inner id.value opened s)
        if r.state.cursor.adjacent ∧ r.state.cursor.atNodeStart then
          ⟨r.value, r.state.report .crampedSet r.state.cursor.span id.value⟩
        else r
      else
        labeledNode id.value l.start label.value (lineSet inner id.value l.span s)
    | none => labeledNode id.value l.start label.value (lineSet inner id.value l.span s)
  else labeledNode id.value l.start label.value ⟨{}, label.state⟩

/-- Reads a set without a label. -/
def unlabeled (ctx : Context) (tagged : Bool) (opened : Delimiter) (s : State) : Read Tree :=
  let id := s.alloc
  let start := s.cursor.pos
  let s :=
    if ctx = .line then id.state.report (.unlabeledSet tagged) s.cursor.span id.value
    else id.state
  let set := bracketedSet inner id.value opened s
  close id.value start set.value.kind noLabel
    { opened := set.value.opened, closed := set.value.closed } set.value.children set.state

/-- The stand-in for a node that tags are waiting for.  At signs without a name have been reported
already. -/
def untaggable (tags : List Tree) (s : State) : Read Tree :=
  let id := s.alloc
  let s :=
    if tags.any fun t => t.data.kind = .tag then
      id.state.report .missingTagged s.cursor.span id.value
    else id.state
  close id.value s.cursor.pos .error noLabel {} [] s

/-- A node with the comment above it and its tags. -/
def dress (pre : String) (tags : List Tree) : Tree → Tree
  | .node id d _ children => .node id { d with pre } tags children

/-- What an entry is without its tags.  Nothing is read at the end of the document, at a closing
bracket or at a separator, unless tags are waiting. -/
def bareNode (ctx : Context) (tags : List Tree) (s : State) : Option (Read Tree) :=
  match s.cursor.label? with
  | some l => some (labeled inner l s)
  | none =>
    match s.cursor.opens? with
    | some opened => some (unlabeled inner ctx (!tags.isEmpty) opened s)
    | none =>
      if s.cursor.atLineEnd then
        if tags.isEmpty then none else some (untaggable tags s)
      else some (unexpected s)

/-- Reads an entry with its tags. -/
def node (ctx : Context) (s : State) : Option (Read Tree) :=
  let pre := s.cursor.trivia.leadingText
  let ts := tags inner s
  (bareNode inner ctx ts.value ts.state).map fun r => ⟨dress pre ts.value r.value, r.state⟩

/-- Reads an entry, or one word of what is none. -/
def entry (ctx : Context) (s : State) : Read Tree :=
  (node inner ctx s).getD (unexpected s)

/-- A node with the separator before it, if there is one. -/
def precede (sep : Option Separator) : Tree → Tree
  | .node id d ts cs =>
    .node id { d with facets := { d.facets with precededBy := sep } } ts cs

/-- A node with the separator after it, and with the comment at the end of the line behind that
unless it has one. -/
def follow (sep : Separator) (t : Tree) (s : State) : Read Tree :=
  let d := { t.data with facets := { t.data.facets with followedBy := some sep } }
  let s := s.advance
  if d.post = "" then
    let post := s.claim
    ⟨t.withData { d with post := post.value }, post.state⟩
  else ⟨t.withData d, s⟩

/-- Reads the entries of a set in brackets or of a whole document.  A separator may follow each;
`pending` is the one before the next entry. -/
def entriesFrom (ctx : Context) : Nat → Option Separator → State → Read (List Tree)
  | 0, _, s => ⟨[], s⟩
  | n + 1, pending, s =>
    if s.cursor.atEnd ∨ (ctx = .bracketed ∧ s.cursor.closes?.isSome) then ⟨[], s⟩
    else if s.cursor.separator?.isSome then
      let e := unexpected s
      let rest := entriesFrom ctx n pending e.state
      ⟨e.value :: rest.value, rest.state⟩
    else
      let e := entry inner ctx s
      let t := precede pending e.value
      match e.state.cursor.separator? with
      | some sep =>
        let f := follow sep t e.state
        let rest := entriesFrom ctx n (some sep) f.state
        ⟨f.value :: rest.value, rest.state⟩
      | none =>
        let rest := entriesFrom ctx n none e.state
        ⟨t :: rest.value, rest.state⟩

/-- Reads the entries of a set in brackets or of a whole document. -/
def entries (ctx : Context) (s : State) : Read (List Tree) := entriesFrom inner ctx s.left none s

/-- Reads at most `n` entries of a set without brackets.  It ends with its line. -/
def lineEntriesFrom : Nat → State → Read (List Tree)
  | 0, s => ⟨[], s⟩
  | n + 1, s =>
    match node inner .line s with
    | none => ⟨[], s⟩
    | some r =>
      if 0 < r.state.cursor.newlines ∨ r.state.cursor.atLineEnd then ⟨[r.value], r.state⟩
      else
        let rest := lineEntriesFrom n r.state
        ⟨r.value :: rest.value, rest.state⟩

/-- Reads the entries of a set without brackets. -/
def lineEntries (s : State) : Read (List Tree) := lineEntriesFrom inner s.left s

end Productions

/-- How the contents of sets are read when at most `n` more levels of sets may be entered. -/
def levels : Nat → Option Levels
  | 0 => none
  | n + 1 =>
    some { bracketed := entries (levels n) .bracketed, line := lineEntries (levels n) }

/-- The greatest number of sets around an entry. -/
def maxDepth : Nat := 128

end Grammar

end Metadoc
