import Metadoc.Document.Parse
import Metadoc.Proofs.Document.Run

/-!
# Reading with a counter

How deep sets may nest is said by the number of levels that are handed down.  Here the grammar is
read with a counter instead, that goes up where a set is entered, down where it is left, and refuses
a set where it stands at its limit.  The loops and the recursion are still bounded, but a bound that
is reached is recorded.

* `Meter` is the counter with a record of what it has counted, of the calls that have to read a
  word, and of bounds that are reached;
* `Metered.node`, `Metered.entries`, … read the parts of the grammar along with a meter;
* `Metered.document` and `Metered.oneNode` read documents so.
-/

namespace Metadoc

open Grammar (maxDepth)

/-- A counter of levels, with what has been counted so far. -/
structure Meter where
  /-- Number of sets that have been entered and not left again. -/
  depth : Int := 0
  /-- All that this number has been. -/
  depths : List Int := [0]
  /-- The calls that have to read a word, with the number of words ahead before and behind. -/
  calls : List (Nat × Nat) := []
  /-- The nodes whose sets have been refused. -/
  refused : List Nat := []
  /-- Whether a loop or the recursion has been ended by its bound. -/
  exhausted : Bool := false
deriving DecidableEq, Repr

namespace Meter

variable (m : Meter)

/-- The meter with another number of sets. -/
def count (depth : Int) : Meter := { m with depth, depths := m.depths ++ [depth] }

/-- Enters a set, unless too many have been entered. -/
def enter? : Option Meter := if maxDepth ≤ m.depth then none else some (m.count (m.depth + 1))

/-- Leaves a set. -/
def leave : Meter := m.count (m.depth - 1)

/-- Records that the set of a node has been refused. -/
def refuse (id : Nat) : Meter := { m with refused := m.refused ++ [id] }

/-- Records that a bound has been reached. -/
def exhaust : Meter := { m with exhausted := true }

/-- Records a call that has to read a word. -/
def call (before behind : State) : Meter :=
  { m with calls := m.calls ++ [(before.left, behind.left)] }

end Meter

/-- What a part of the grammar yields, with the meter behind. -/
structure Metered (α : Type) extends Read α where
  /-- The meter behind. -/
  meter : Meter

namespace Metered

open Grammar (close plainLabel noLabel labeledNode reportCramped untaggable dress precede follow)

/-- How the contents of sets are read along with a meter. -/
structure Levels where
  /-- Reads the entries of a set in brackets. -/
  bracketed : Meter → State → Metered (List Tree)
  /-- Reads the entries of a set without brackets. -/
  line : Meter → State → Metered (List Tree)

/-- Reads the word ahead into an error node. -/
def unexpected (m : Meter) (s : State) : Metered Tree :=
  ⟨Grammar.unexpected s, m.call s (Grammar.unexpected s).state⟩

/-- Skips the rest of a set, at most `n` words of it. -/
def skip (bracketed : Bool) : Nat → Nat → Meter → State → Metered Unit
  | 0, _, m, s => ⟨⟨(), s⟩, m.exhaust⟩
  | n + 1, depth, m, s =>
    if s.cursor.atEnd then ⟨⟨(), s⟩, m⟩
    else if depth = 0 ∧ s.cursor.atLineEnd then ⟨⟨(), s⟩, m⟩
    else
      let depth :=
        if s.cursor.opens?.isSome then depth + 1
        else if s.cursor.closes?.isSome then depth - 1
        else depth
      let s := s.advance
      if depth = 0 ∧ (bracketed ∨ 0 < s.cursor.newlines) then ⟨⟨(), s⟩, m⟩
      else skip bracketed n depth m s

section Productions

variable (inner : Levels)

/-- Reads a set in brackets. -/
def bracketedSet (id : Nat) (opened : Delimiter) (m : Meter) (s : State) : Metered SetBody :=
  let span := s.cursor.span
  let s := s.advance
  match m.enter? with
  | none =>
    let s := s.report .tooDeep span id
    let r := skip true (s.left + 1) 1 (m.refuse id) s
    ⟨⟨{ opened := some opened, refused := true }, r.state⟩, r.meter⟩
  | some m =>
    let r := inner.bracketed m s
    match r.state.cursor.closes? with
    | some closed =>
      ⟨⟨{ opened := some opened, closed := some closed, children := r.value }, r.state.advance⟩,
        r.meter.leave⟩
    | none =>
      ⟨⟨{ opened := some opened, children := r.value },
        r.state.report .unterminatedSet span id⟩, r.meter.leave⟩

/-- Reads a set without brackets. -/
def lineSet (id : Nat) (label : Span) (m : Meter) (s : State) : Metered SetBody :=
  if 2 ≤ s.cursor.newlines ∨ s.cursor.atLineEnd then
    ⟨⟨{}, s.report .emptyLabel label id⟩, m⟩
  else
    match m.enter? with
    | none =>
      let s := s.report .tooDeep label id
      let r := skip false (s.left + 1) 0 (m.refuse id) s
      ⟨⟨{ refused := true }, r.state⟩, r.meter⟩
    | some m =>
      let r := inner.line m s
      ⟨⟨{ children := r.value }, r.state⟩, r.meter.leave⟩

/-- Reads a tag. -/
def tag (m : Meter) (s : State) : Metered Tree :=
  let mark := s.cursor.span
  let id := s.advance.alloc
  match id.state.cursor.label? with
  | none =>
    ⟨close id.value mark.start .error (plainLabel "@" [tagMark]) {} []
      (id.state.report .missingTagName mark id.value), m⟩
  | some l =>
    let label := id.state.takeLabel l id.value
    let c := label.state.cursor
    let set :=
      if c.isAt Delimiter.paren.openByte ∧ c.adjacent then
        bracketedSet inner id.value .paren m label.state
      else ⟨⟨{}, label.state⟩, m⟩
    ⟨close id.value mark.start .tag label.value
      { opened := set.value.opened, closed := set.value.closed,
        literal := some label.value.literal }
      set.value.children set.state, set.meter⟩

/-- Reads at most `n` tags. -/
def tagsFrom : Nat → Meter → State → Metered (List Tree)
  | 0, m, s => ⟨⟨[], s⟩, m.exhaust⟩
  | n + 1, m, s =>
    if s.cursor.isAt tagMark then
      let t := tag inner m s
      let rest := tagsFrom n t.meter t.state
      ⟨⟨t.value :: rest.value, rest.state⟩, rest.meter⟩
    else ⟨⟨[], s⟩, m⟩

/-- Reads the tags that begin here. -/
def tags (m : Meter) (s : State) : Metered (List Tree) := tagsFrom inner (s.left + 1) m s

/-- Reads a node that begins with a label. -/
def labeled (l : Lexeme) (m : Meter) (s : State) : Metered Tree :=
  let id := s.alloc
  let label := id.state.takeLabel l id.value
  if label.state.cursor.isAt labelMark ∧ label.state.cursor.newlines = 0 then
    let s := label.state.advance
    match s.cursor.opens? with
    | some opened =>
      if s.cursor.newlines < 2 then
        let set := bracketedSet inner id.value opened m s
        ⟨reportCramped id.value (labeledNode id.value l.start label.value set.toRead), set.meter⟩
      else
        let set := lineSet inner id.value l.span m s
        ⟨labeledNode id.value l.start label.value set.toRead, set.meter⟩
    | none =>
      let set := lineSet inner id.value l.span m s
      ⟨labeledNode id.value l.start label.value set.toRead, set.meter⟩
  else ⟨labeledNode id.value l.start label.value ⟨{}, label.state⟩, m⟩

/-- Reads a set without a label. -/
def unlabeled (ctx : Context) (tagged : Bool) (opened : Delimiter) (m : Meter) (s : State) :
    Metered Tree :=
  let id := s.alloc
  let start := s.cursor.pos
  let s :=
    if ctx = .line then id.state.report (.unlabeledSet tagged) s.cursor.span id.value
    else id.state
  let set := bracketedSet inner id.value opened m s
  ⟨close id.value start set.value.kind noLabel
    { opened := set.value.opened, closed := set.value.closed } set.value.children set.state,
    set.meter⟩

/-- What an entry is without its tags. -/
def bareNode (ctx : Context) (tags : List Tree) (m : Meter) (s : State) :
    Option (Metered Tree) :=
  match s.cursor.label? with
  | some l => some (labeled inner l m s)
  | none =>
    match s.cursor.opens? with
    | some opened => some (unlabeled inner ctx (!tags.isEmpty) opened m s)
    | none =>
      if s.cursor.atLineEnd then
        if tags.isEmpty then none else some ⟨untaggable tags s, m⟩
      else some (unexpected m s)

/-- Reads an entry with its tags. -/
def node (ctx : Context) (m : Meter) (s : State) : Option (Metered Tree) :=
  let pre := s.cursor.trivia.leadingText
  let ts := tags inner m s
  (bareNode inner ctx ts.value ts.meter ts.state).map fun r =>
    ⟨⟨dress pre ts.value r.value, r.state⟩, r.meter.call s r.state⟩

/-- Reads an entry, or one word of what is none. -/
def entry (ctx : Context) (m : Meter) (s : State) : Metered Tree :=
  (node inner ctx m s).getD (unexpected m s)

/-- Reads at most `n` entries of a set in brackets or of a whole document. -/
def entriesFrom (ctx : Context) : Nat → Option Separator → Meter → State → Metered (List Tree)
  | 0, _, m, s => ⟨⟨[], s⟩, m.exhaust⟩
  | n + 1, pending, m, s =>
    if s.cursor.atEnd ∨ (ctx = .bracketed ∧ s.cursor.closes?.isSome) then ⟨⟨[], s⟩, m⟩
    else if s.cursor.separator?.isSome then
      let e := unexpected m s
      let rest := entriesFrom ctx n pending e.meter e.state
      ⟨⟨e.value :: rest.value, rest.state⟩, rest.meter⟩
    else
      let e := entry inner ctx m s
      let t := precede pending e.value
      match e.state.cursor.separator? with
      | some sep =>
        let f := follow sep t e.state
        let rest := entriesFrom ctx n (some sep) e.meter f.state
        ⟨⟨f.value :: rest.value, rest.state⟩, rest.meter⟩
      | none =>
        let rest := entriesFrom ctx n none e.meter e.state
        ⟨⟨t :: rest.value, rest.state⟩, rest.meter⟩

/-- Reads the entries of a set in brackets or of a whole document. -/
def entries (ctx : Context) (m : Meter) (s : State) : Metered (List Tree) :=
  entriesFrom inner ctx (s.left + 1) none m s

/-- Reads at most `n` entries of a set without brackets. -/
def lineEntriesFrom : Nat → Meter → State → Metered (List Tree)
  | 0, m, s => ⟨⟨[], s⟩, m.exhaust⟩
  | n + 1, m, s =>
    match node inner .line m s with
    | none => ⟨⟨[], s⟩, m⟩
    | some r =>
      if 0 < r.state.cursor.newlines ∨ r.state.cursor.atLineEnd then ⟨⟨[r.value], r.state⟩, r.meter⟩
      else
        let rest := lineEntriesFrom n r.meter r.state
        ⟨⟨r.value :: rest.value, rest.state⟩, rest.meter⟩

/-- Reads the entries of a set without brackets. -/
def lineEntries (m : Meter) (s : State) : Metered (List Tree) :=
  lineEntriesFrom inner (s.left + 1) m s

end Productions

/-- How the contents of sets are read, for at most `n` levels.  The meter decides which sets are
read, so the number of levels only has to be large enough. -/
def levels : Nat → Levels
  | 0 =>
    { bracketed := fun m s => ⟨⟨[], s⟩, m.exhaust⟩, line := fun m s => ⟨⟨[], s⟩, m.exhaust⟩ }
  | n + 1 => { bracketed := entries (levels n) .bracketed, line := lineEntries (levels n) }

/-- Reads a whole document along with a meter. -/
def document (source : Source) : Parse × Meter :=
  let root := (State.begin source 0).alloc
  let r := entries (levels maxDepth) .top {} root.state
  (.ofState source (some (.node root.value (Parse.rootData source) [] r.value)) r.state, r.meter)

/-- Reads the first node of a text from a position on along with a meter. -/
def oneNode (text : Bytes) (pos : Nat) : Parse × Meter :=
  let source : Source := ⟨Parse.anonymous, text⟩
  let s := State.begin source pos
  if s.cursor.atEnd then (.ofState source none s, {})
  else
    let r := entry (levels maxDepth) .top {} s
    (.ofState source (some r.value) r.state, r.meter)

end Metered

end Metadoc
