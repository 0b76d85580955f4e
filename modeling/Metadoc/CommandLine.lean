import Metadoc.Diagnostic.Render
import Metadoc.Document.Parse

/-!
# The command line

Two commands: one checks documents, the other shows the tree of one.

* `Request.ofArguments?` reads the arguments;
* `Request.run` carries a request out, given a way to read files, and says what is written where
  and how the program ends;
* `Outcome.ofArguments` does both.

Nothing here touches the system: reading is a parameter, in whatever monad it takes place.
-/

namespace Metadoc

/-- When diagnostics are coloured. -/
inductive ColorChoice where
  /-- When they go to a terminal. -/
  | auto
  /-- Always. -/
  | always
  /-- Never. -/
  | never
deriving DecidableEq, Repr

namespace ColorChoice

/-- The choice of that name. -/
def ofName? : String → Option ColorChoice
  | "auto" => some .auto
  | "always" => some .always
  | "never" => some .never
  | _ => none

/-- Whether diagnostics are coloured, given whether they go to a terminal. -/
def styled (choice : ColorChoice) (terminal : Bool) : Bool :=
  match choice with
  | .auto => terminal
  | .always => true
  | .never => false

end ColorChoice

/-- What the program is asked to do. -/
inductive Command where
  /-- Report what is wrong with documents. -/
  | check (paths : List String)
  /-- Show the tree of a document. -/
  | dump (path : String)
deriving DecidableEq, Repr

/-- A command with its options. -/
structure Request where
  /-- When diagnostics are coloured. -/
  color : ColorChoice
  /-- What is to be done. -/
  command : Command
deriving DecidableEq, Repr

/-- What the program leaves behind. -/
structure Outcome where
  /-- How it ends: zero if all is well. -/
  code : Nat
  /-- What it writes to its output. -/
  stdout : String
  /-- What it writes to its error output. -/
  stderr : String
deriving DecidableEq, Repr

/-! ### Arguments -/

/-- An argument as it is understood. -/
inductive Argument where
  /-- The option that sets the colours, with its value. -/
  | color (choice : ColorChoice)
  /-- A word. -/
  | word (text : String)
  /-- A word behind `--`, which is a path whatever it looks like. -/
  | operand (text : String)
deriving DecidableEq, Repr

namespace Argument

/-- The name of the option that sets the colours. -/
def colorOption : String := "--color"

/-- The value that is written together with the name of the option. -/
def joinedValue? (text : String) : Option String :=
  match text.splitOn "=" with
  | option :: value :: more =>
    if option = colorOption then some ("=".intercalate (value :: more)) else none
  | _ => none

/-- Reads arguments.  A hyphen alone is a word; any other word that starts with one is an option,
and there are none but the one for colours. -/
def ofStrings? : List String → Option (List Argument)
  | [] => some []
  | text :: rest =>
    if text = "--" then some (rest.map .operand)
    else if text = colorOption then
      match rest with
      | [] => none
      | value :: rest => do return .color (← ColorChoice.ofName? value) :: (← ofStrings? rest)
    else match joinedValue? text with
      | some value => do return .color (← ColorChoice.ofName? value) :: (← ofStrings? rest)
      | none =>
        if text.startsWith "-" ∧ text ≠ "-" then none
        else (ofStrings? rest).map (.word text :: ·)

/-- The choice that an argument makes. -/
def color? : Argument → Option ColorChoice
  | .color choice => some choice
  | _ => none

/-- The word that an argument is. -/
def text? : Argument → Option String
  | .color _ => none
  | .word text | .operand text => some text

end Argument

namespace Command

/-- The command of a name, with the words behind it. -/
def ofWords? (name : String) (words : List String) : Option Command :=
  match name, words with
  | "check", [] => none
  | "check", paths => some (.check paths)
  | "dump", [path] => some (.dump path)
  | _, _ => none

end Command

/-! ### Answers -/

namespace Outcome

/-- The answer to arguments that ask for nothing known. -/
def misuse : Outcome :=
  ⟨2, "", "usage: metadoc [--color auto|always|never] (check PATH... | dump PATH)\n"⟩

/-- The diagnostics of a document, each on lines of its own. -/
def diagnostics (styled : Bool) (p : Parse) : String :=
  String.join (p.diagnostics.map fun d => d.render styled p.source ++ "\n")

/-- The outcome of checking documents: it is bad when something is wrong with one of them. -/
def ofCheck (styled : Bool) (ps : List Parse) : Outcome :=
  ⟨if ps.any fun p => Diagnostic.anyError p.diagnostics then 1 else 0, "",
    String.join (ps.map (diagnostics styled))⟩

/-- The outcome of showing a document.  What is wrong with it does not count. -/
def ofDump (styled : Bool) (p : Parse) : Outcome := ⟨0, p.dump, diagnostics styled p⟩

/-- The outcome of showing a document that cannot be read. -/
def failedDump (path : String) (reason : ReadError) : Outcome :=
  ⟨1, "",
    "Error: failed to read `" ++ path ++ "`\n\nCaused by:\n    " ++ reason.message ++ "\n"⟩

end Outcome

namespace Request

/-- Reads the arguments of the program.  The colours can be chosen once in front of the command and
once behind it, and the choice behind it counts. -/
def ofArguments? (arguments : List String) : Option Request := do
  let arguments ← Argument.ofStrings? arguments
  let before := arguments.takeWhile fun a => a.color?.isSome
  match arguments.drop before.length with
  | .word name :: behind =>
    let command ← Command.ofWords? name (behind.filterMap Argument.text?)
    match before.filterMap Argument.color?, behind.filterMap Argument.color? with
    | [], [] => some ⟨.auto, command⟩
    | [color], [] | [], [color] | [_], [color] => some ⟨color, command⟩
    | _, _ => none
  | _ => none

/-- Carries out a request, given a way to read files and whether diagnostics go to a terminal. -/
def run {m : Type → Type} [Monad m] (read : String → m (Except ReadError Bytes))
    (terminal : Bool) (request : Request) : m Outcome := do
  let styled := request.color.styled terminal
  match request.command with
  | .check paths =>
    let parses ← paths.mapM fun path => do return Parse.found path (← read path)
    return .ofCheck styled parses
  | .dump path =>
    match ← read path with
    | .ok content => return .ofDump styled (.document ⟨path, content⟩)
    | .error reason => return .failedDump path reason

end Request

/-- What the program does with its arguments. -/
def Outcome.ofArguments {m : Type → Type} [Monad m] (read : String → m (Except ReadError Bytes))
    (terminal : Bool) (arguments : List String) : m Outcome :=
  match Request.ofArguments? arguments with
  | some request => request.run read terminal
  | none => return .misuse

end Metadoc
