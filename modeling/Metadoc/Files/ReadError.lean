/-!
# Failures to read

Why the content of a file cannot be had, and how the system words it.
-/

namespace Metadoc

/-- Why a file cannot be read. -/
inductive ReadError where
  /-- The path leads nowhere. -/
  | notFound
  /-- The path goes on below a plain file. -/
  | notDirectory
  /-- The path leads to a directory. -/
  | isDirectory
  /-- The path, or a name in it, is longer than names may be. -/
  | nameTooLong
  /-- The path holds a NUL, which no name may. -/
  | nulInName
  /-- Another failure, in the system's words. -/
  | other (reason : String)
deriving DecidableEq, Repr

namespace ReadError

/-- A reason that the system gives, with its number. -/
def systemReason (words : String) (code : Nat) : String :=
  words ++ " (os error " ++ toString code ++ ")"

/-- The wording of a failure. -/
def message : ReadError → String
  | .notFound => systemReason "No such file or directory" 2
  | .notDirectory => systemReason "Not a directory" 20
  | .isDirectory => systemReason "Is a directory" 21
  | .nameTooLong => systemReason "File name too long" 36
  | .nulInName => "file name contained an unexpected NUL byte"
  | .other reason => reason

/-- The failure that the system reports under a number, with its words for it. -/
def ofCode (code : Nat) (words : String) : ReadError :=
  match code with
  | 2 => .notFound
  | 20 => .notDirectory
  | 21 => .isDirectory
  | 36 => .nameTooLong
  | _ => .other (systemReason words code)

end ReadError

end Metadoc
