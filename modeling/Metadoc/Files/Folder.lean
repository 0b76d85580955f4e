import Metadoc.Files.ReadError
import Metadoc.Text.Utf8

/-!
# Folders

A folder holds files and directories under relative names.  A name with slashes brings the
directories on its way with it.

* `Folder.at?` is what stands at a place;
* `Folder.resolve` follows a path, step by step, to what it leads to;
* `Folder.read` is the content of the file at the end of a path.

Of what lies around it a folder knows only that these are directories, so a path that leaves it
leads to no file.
-/

namespace Metadoc

/-- What a place of a folder holds. -/
inductive FolderItem where
  /-- A file with its content. -/
  | file (content : Bytes)
  /-- A directory. -/
  | directory
deriving DecidableEq, Repr

/-- A place in a folder: the names on the way to it, outermost first. -/
abbrev Place := List String

/-- The steps of a path: what stands between its slashes. -/
def Place.steps (path : String) : List String := path.splitOn "/"

/-- The place that a plain relative name stands for. -/
def Place.ofName (name : String) : Place := (steps name).filter fun s => s ≠ "" ∧ s ≠ "."

/-- Files and directories under their places. -/
structure Folder where
  /-- What was put into the folder. -/
  items : List (Place × FolderItem) := []
deriving Repr

namespace Folder

variable (folder : Folder)

/-- Puts something under a name. -/
def insert (name : String) (item : FolderItem) : Folder :=
  ⟨folder.items ++ [(Place.ofName name, item)]⟩

/-- What stands at a place.  Whatever lies on the way to something is a directory. -/
def at? (place : Place) : Option FolderItem :=
  if place = [] then some .directory
  else match folder.items.lookup place with
    | some item => some item
    | none => if folder.items.any (place.isPrefixOf ·.1) then some .directory else none

/-- Greatest number of bytes of a name. -/
def nameLimit : Nat := 255

/-- Greatest number of bytes of a path. -/
def pathLimit : Nat := 4095

/-- Whether a step goes nowhere but out. -/
def goesOut (step : String) : Bool := step ∈ ["", ".", ".."]

/-- Why there is nothing of a name in a directory that does not hold it. -/
def missing (name : String) : ReadError :=
  if nameLimit < name.utf8ByteSize then .nameTooLong else .notFound

/-- What steps from outside the folder lead to.  The first of them that names something fails. -/
def outside (steps : List String) : Except ReadError FolderItem :=
  match steps.find? fun step => !goesOut step with
  | none => .ok .directory
  | some name => .error (missing name)

/-- Follows steps from a place that holds `item`.  Each of them starts in a directory: an empty one
and `.` stay, `..` goes out, and any other goes to what has that name. -/
def follow : List String → Place → FolderItem → Except ReadError FolderItem
  | [], _, item => .ok item
  | _ :: _, _, .file _ => .error .notDirectory
  | step :: steps, place, .directory =>
    if step = "" ∨ step = "." then follow steps place .directory
    else if step = ".." then
      if place = [] then outside steps else follow steps place.dropLast .directory
    else match folder.at? (place ++ [step]) with
      | some item => follow steps (place ++ [step]) item
      | none => .error (missing step)

/-- What a path leads to.  One that starts with a slash starts outside. -/
def resolve (path : String) : Except ReadError FolderItem :=
  if path.contains '\x00' then .error .nulInName
  else if path = "" then .error .notFound
  else if pathLimit < path.utf8ByteSize then .error .nameTooLong
  else if path.startsWith "/" then outside (Place.steps path)
  else folder.follow (Place.steps path) [] .directory

/-- The content of the file that a path leads to. -/
def read (path : String) : Except ReadError Bytes :=
  match folder.resolve path with
  | .ok (.file content) => .ok content
  | .ok .directory => .error .isDirectory
  | .error e => .error e

end Folder

end Metadoc
