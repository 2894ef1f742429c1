import PulseSequencer.Error.Basic

/-!
The files that a command can see.
-/

namespace PulseSequencer

/-- What stands under a name in a folder. -/
inductive FolderEntry where
  | file (bytes : ByteArray)
  | directory
  /-- something that is there and cannot be read -/
  | unreadable (text : String)

/-- The entries of a folder under their names. -/
structure Folder where
  entries : List (String × FolderEntry)

namespace Folder

/-- The names along a path.  Empty names and single points lead nowhere and are dropped; a path
from the root starts with a slash. -/
def steps (path : String) : List String :=
  let names := (path.splitOn "/").filter fun name => name ≠ "" && name ≠ "."
  if path.toList.head? = some '/' then "/" :: names else names

/-- A path that ends in a slash or in a single point can only lead to a directory. -/
def endsInDirectory (path : String) : Bool :=
  (path.splitOn "/").getLast?.any fun name => name = "" || name = "."

/-- What stands at the end of a path.  A folder with something inside is a directory also if it is
not listed itself. -/
def entry? (folder : Folder) (path : String) : Option FolderEntry :=
  let place := steps path
  if path.isEmpty then none
  else
    match folder.entries.find? fun e => steps e.1 = place with
    | some (_, .directory) => some .directory
    | some (_, entry) => if endsInDirectory path then none else some entry
    | none =>
      if place.isEmpty || folder.entries.any fun e => place.isPrefixOf (steps e.1) then
        some .directory
      else none

def contains (folder : Folder) (path : String) : Bool := (folder.entry? path).isSome

/-- A file stands on the way to the end of a path, or where only a directory could stand. -/
def isBlocked (folder : Folder) (path : String) : Bool :=
  folder.entries.any fun
    | (p, .file _) => (steps p).isPrefixOf (steps path)
    | _ => false

/-- The text of a file, which has to be valid UTF-8. -/
def readText (folder : Folder) (path : String) : Except FileError String :=
  match folder.entry? path with
  | none => .error (if folder.isBlocked path then .notDirectory else .notFound)
  | some .directory => .error .isDirectory
  | some (.unreadable text) => .error (.other text)
  | some (.file bytes) =>
    match String.fromUTF8? bytes with
    | some s => .ok s
    | none => .error .notText

/-- The part of a path after the last slash. -/
def fileName (path : String) : List Char :=
  (path.toList.reverse.takeWhile (· ≠ '/')).reverse

/-- The part of a file name after its last point; a point at the start of the name does not
count. -/
def suffix? (path : String) : Option (List Char) :=
  let backwards := (fileName path).reverse
  match backwards.dropWhile (· ≠ '.') with
  | '.' :: _ :: _ => some (backwards.takeWhile (· ≠ '.')).reverse
  | _ => none

end Folder

end PulseSequencer
