import PulseSequencer.Description.Yaml
import PulseSequencer.Folder

/-!
Reading descriptions from files.
-/

namespace PulseSequencer
namespace Description

/-- A file whose name ends in `.json`, in any case, holds JSON. -/
def isJsonPath (path : String) : Bool :=
  (Folder.suffix? path).any fun cs => String.ofList (cs.map Char.toLower) == "json"

/-- Reads a sequence file, with a library for those that hold JSON; its name tells the format. -/
def loadWith (lib : Json.Library) (folder : Folder) (path : String) :
    Except Error Description := do
  let s ← (folder.readText path).mapError Error.file
  let read := if isJsonPath path then parseJson? lib s else parseYaml? s
  match read with
  | some d => return d
  | none => throw Error.malformed

/-- Reads a sequence file. -/
def load (folder : Folder) (path : String) : Except Error Description :=
  loadWith .standard folder path

end Description
end PulseSequencer
