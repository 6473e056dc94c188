import StoryScript.Config.Reading
import StoryScript.Data.Toml.Document
import StoryScript.Files.Tree

/-!
# Configuration files

A project is a directory with a configuration file. `FileTree.projectRoot` finds the project that a
file or directory belongs to, and `FileTree.loadConfig` reads its configuration.
-/

namespace StoryScript

/-- The name of a configuration file. -/
def Config.fileName : String := "knotwork.toml"

/-- The configuration in the text of a file. -/
def Config.ofText (root : Option Path) (text : String) : Except LoadError Config :=
  match Toml.read text with
  | .ok data => Config.ofData root data
  | .error .malformed => refuse .malformed
  | .error (.integerTooLong digits) => .error (.fault (.integerTooLong digits))

namespace FileTree

/-- The nearest directory with a configuration file, from the start upwards. -/
def projectRoot (t : FileTree) (start : Path) : Except Fault (Option Path) :=
  let place := start.normal
  if start.hasNull then .error .nullInPath
  else if t.breaksOff place then .error (.pathTooLong (toString place))
  else
    let directory := if t.isFile place then place.parent else place
    .ok (directory.ancestors.find? fun p => t.isFile (p.entry Config.fileName))

/-- The configuration of the project with a root, the default one if it has no file. -/
def loadConfig (t : FileTree) (root : Option Path) : Except LoadError Config :=
  match root.bind fun r => t.read? (r.entry Config.fileName) with
  | none => .ok { root }
  | some bytes =>
    match decodeText bytes with
    | .error fault => .error (.fault fault)
    | .ok text => Config.ofText root text

end FileTree

end StoryScript
