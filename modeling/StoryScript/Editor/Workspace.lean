import StoryScript.Editor.Diagnostic
import StoryScript.Editor.Location
import StoryScript.Media.Resolution
import StoryScript.Config.File

/-!
# Editor workspaces

What an editor is answered while a script is edited: diagnostics of the present text, what to show
for the divert under the cursor, where that divert leads, and how a finding may be repaired. A
workspace keeps the listings of the asset folders until a document is saved.
-/

namespace StoryScript

open Text

/-- The configuration in use and the listings of images and videos, once they are known. -/
structure Workspace where
  config : Config := {}
  listings : Option (List String × List String) := none
  deriving Inhabited

namespace Workspace

/-- Use a configuration; the listings have to be made anew. -/
def configure (config : Config) : Workspace := { config }

/-- Take up the project that a directory belongs to, unless the workspace has a project. A
configuration that is refused is ignored. -/
def adopt (w : Workspace) (t : FileTree) (directory : Path) : Except Fault Workspace := do
  if w.config.root.isSome then return w
  match ← t.projectRoot directory with
  | none => return w
  | some root =>
    match t.loadConfig (some root) with
    | .ok config => return configure config
    | .error (.fault fault) => throw fault
    | .error (.refused _) => return w

/-- The workspace once a document has been saved. -/
def saved (w : Workspace) : Workspace := configure w.config

/-- The listings of images and videos, if media are checked. -/
def assets (w : Workspace) (t : FileTree) : Except Fault (Option (List String × List String)) :=
  if !w.config.lint.checkMedia then .ok none
  else
    w.config.root.mapM fun root =>
      match w.listings with
      | some listings => .ok listings
      | none => t.assets root w.config.media

/-- The diagnostics of a text, and the workspace with the listings they needed. -/
def diagnose (w : Workspace) (t : FileTree) (text : String) :
    Except Fault (List Diagnostic × Workspace) := do
  let assets ← w.assets t
  let (d, _) := Document.read 0 text
  return (d.diagnostics (assets.map (·.1)) (assets.map (·.2)) w.config,
    { w with listings := assets.orElse fun _ => w.listings })

end Workspace

/-- Whether a URI names a script. -/
def namesScript (uri : String) : Except AuthorityError Bool :=
  (locationPath uri).map fun p => lower p.suffix = ".ink"

/-! ### Requests at a cursor -/

/-- The divert at a line and a column of a text. -/
def divertIn? (text : String) (line column : Nat) : Option ArrowMatch :=
  ((splitAt '\n' text.toList)[line]?).bind fun cs => divertAt? (String.ofList cs) column

/-- What to show for the divert at a line and a column, and where the divert stands. -/
def hoverAt? (text : String) (line column : Nat) : Option (String × ArrowMatch) := do
  let m ← divertIn? text line column
  let (d, _) := Document.read 0 text
  some (← d.hover? m.target, m)

/-- The line of the first stitch of a name on the top level of a knot. -/
def Knot.stitchLine? (k : Knot) (name : String) : Option Nat :=
  (k.items.find? fun i =>
    match i with
    | .leaf _ (.stitch n) => n = name
    | _ => false).bind fun i => (k.lineRange i.id).map Span.first

/-- The line where a target is defined: that of its stitch if there is one, otherwise that of its
knot. -/
def Document.definitionLine? (d : Document) (target : String) : Option Nat :=
  (d.findKnot? (knotPart target)).map fun k =>
    ((stitchPart? target).bind k.stitchLine?).getD k.lineStart

/-- The line, counted from zero, where the divert at a line and a column leads. -/
def definitionAt? (text : String) (line column : Nat) : Option Nat := do
  let m ← divertIn? text line column
  let (d, _) := Document.read 0 text
  (d.definitionLine? m.target).map (· - 1)

/-- How a finding of a rule may be repaired. -/
def suggestion? (rule : String) : Option String :=
  [("broken-divert", "Possible repair: check the spelling or add the missing knot"),
   ("dangling-choice", "Possible repair: add a divert (e.g. -> END) to the choice"),
   ("empty-knot", "Possible repair: add content or remove the knot"),
   ("missing-media",
     "Possible repair: add the file to the asset folder or fix the name")].lookup rule

end StoryScript
