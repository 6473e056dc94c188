import StoryScript.Command.Outcome
import StoryScript.Report.Plain

/-!
# The program

Runs a command line on the files below the working directory. Contents are read only of the files
that the command line names and of configuration files; of all others only the names are known.
-/

namespace StoryScript

/-- The files below a directory, which is `depth` levels at most above them. -/
def filesBelow (contentOf : String → Bool) : Nat → String → List String →
    IO (List (List String × ByteArray))
  | 0, _, _ => return []
  | depth + 1, directory, names => do
    let mut found := []
    for entry in ← (← IO.FS.realPath directory).readDir do
      let path := directory ++ "/" ++ entry.fileName
      let names := names ++ [entry.fileName]
      if ← entry.path.isDir then
        found := found ++ (← filesBelow contentOf depth path names)
      else
        let known := contentOf ("/".intercalate names)
        let bytes ← if known then IO.FS.readBinFile path else pure .empty
        found := found ++ [(names, bytes)]
    return found

/-- Whether the content of a file counts for a command line. -/
def isRead (words : List String) (path : String) : Bool :=
  (Path.ofString path).name = Config.fileName ||
    words.any fun word => (Path.ofString word).normal = Path.ofString path

/-- Show messages, on standard output or apart from it. -/
def showAll (apart : Bool) (shown : List Shown) : IO Unit := do
  for text in shown.flatMap Shown.plain do
    if apart then IO.eprintln text else IO.println text

end StoryScript

open StoryScript

def main (words : List String) : IO UInt32 := do
  let files ← filesBelow (isRead words) 64 "." []
  let outcome := runCommandLine Document.nodeName ⟨files⟩ words
  showAll outcome.apart outcome.shown
  IO.print outcome.output
  for (names, content) in FileTree.changes ⟨files⟩ outcome.files do
    IO.FS.writeBinFile ("/".intercalate names) content
  if let some fault := outcome.fault then IO.eprintln ("Error: " ++ fault.message)
  return UInt32.ofNat outcome.exit
