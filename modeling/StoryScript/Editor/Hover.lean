import StoryScript.Document.Graph
import StoryScript.Text.Scan
import StoryScript.Text.Lines

/-!
# Hovering over diverts

What an editor shows for the divert under the cursor: the opening line of the knot, where it leads,
what leads to it, and the story flags it touches.
-/

namespace StoryScript

open Text

/-- An arrow with its target on a line, in columns; the target ends where the arrow ends. -/
structure ArrowMatch where
  start : Nat
  targetStart : Nat
  stop : Nat
  target : String
  deriving DecidableEq, Repr

/-- What a target of an arrow is made of. -/
def isTargetChar (c : Char) : Bool := c = '.' || isWord c

/-- The arrow at the front of the characters from a column on, with the characters behind it. -/
def arrowAt? (column : Nat) (cs : List Char) : Option (ArrowMatch × List Char) := do
  let rest ← lit? "->" cs
  let blanks := (rest.takeWhile isBlank).length
  let (target, rest) ← run? isTargetChar (skipBlanks rest)
  let start := column + 2 + blanks
  some (⟨column, start, start + target.length, String.ofList target⟩, rest)

/-- The arrows from a column on, one behind the other; `skip` characters belong to the last one. -/
def arrowsFrom : Nat → Nat → List Char → List ArrowMatch
  | _, _, [] => []
  | column, skip + 1, _ :: cs => arrowsFrom (column + 1) skip cs
  | column, 0, c :: cs =>
    match arrowAt? column (c :: cs) with
    | some (m, _) => m :: arrowsFrom (column + 1) (m.stop - column - 1) cs
    | none => arrowsFrom (column + 1) 0 cs

/-- The arrows on a line. -/
def arrows (line : String) : List ArrowMatch := arrowsFrom 0 0 line.toList

/-- The arrow under a column of a line; no arrow is in front of the line. -/
def divertAt? (line : String) (column : Int) : Option ArrowMatch :=
  (arrows line).find? fun m => (m.start : Int) ≤ column && column ≤ m.stop

/-- The most columns that a preview takes. -/
def previewLength : Nat := 50

/-- A text cut to the preview length. -/
def shortened (text : String) : String :=
  if previewLength < text.length then
    String.ofList (text.toList.take (previewLength - 3)) ++ "..."
  else text

/-- What a reader first sees of an item, if it is a text or a choice. -/
def Item.shown? : Item → Option String
  | .leaf _ (.text content) => some content
  | .choice _ h _ => some ("[" ++ h.text ++ "]")
  | _ => none

/-- The first text or choice of a knot, shortened; empty if there is none. -/
def Knot.preview (k : Knot) : String :=
  shortened (((Item.itemsIn k.items).findSome? Item.shown?).getD "")

namespace Document

/-- The first text or choice of a named knot. -/
def preview? (d : Document) (name : String) : Option String := (d.findKnot? name).map Knot.preview

/-- A name in the type of code. -/
def code (name : String) : String := "`" ++ name ++ "`"

/-- The lines shown for a target. -/
def hoverLines (d : Document) (k : Knot) (stitch : String) : List String :=
  let sources := d.sourcesOf k.name
  let flags := (k.storyFlags.map StoryFlag.name).eraseDups
  ["## " ++ k.name ++ (if stitch = "" then "" else " . " ++ stitch), ""] ++
    (if k.preview = "" then [] else ["> " ++ k.preview, ""]) ++
    (k.region.filter (· ≠ "")).toList.map (fun r => "**Region:** " ++ code r) ++
    ["**Lines:** " ++ toString k.lineStart ++ "-" ++ toString k.lineEnd ++ " | **Items:** " ++
      toString k.items.length, ""] ++
    [if k.diverts.isEmpty then "**Diverts to:** nothing"
     else "**Diverts to:** " ++ join ", " (k.diverts.map code)] ++
    [if sources.isEmpty then "**Reached from:** nowhere"
     else "**Reached from:** " ++
       join ", " (sources.map fun s => if s = startNode then "start of story" else code s)] ++
    (if flags.isEmpty then [] else ["**Flags:** " ++ join ", " ((flags.take 5).map code)]) ++
    (if 5 < flags.length then ["... and " ++ toString (flags.length - 5) ++ " more"] else [])

/-- What is shown for a divert target, if its knot exists. -/
def hover? (d : Document) (target : String) : Option String :=
  (d.findKnot? (knotPart target)).map fun k =>
    join "\n" (d.hoverLines k ((stitchPart? target).getD ""))

end Document

end StoryScript
