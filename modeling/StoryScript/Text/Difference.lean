import StoryScript.Story.Alignment

/-!
# Differences between texts

How one text differs from another, line by line, in the unified format: hunks of changed lines with
three unchanged lines around them. In a long text, lines that occur often do not start a match.

* `Text.linesWithEnds` — the lines of a text with their line ends;
* `Text.unifiedDiff` — the difference between two texts.
-/

namespace StoryScript.Text

/-- A character that ends a line. -/
def endsLine (c : Char) : Bool :=
  let n := c.toNat
  (10 ≤ n && n ≤ 13) || (28 ≤ n && n ≤ 30) || n = 0x85 || n = 0x2028 || n = 0x2029

/-- The lines of a text, each with the character that ends it; a carriage return and a line feed
behind it end a line together. The last line may be without an end. -/
def linesWithEnds : List Char → List (List Char)
  | [] => []
  | '\r' :: '\n' :: cs => ['\r', '\n'] :: linesWithEnds cs
  | c :: cs =>
    if endsLine c then [c] :: linesWithEnds cs
    else
      match linesWithEnds cs with
      | [] => [[c]]
      | line :: lines => (c :: line) :: lines

/-- How many unchanged lines stand around changed ones. -/
def contextLines : Nat := 3

/-- In texts of this length, frequent lines do not start a match. -/
def longText : Nat := 200

/-- The lines of a long text that occur so often that they do not start a match. -/
def frequentLines (lines : List (List Char)) : List (List Char) :=
  if lines.length < longText then []
  else lines.eraseDups.filter fun line => lines.length / 100 + 1 < lines.count line

/-- A step cut to its last lines. -/
def lastOf (n : Nat) (s : EditStep) : EditStep :=
  { s with oldFrom := max s.oldFrom (s.oldTo - n), newFrom := max s.newFrom (s.newTo - n) }

/-- A step cut to its first lines. -/
def firstOf (n : Nat) (s : EditStep) : EditStep :=
  { s with oldTo := min s.oldTo (s.oldFrom + n), newTo := min s.newTo (s.newFrom + n) }

/-- The steps without the unchanged lines far behind the last change. -/
def cutEnd : List EditStep → List EditStep
  | [] => []
  | [s] => if s.kind = .equal then [firstOf contextLines s] else [s]
  | s :: steps => s :: cutEnd steps

/-- The steps without the unchanged lines far before the first change and behind the last one. -/
def cutEnds (steps : List EditStep) : List EditStep :=
  cutEnd (match steps with
    | s :: rest => (if s.kind = .equal then lastOf contextLines s else s) :: rest
    | [] => [])

/-- The hunks of steps; `hunk` holds the steps of the present one. A long run of unchanged lines
ends a hunk and starts the next one. -/
def hunksFrom (hunk : List EditStep) : List EditStep → List (List EditStep)
  | [] => [hunk]
  | s :: steps =>
    if s.kind = .equal && 2 * contextLines < s.oldTo - s.oldFrom then
      (hunk ++ [firstOf contextLines s]) :: hunksFrom [lastOf contextLines s] steps
    else hunksFrom (hunk ++ [s]) steps

/-- The hunks of steps; a hunk without a change is left out. -/
def hunks (steps : List EditStep) : List (List EditStep) :=
  (hunksFrom [] (cutEnds steps)).filter fun hunk => hunk.any fun s => s.kind ≠ .equal

/-- A range of lines: its first line, and its length unless that is one. An empty range is named by
the line before it. -/
def rangeText (start stop : Nat) : String :=
  let length := stop - start
  if length = 1 then toString (start + 1)
  else toString (if length = 0 then start else start + 1) ++ "," ++ toString length

/-- Lines with a mark in front of each. -/
def marked (mark : Char) (lines : List (List Char)) : List Char :=
  lines.flatMap (mark :: ·)

/-- The lines of a step. -/
def stepText (old new : List (List Char)) (s : EditStep) : List Char :=
  let gone := (old.take s.oldTo).drop s.oldFrom
  let come := (new.take s.newTo).drop s.newFrom
  match s.kind with
  | .equal => marked ' ' gone
  | .replace => marked '-' gone ++ marked '+' come
  | .delete => marked '-' gone
  | .insert => marked '+' come

/-- A hunk with its head. -/
def hunkText (old new : List (List Char)) (hunk : List EditStep) : String :=
  let first := hunk.head?.getD ⟨.equal, 0, 0, 0, 0⟩
  let last := hunk.getLastD first
  "@@ -" ++ rangeText first.oldFrom last.oldTo ++ " +" ++ rangeText first.newFrom last.newTo ++
    " @@\n" ++ String.ofList (hunk.flatMap (stepText old new))

/-- The difference between two texts with their names; empty if they do not differ. -/
def unifiedDiff (oldName newName old new : String) : String :=
  let oldLines := linesWithEnds old.toList
  let newLines := linesWithEnds new.toList
  let frequent := frequentLines newLines
  let steps := Alignment.editsWith (fun line => !frequent.contains line) oldLines newLines
  match hunks steps with
  | [] => ""
  | hs => "--- " ++ oldName ++ "\n+++ " ++ newName ++ "\n" ++
      String.join (hs.map (hunkText oldLines newLines))

end StoryScript.Text
