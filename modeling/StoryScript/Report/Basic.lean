import StoryScript.Files.Path

/-!
# Reports

What a command shows to its user: lines in a style, tables and pages. A piece of text inside a line
or a cell is given a style by marks around it.
-/

namespace StoryScript

/-- How a text is shown. -/
inductive Style where
  | bold
  | dim
  | red
  | green
  | yellow
  | boldRed
  | boldGreen
  deriving DecidableEq, Repr

def Style.name : Style → String
  | bold => "bold"
  | dim => "dim"
  | red => "red"
  | green => "green"
  | yellow => "yellow"
  | boldRed => "bold red"
  | boldGreen => "bold green"

/-- A piece of text with the marks of a style around it. -/
def Style.mark (style : Style) (text : String) : String := "[" ++ style.name ++ "]" ++ text ++ "[/]"

/-- One thing that is shown. -/
inductive Shown where
  | line (text : String) (style : Option Style := none)
  | table (title : Option String) (columns : List String) (rows : List (List String))
  /-- A page in Markdown. -/
  | page (markdown : String)
  deriving DecidableEq, Repr

/-- What is shown, one after the other, and the exit code. -/
structure Report where
  exit : Nat := 0
  shown : List Shown
  deriving DecidableEq, Repr

/-- A report of a single line. -/
def Report.line (exit : Nat) (text : String) (style : Style) : Report :=
  { exit, shown := [.line text style] }

/-- The text of a line number; there is none for a missing one or zero. -/
def lineText : Option Nat → String
  | some 0 | none => ""
  | some n => toString n

/-- Names with commas between them. -/
def commaList (names : List String) : String := ", ".intercalate names

end StoryScript
