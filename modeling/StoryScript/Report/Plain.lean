import StoryScript.Report.Basic

/-!
# Reports without styles

How a report looks where styles cannot be shown: the marks are left out, and the columns of a table
are as wide as their widest cell.
-/

namespace StoryScript

/-- Every style. -/
def Style.all : List Style := [bold, dim, red, green, yellow, boldRed, boldGreen]

/-- The marks of all styles. -/
def marks : List (List Char) :=
  "[/]".toList :: Style.all.map fun style => ("[" ++ style.name ++ "]").toList

/-- Characters without marks; `skip` of them belong to a mark. -/
def dropMarks : Nat → List Char → List Char
  | _, [] => []
  | skip + 1, _ :: cs => dropMarks skip cs
  | 0, c :: cs =>
    match marks.find? (·.isPrefixOf (c :: cs)) with
    | some mark => dropMarks (mark.length - 1) cs
    | none => c :: dropMarks 0 cs

/-- A text without marks. -/
def plainText (s : String) : String := String.ofList (dropMarks 0 s.toList)

/-- A text filled up with blanks to a width. -/
def padded (width : Nat) (s : String) : String :=
  s ++ String.ofList (List.replicate (width - s.length) ' ')

/-- The widths of the columns of rows. -/
def columnWidths : List (List String) → List Nat
  | [] => []
  | row :: rows =>
    let widths := columnWidths rows
    (List.range (max row.length widths.length)).map fun i =>
      max (row[i]?.getD "").length (widths[i]?.getD 0)

/-- A row of a table. -/
def plainRow (widths : List Nat) (row : List String) : String :=
  "  ".intercalate ((widths.zip row).map fun (width, cell) => padded width cell)

/-- The lines of one thing that is shown. -/
def Shown.plain : Shown → List String
  | .line text _ => [plainText text]
  | .page markdown => [markdown]
  | .table title columns rows =>
    let cells := columns :: rows.map fun row => row.map plainText
    title.toList ++ cells.map (plainRow (columnWidths cells))

end StoryScript
