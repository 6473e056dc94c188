import StoryScript.Document.Graph
import StoryScript.Report.Basic

/-!
# Reports on a script

* `Document.outline` — the knots with their diverts and flags;
* `Document.references` — the diverts that lead to a knot;
* `Document.flagReport` — the story flags with how often each is set, removed and checked.
-/

namespace StoryScript.Document

/-- The row of a knot in an outline. -/
def outlineRow (k : Knot) : List String :=
  [if k.duplicate then k.name ++ " " ++ Style.red.mark "(duplicate)" else k.name,
   toString k.lineStart ++ "-" ++ toString k.lineEnd,
   toString k.items.length,
   k.region.getD "",
   commaList k.diverts,
   commaList (k.storyFlags.map StoryFlag.name).eraseDups]

/-- The knots with their diverts and flags. -/
def outline (file : String) (d : Document) : Report :=
  { shown :=
      ((d.initialDivert.filter (· ≠ "")).map fun target =>
        Shown.line ("Starts at: " ++ Style.bold.mark target)).toList ++
      [.table file ["Knot", "Lines", "Items", "Region", "Diverts to", "Flags"]
        (d.knots.map outlineRow)] }

/-- By what a divert leads to a knot. -/
def via (source : String) (ref : DivertRef) : String :=
  if source = startNode then "initial divert"
  else
    match ref.context with
    | .standalone => "divert"
    | .choice text => "choice: " ++ text
    | .conditional _ true => "else branch"
    | .conditional flag false => "if " ++ flag.getD "None"

/-- The diverts that lead to a knot. -/
def references (name : String) (d : Document) : Report :=
  if (d.findKnot? name).isNone then Report.line 1 ("Knot not found: " ++ name) .boldRed
  else
    match d.incoming name with
    | [] => Report.line 0 ("No diverts lead to '" ++ name ++ "'") .yellow
    | incoming =>
      { shown :=
          [.table ("Diverts into " ++ name) ["From", "Line", "Via"]
            (incoming.map fun (source, ref) => [source, lineText ref.line, via source ref])] }

/-- The story flags with how often each is used. -/
def flagReport (d : Document) : Report :=
  match d.flagUsages with
  | [] => Report.line 0 "No story flags used" .dim
  | usages =>
    { shown :=
        [.table "Story flags" ["Flag", "Set", "Removed", "Checked", "Knots"]
          (usages.map fun u =>
            [u.name, toString (u.count .set), toString (u.count .remove), toString (u.count .check),
             commaList u.knots])] }

end StoryScript.Document
