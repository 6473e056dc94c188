import StoryScript.Data.Json
import StoryScript.Config.Basic
import StoryScript.Lint.Finding
import StoryScript.Lint.Rules
import StoryScript.Report.Basic
import StoryScript.Text.Blank

/-!
# Reports on findings

The findings of several scripts are ordered by severity, then by file and line. A run fails if there
is a finding of a severity from which it has to fail.

* `LintRun.report` — the findings as a table with counts;
* `LintRun.json` — the same as JSON;
* `explainRule` — what a rule means.
-/

namespace StoryScript

/-- The findings of a run, each with its file. -/
abbrev LintRun := List (Path × Finding)

/-- The place of a severity in the order from the worst one down. -/
def Severity.rank : Severity → Nat
  | error => 0
  | warning => 1
  | info => 2

def FailLevel.rank : FailLevel → Nat
  | error => 0
  | warning => 1
  | info => 2

def Severity.style : Severity → Style
  | error => .boldRed
  | warning => .yellow
  | info => .dim

namespace LintRun

/-- Whether one finding may stand before another. -/
def before (a b : Path × Finding) : Bool :=
  let rank (x : Path × Finding) := x.2.severity.rank
  let line (x : Path × Finding) := x.2.line.getD 0
  if rank a ≠ rank b then rank a < rank b
  else if toString a.1 ≠ toString b.1 then toString a.1 < toString b.1
  else line a ≤ line b

/-- The findings in the order in which they are reported. -/
def sorted (run : LintRun) : LintRun := run.mergeSort before

/-- How many findings have a severity. -/
def count (run : LintRun) (severity : Severity) : Nat :=
  (run.filter fun (_, f) => f.severity = severity).length

/-- The exit code: 1 if a finding is at least as bad as the level. -/
def exit (run : LintRun) (level : FailLevel) : Nat :=
  if run.any fun (_, f) => f.severity.rank ≤ level.rank then 1 else 0

/-- The row of a finding. -/
def row : Path × Finding → List String
  | (file, f) =>
    [f.severity.style.mark f.severity.name.toUpper,
     file.name ++ (if lineText f.line = "" then "" else ":" ++ lineText f.line),
     f.rule,
     f.message]

/-- The line that counts the findings of a severity, if there are any. -/
def countLine (run : LintRun) (severity : Severity) : List Shown :=
  if run.count severity = 0 then []
  else [.line (toString (run.count severity) ++ " " ++ severity.name ++ "(s)") severity.style]

/-- The findings as a table with counts. -/
def report (run : LintRun) : List Shown :=
  (if run.isEmpty then []
   else [.table none ["Level", "Location", "Rule", "Message"] (run.sorted.map row)]) ++
  [.line ""] ++ run.countLine .error ++ run.countLine .warning ++ run.countLine .info ++
  (if run.count .error = 0 && run.count .warning = 0 then
    [.line "No errors or warnings" Style.boldGreen]
   else [])

/-- A finding as data. -/
def entry : Path × Finding → Data
  | (file, f) =>
    .table
      [("level", .text f.severity.name),
       ("rule", .text f.rule),
       ("file", .text (toString file)),
       ("line", .ofOption (fun n => .int n) f.line),
       ("knot", .ofOption .text f.knot),
       ("message", .text f.message)]

/-- The findings and their counts as data. -/
def toData (run : LintRun) : Data :=
  .table
    [("results", .list (run.sorted.map entry)),
     ("summary", .table
       [("error", .int (run.count .error)),
        ("warning", .int (run.count .warning)),
        ("info", .int (run.count .info))])]

/-- The findings and their counts as JSON. -/
def json (run : LintRun) : String := run.toData.json true 0 ++ "\n"

end LintRun

/-- What a rule means, or which rules there are. -/
def explainRule (name : String) : Report :=
  let id := Text.strip (Text.lower name)
  match Lint.explanation? id with
  | some text => { shown := [.page text] }
  | none =>
    { exit := 1
      shown :=
        [.line ("Unknown rule: " ++ id) Style.boldRed, .line "", .line "Known rules:" Style.bold] ++
        Lint.ruleIds.map fun id => .line ("  - " ++ id) }

end StoryScript
