import StoryScript.Document.Reading
import StoryScript.Editor.Hover
import StoryScript.Lint.Finding

/-!
# Diagnostics

Where an editor marks the findings of a script. Lines and columns count from zero. A finding about a
divert marks the arrow and the target; any other finding marks its line without the blanks around
it, and at least one column. A finding without a line is marked on the first line.
-/

namespace StoryScript

open Text

/-- A finding and the columns of the line where it is marked. -/
structure Diagnostic where
  line : Nat
  column : Nat
  length : Nat
  severity : Severity
  rule : String
  message : String
  deriving DecidableEq, Repr

/-- The target that a finding about a divert is about. -/
def FindingCause.brokenTarget? : FindingCause → Option String
  | brokenInitialDivert target => some target
  | brokenDivert target _ => some target
  | _ => none

/-- The column and the length of a line without the blanks around it. -/
def contentColumns (line : String) : Nat × Nat :=
  ((line.toList.takeWhile isBlank).length, max (stripChars line.toList).length 1)

/-- The column and the length to mark on a line. -/
def markedColumns (cause : FindingCause) (line : String) : Nat × Nat :=
  match cause.brokenTarget?.bind fun t => (arrows line).find? (·.target = t) with
  | some m => (m.start, m.stop - m.start)
  | none => contentColumns line

/-- Where a finding is marked in a script of these lines. -/
def Finding.diagnostic (lines : List String) (f : Finding) : Diagnostic :=
  let index := (match f.line with
    | some n => if n = 0 then 1 else n
    | none => 1) - 1
  let (column, length) := markedColumns f.cause (lines[index]?.getD "")
  ⟨index, column, length, f.severity, f.rule, f.message⟩

/-- The diagnostics of a document. -/
def Document.diagnostics (d : Document) (images videos : Option (List String)) (config : Config) :
    List Diagnostic :=
  (d.findingsOf images videos config.media config.lint.disable none).map
    (Finding.diagnostic d.lines)

end StoryScript
