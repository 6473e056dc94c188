import StoryScript.Document.Knot
import StoryScript.Document.Issue
import StoryScript.Text.Lines

/-!
# Documents

A document is a snapshot of one script: its knots, its regions and its preamble, the issues found
while reading it, and its lines. It is a value; an edit makes a new one.

Several knots may share a name. The first is the one a name means; the others are marked duplicate
and are not visible to look-up, to the divert graph or to the lint rules.
-/

namespace StoryScript

/-- A named group of knots between two region markers. -/
structure Region where
  name : String
  lineStart : Nat
  lineEnd : Nat
  position : Option Position
  knots : List String
  deriving Inhabited

/-- The declaration of a function that the game provides. -/
structure External where
  name : String
  params : List String
  line : Nat
  deriving Inhabited

/-- A script that has been read. -/
structure Document where
  knots : List Knot
  regions : List Region
  externals : List External
  inclusions : List String
  initialDivert : Option String
  startPosition : Option Position
  endPosition : Option Position
  /-- The lines before the first knot or region that are nothing of the above. -/
  preamble : List String
  issues : List Issue
  lines : List String
  deriving Inhabited

/-- All uses of one story flag. -/
structure FlagSummary where
  name : String
  usages : List StoryFlag

namespace FlagSummary

def count (verb : FlagVerb) (f : FlagSummary) : Nat := f.usages.countP (·.verb = verb)

/-- The knots that use the flag, in first-seen order. -/
def knots (f : FlagSummary) : List String := (f.usages.map StoryFlag.knot).eraseDups

end FlagSummary

namespace Document

def text (d : Document) : String := Text.unlines d.lines

/-- The knots that are the first of their name. -/
def visibleKnots (d : Document) : List Knot := d.knots.filter (!·.duplicate)

/-- The distinct knot names in order. -/
def knotNames (d : Document) : List String := (d.knots.map Knot.name).eraseDups

/-- The first knot of a name. -/
def findKnot? (d : Document) (name : String) : Option Knot := d.knots.find? (·.name = name)

/-- The place of the first knot of a name. -/
def knotIndex? (d : Document) (name : String) : Option Nat := d.knots.findIdx? (·.name = name)

/-- Every use of a story flag in the visible knots. -/
def storyFlags (d : Document) : List StoryFlag := d.visibleKnots.flatMap Knot.storyFlags

/-- The uses of story flags, grouped by flag and sorted by its name. -/
def flagUsages (d : Document) : List FlagSummary :=
  let flags := d.storyFlags
  let names := (flags.map StoryFlag.name).eraseDups.mergeSort fun a b => !decide (b < a)
  names.map fun name => ⟨name, flags.filter (·.name = name)⟩

end Document

end StoryScript
