/-!
# Parse issues

What reading a script can find wrong with it. Reading never fails: an issue is recorded and reading
goes on. The cause decides the rule it belongs to, its severity and its wording.
-/

namespace StoryScript

/-- How much a finding weighs. -/
inductive Severity where
  | error
  | warning
  | info
  deriving DecidableEq, Repr, Inhabited

def Severity.name : Severity → String
  | error => "error"
  | warning => "warning"
  | info => "info"

/-- What was found while reading. -/
inductive IssueCause where
  | duplicateKnot (name : String)
  | duplicateStitch (name : String)
  | conditionalInterrupted
  | conditionalUnclosed
  | nestingTooDeep (limit : Nat)
  | regionUnclosed (name : String)
  | regionEndStray
  | outsideKnot
  deriving DecidableEq, Repr

namespace IssueCause

/-- The rule a cause belongs to. -/
def rule : IssueCause → String
  | duplicateKnot _ => "duplicate-knot"
  | duplicateStitch _ => "duplicate-stitch"
  | conditionalInterrupted | conditionalUnclosed => "unclosed-conditional"
  | nestingTooDeep _ => "nesting-too-deep"
  | regionUnclosed _ => "unclosed-region"
  | regionEndStray => "stray-region-end"
  | outsideKnot => "content-outside-knot"

def severity : IssueCause → Severity
  | duplicateKnot _ | duplicateStitch _ => .error
  | outsideKnot => .info
  | _ => .warning

def message : IssueCause → String
  | duplicateKnot name => "Duplicate knot name '" ++ name ++ "'"
  | duplicateStitch name => "Duplicate stitch '" ++ name ++ "'"
  | conditionalInterrupted => "Conditional block closed without '\x7d'"
  | conditionalUnclosed => "Conditional block missing closing '\x7d'"
  | nestingTooDeep limit =>
    "Nesting deeper than " ++ toString limit ++ " levels; line kept as raw text"
  | regionUnclosed name => "Region '" ++ name ++ "' missing EndRegion"
  | regionEndStray => "EndRegion without a matching StartRegion"
  | outsideKnot => "Line is not inside any knot"

end IssueCause

/-- A cause and the line where it was found. -/
structure Issue where
  cause : IssueCause
  line : Nat
  deriving DecidableEq, Repr

end StoryScript
