import StoryScript.Document.Basic
import StoryScript.Document.Body

/-!
# Reading a script

A script is read line by line. A knot header opens a knot, which goes on up to the next knot header,
region marker or the end of the script; its body is then read by `Body.read`. Region markers open
and close regions; a knot belongs to the region that is open when the knot ends. Lines before the
first knot or region form the preamble, and other lines outside any knot are not kept.

Reading never fails (`Document.read`): what is wrong with a script is recorded in the issues of the
document, sorted by line.
-/

namespace StoryScript

/-- A knot whose end has not been reached. -/
structure OpenKnot where
  name : String
  line : Nat
  header : String
  /-- The lines behind the header, newest first. -/
  body : List String := []

/-- A region whose end has not been reached. -/
structure OpenRegion where
  name : String
  line : Nat
  position : Option Position := none
  /-- The knots of the region, newest first. -/
  knots : List String := []

/-- What has been read of a script so far; lists are held newest first. -/
structure ScriptState where
  supply : Nat
  knots : List Knot := []
  regions : List Region := []
  externals : List External := []
  inclusions : List String := []
  initialDivert : Option String := none
  startPosition : Option Position := none
  endPosition : Option Position := none
  preamble : List String := []
  issues : List Issue := []
  knot : Option OpenKnot := none
  region : Option OpenRegion := none
  inPreamble : Bool := true
  /-- Whether the next line may give the position of the region that was opened last. -/
  positionMayFollow : Bool := false

namespace ScriptState

def report (line : Nat) (cause : IssueCause) (s : ScriptState) : ScriptState :=
  { s with issues := ⟨cause, line⟩ :: s.issues }

/-- Finish the open knot, if there is one; `last` is its last line. -/
def closeKnot (last : Nat) (s : ScriptState) : ScriptState :=
  match s.knot with
  | none => s
  | some k =>
    let body := k.body.reverse
    let (read, supply) := Body.read s.supply body
    let duplicate := s.knots.any (·.name = k.name)
    let found := read.issues.map fun i => { i with line := k.line + 1 + i.line }
    let s := { s with supply, knot := none, issues := found.reverse ++ s.issues }
    let s := if duplicate then s.report k.line (.duplicateKnot k.name) else s
    { s with
      region := s.region.map fun r => { r with knots := k.name :: r.knots }
      knots :=
        { name := k.name
          lineStart := k.line
          lineEnd := last
          header := k.header
          items := read.items
          content := Text.unlines (k.header :: body)
          position := read.position
          region := s.region.map (·.name)
          duplicate } :: s.knots }

/-- Finish the open region, if there is one; `last` is its last line. -/
def closeRegion (last : Nat) (s : ScriptState) : ScriptState :=
  match s.region with
  | none => s
  | some r =>
    { s with
      region := none
      regions := ⟨r.name, r.line, last, r.position, r.knots.reverse⟩ :: s.regions }

/-- Finish an open region that lacks its end marker. -/
def closeUnclosedRegion (line last : Nat) (s : ScriptState) : ScriptState :=
  match s.region with
  | none => s
  | some r => (s.report line (.regionUnclosed r.name)).closeRegion last

/-- A line of the preamble. -/
def preambleLine (n : Nat) (l : Line) (s : ScriptState) : ScriptState :=
  match l.form, s.initialDivert with
  | .startPosition p, _ => { s with startPosition := some p }
  | .endPosition p, _ => { s with endPosition := some p }
  | .external name params, _ => { s with externals := ⟨name, params, n⟩ :: s.externals }
  | .inclusion path, _ => { s with inclusions := path :: s.inclusions }
  | .divert target, none => { s with initialDivert := some target }
  | _, _ => { s with preamble := l.text :: s.preamble }

/-- A line that is neither in a knot nor a marker. -/
def outsideLine (n : Nat) (l : Line) (s : ScriptState) : ScriptState :=
  if s.inPreamble then s.preambleLine n l
  else
    match l.form with
    | .comment | .blockComment _ | .position _ => s
    | _ => s.report n .outsideKnot

/-- A line outside any knot, where the position of a region may stand. -/
def looseLine (n : Nat) (l : Line) (s : ScriptState) : ScriptState :=
  if s.positionMayFollow then
    let s := { s with positionMayFollow := false }
    match l.form, s.region with
    | .position p, some r => { s with region := some { r with position := some p } }
    | _, _ => s.outsideLine n l
  else s.outsideLine n l

/-- Line `n` of the script. -/
def step (n : Nat) (physical : String) (l : Line) (s : ScriptState) : ScriptState :=
  match l.form with
  | .knotHeader name =>
    { s.closeKnot (n - 1) with
      inPreamble := false
      positionMayFollow := false
      knot := some ⟨name, n, physical, []⟩ }
  | .regionStart name =>
    { (s.closeKnot (n - 1)).closeUnclosedRegion n (n - 1) with
      inPreamble := false
      positionMayFollow := true
      region := some ⟨name, n, none, []⟩ }
  | .regionEnd =>
    let s := s.closeKnot (n - 1)
    if s.region.isNone then s.report n .regionEndStray else s.closeRegion n
  | form =>
    match s.knot with
    | some k => { s with knot := some { k with body := physical :: k.body } }
    | none => if form.isBlank then s else s.looseLine n l

/-- The lines from `n` on. -/
def readFrom (s : ScriptState) (n : Nat) : List (String × Line) → ScriptState
  | [] => s
  | (physical, l) :: rest => (s.step n physical l).readFrom (n + 1) rest

/-- The end of a script of `n` lines. -/
def finish (n : Nat) (s : ScriptState) : ScriptState := (s.closeKnot n).closeUnclosedRegion n n

end ScriptState

/-- The script of a text; identities are drawn from `supply` on, and the supply that is left comes
with the answer. -/
def Document.read (supply : Nat) (text : String) : Document × Nat :=
  let lines := Text.lines text
  let start : ScriptState := { supply }
  let s := (start.readFrom 1 (lines.zip (Line.ofTexts lines))).finish lines.length
  ({ knots := s.knots.reverse
     regions := s.regions.reverse
     externals := s.externals.reverse
     inclusions := s.inclusions.reverse
     initialDivert := s.initialDivert
     startPosition := s.startPosition
     endPosition := s.endPosition
     preamble := s.preamble.reverse
     issues := s.issues.reverse.mergeSort fun a b => a.line ≤ b.line
     lines }, s.supply)

end StoryScript
