import StoryScript.Line.Reading
import StoryScript.Story.Node
import StoryScript.Document.Issue

/-!
# Reading the body of a knot

The content tree of a knot is built from its lines one by one. A line after a choice belongs to that
choice until a stitch header, a choice of the same or a lower depth, or the closing brace of a
conditional around it; stitches are the only way back to the root of the knot. The containers that
are still open form a stack of frames, innermost first, whose height never grows past what
`nestingLimit` lets a line open. The lines of every node are recorded in a table under its identity:
the entry is made when the node begins, every line changes the entries of the containers that are
open, and the entry of a divert that its container takes over is dropped.

* `Frame` — a container that is still open. A branch is open together with its conditional.
* `BodyState.apply` — what one line does.
* `Body.read` — the content tree, the issues and the position annotation of a body.
* `Body.nodeLines` and `Body.issueLines` — where they stand, with the lines counted from any number.
-/

namespace StoryScript

/-- A choice, or a `{` with its first branch, is refused at this many open containers. -/
def nestingLimit : Nat := 16

/-- What every open container has: an identity and the lines read into it so far. -/
structure OpenMark where
  id : Id
  span : Span
  deriving DecidableEq, Inhabited

def OpenMark.toMark (m : OpenMark) : Mark := ⟨m.id, some m.span⟩

/-- Lines under identities, in the order in which the nodes begin. -/
abbrev SpanTable : Type := List (Id × Span)

/-- The entries of some identities go on up to `line`. -/
def SpanTable.touch (line : Nat) (ids : List Id) (t : SpanTable) : SpanTable :=
  t.map fun x => if ids.contains x.1 then (x.1, { x.2 with last := line }) else x

/-- Drop the entry of a node, if there is one to drop. -/
def SpanTable.drop (m? : Option Mark) (t : SpanTable) : SpanTable :=
  t.filter fun x => some x.1 ≠ m?.map Mark.id

/-- The container goes on up to `line`. -/
def OpenMark.extend (line : Nat) (m : OpenMark) : OpenMark :=
  { m with span := { m.span with last := line } }

/-- An open container; contents are held newest first. -/
inductive Frame where
  | choice (mark : OpenMark) (depth : Nat) (head : ChoiceHead) (content : List Item)
  | branch (conditional : OpenMark) (finished : List Branch)
      (mark : OpenMark) (guard : Guard) (content : List Item)

namespace Frame

/-- How many containers are open in a frame. -/
def height : Frame → Nat
  | choice .. => 1
  | branch .. => 2

def extend (line : Nat) : Frame → Frame
  | choice m d h c => choice (m.extend line) d h c
  | branch k bs m g c => branch (k.extend line) bs (m.extend line) g c

def add (item : Item) : Frame → Frame
  | choice m d h c => choice m d h (item :: c)
  | branch k bs m g c => branch k bs m g (item :: c)

def isBranch : Frame → Bool
  | branch .. => true
  | choice .. => false

/-- The identities of the containers that are open in a frame. -/
def openIds : Frame → List Id
  | choice m .. => [m.id]
  | branch k _ m .. => [k.id, m.id]

/-- Whether a choice of the given depth ends this frame. -/
def endsAtChoice (depth : Nat) : Frame → Bool
  | choice _ d _ _ => depth ≤ d
  | branch .. => false

/-- A container without a divert takes over the divert that ends its content. -/
def hoist (divert : Option String) (content : List Item) : Option String × List Item :=
  match divert, content with
  | none, .leaf _ (.divert target) :: rest => (some target, rest.reverse)
  | _, _ => (divert, content.reverse)

/-- The mark of the divert that a container takes over. -/
def taken? (divert : Option String) (content : List Item) : Option Mark :=
  match divert, content with
  | none, .leaf m (.divert _) :: _ => some m
  | _, _ => none

def closeBranch (mark : OpenMark) (guard : Guard) (content : List Item) : Branch :=
  let (divert, content) := hoist none content
  .mk mark.toMark guard divert content

/-- The finished item of a frame. -/
def close : Frame → Item
  | choice m _ h c =>
    let (divert, content) := hoist h.divert c
    .choice m.toMark { h with divert } content
  | branch k bs m g c => .conditional k.toMark (closeBranch m g c :: bs).reverse

/-- The mark of the divert that the innermost container of a frame takes over as it ends. -/
def dropped? : Frame → Option Mark
  | choice _ _ h c => taken? h.divert c
  | branch _ _ _ _ c => taken? none c

end Frame

/-- What has been read of a body so far. -/
structure BodyState where
  supply : Nat
  /-- Items at the root of the knot, newest first. -/
  root : List Item := []
  frames : List Frame := []
  /-- A conditional whose first branch is still to come. -/
  pending : Option OpenMark := none
  /-- Issues, newest first. -/
  issues : List Issue := []
  stitches : List String := []
  /-- The lines of every node. -/
  spans : SpanTable := []

namespace BodyState

/-- How many containers are open. -/
def height (s : BodyState) : Nat :=
  (s.frames.map Frame.height).foldr (· + ·) 0 + if s.pending.isSome then 1 else 0

def inConditional (s : BodyState) : Bool := s.pending.isSome || s.frames.any Frame.isBranch

def hasRoom (s : BodyState) : Bool := s.height < nestingLimit

def report (line : Nat) (cause : IssueCause) (s : BodyState) : BodyState :=
  { s with issues := ⟨cause, line⟩ :: s.issues }

/-- The identities of all open containers. -/
def openIds (s : BodyState) : List Id :=
  s.frames.flatMap Frame.openIds ++ (s.pending.map OpenMark.id).toList

/-- Every open container goes on up to `line`. -/
def extend (line : Nat) (s : BodyState) : BodyState :=
  { s with
    frames := s.frames.map (·.extend line)
    pending := s.pending.map (·.extend line)
    spans := s.spans.touch line s.openIds }

/-- Put an item at the end of the innermost container. -/
def add (item : Item) (s : BodyState) : BodyState :=
  match s.frames with
  | [] => { s with root := item :: s.root }
  | f :: fs => { s with frames := f.add item :: fs }

/-- The mark of a container that opens on `line`, drawn from the supply. -/
def openMark (line : Nat) (s : BodyState) : OpenMark := ⟨.fresh s.supply, ⟨line, line⟩⟩

/-- Draw the identity of a node that begins on `line`, and record it. -/
def draw (line : Nat) (s : BodyState) : BodyState :=
  { s with supply := s.supply + 1, spans := s.spans ++ [(.fresh s.supply, ⟨line, line⟩)] }

/-- Append a leaf that stands on `line`. -/
def append (line : Nat) (leaf : Leaf) (s : BodyState) : BodyState :=
  (s.draw line).add (.leaf ⟨.fresh s.supply, some ⟨line, line⟩⟩ leaf)
    |>.extend line

/-- Finish the innermost frame. -/
def pop (s : BodyState) : BodyState :=
  match s.frames with
  | [] => s
  | f :: fs => { s with frames := fs, spans := s.spans.drop f.dropped? }.add f.close

/-- Finish the innermost frames for as long as they satisfy a condition. -/
def popWhile (p : Frame → Bool) (s : BodyState) : BodyState :=
  (s.frames.takeWhile p).foldl (fun s _ => s.pop) s

/-- A conditional that still waits for its first branch ends here. -/
def dropPending (s : BodyState) : BodyState :=
  match s.pending with
  | none => s
  | some m => { s with pending := none }.add (.conditional m.toMark [])

/-- Finish every frame; a conditional among them lacks its closing brace. -/
def closeAll (line : Nat) (s : BodyState) : BodyState :=
  let s := if s.pending.isSome then (s.report line .conditionalUnclosed).dropPending else s
  s.frames.foldl
    (fun s f => (if f.isBranch then s.report line .conditionalUnclosed else s).pop) s

/-! ### What a line does -/

/-- Keep a line for which there is no room as it stands. -/
def refuse (line : Nat) (text : String) (s : BodyState) : BodyState :=
  (s.report line (.nestingTooDeep nestingLimit)).append line (.raw text .unrecognized)

/-- A stitch finishes every container and begins a section at the root. -/
def openStitch (line : Nat) (name : String) (s : BodyState) : BodyState :=
  let s := s.closeAll line
  let s := if s.stitches.contains name then s.report line (.duplicateStitch name) else s
  { s with stitches := name :: s.stitches }.append line (.stitch name)

/-- A choice finishes the choices of the same or a greater depth and opens a container. -/
def openChoice (line : Nat) (text : String) (depth : Nat) (head : ChoiceHead) (s : BodyState) :
    BodyState :=
  let s := s.popWhile (·.endsAtChoice depth)
  if s.hasRoom then
    let s := s.extend line
    { s.draw line with frames := .choice (s.openMark line) depth head [] :: s.frames }
  else s.refuse line text

/-- A brace opens a conditional; its first branch is on a later line. -/
def openConditional (line : Nat) (text : String) (s : BodyState) : BodyState :=
  if s.hasRoom then
    let s := s.extend line
    { s.draw line with pending := some (s.openMark line) }
  else s.refuse line text

/-- Open a further branch of the conditional `k`, behind the finished branches `bs`. -/
def pushBranch (line : Nat) (guard : Guard) (k : OpenMark) (bs : List Branch) (s : BodyState) :
    BodyState :=
  let s := { s with spans := s.spans.touch line [k.id] }.extend line
  { s.draw line with
    frames := .branch (k.extend line) bs (s.openMark line) guard [] :: s.frames }

/-- A branch finishes the branch before it in the innermost conditional and opens a container. -/
def openBranch (line : Nat) (guard : Guard) (s : BodyState) : BodyState :=
  match s.pending with
  | some k => { s with pending := none }.pushBranch line guard k []
  | none =>
    let s := s.popWhile (!·.isBranch)
    match s.frames with
    | .branch k bs m g c :: fs =>
      { s with frames := fs, spans := s.spans.drop (Frame.taken? none c) }.pushBranch line guard k
        (Frame.closeBranch m g c :: bs)
    | _ => s

/-- A closing brace finishes the innermost conditional. -/
def closeConditional (line : Nat) (s : BodyState) : BodyState :=
  let s := s.extend line
  if s.pending.isSome then s.dropPending else (s.popWhile (!·.isBranch)).pop

/-- Append what a line without containers stands for. -/
def appendLine (line : Nat) (l : Line) (s : BodyState) : BodyState :=
  match l.form with
  | .text content none => s.append line (.text content)
  | .text content (some target) => (s.append line (.text content)).append line (.divert target)
  | .divert target => s.append line (.divert target)
  | .media kind filename extension => s.append line (.media kind filename extension)
  | .fakeType d => s.append line (.fakeType d)
  | .wait d => s.append line (.wait d)
  | .sideStory name => s.append line (.sideStory name)
  | .flagOperation verb flag => s.append line (.flagOperation verb flag)
  | .transition title subtitle => s.append line (.transition title subtitle)
  | form => s.append line (.raw l.text (if form.isComment then .comment else .unrecognized))

/-- Content directly inside a conditional, between its branches, ends the conditional. -/
def interrupt (line : Nat) (s : BodyState) : BodyState :=
  if s.pending.isSome then (s.report line .conditionalInterrupted).dropPending else s

/-- What one line does; `branchFollows` says whether the next line that is not blank is a branch,
as it must be behind the brace that opens a conditional. -/
def apply (branchFollows : Bool) (line : Nat) (s : BodyState) (l : Line) : BodyState :=
  match l.form with
  | .stitchHeader name => s.openStitch line name
  | .choice depth head => (s.interrupt line).openChoice line l.text depth head
  | .conditionalOpen =>
    let s := s.interrupt line
    if branchFollows then s.openConditional line l.text else s.appendLine line l
  | .branch guard _ => if s.inConditional then s.openBranch line guard else s.appendLine line l
  | .conditionalClose =>
    if s.inConditional then s.closeConditional line else (s.interrupt line).appendLine line l
  | _ => (s.interrupt line).appendLine line l

end BodyState

/-! ### Lines within a line -/

/-- A line and, behind a branch, the lines read from its remainder. -/
def Line.chainOf (text : String) : List Line :=
  match h : (Line.ofText text).form with
  | .branch _ rest =>
    have : rest.length < text.length := Line.length_lt_of_branch h
    if rest = "" then [Line.ofText text] else Line.ofText text :: chainOf rest
  | _ => [Line.ofText text]
termination_by text.length

/-- A line and, behind a branch, the lines read from its remainder. -/
def Line.chain (l : Line) : List Line :=
  match l.form with
  | .branch _ rest => if rest = "" then [l] else l :: Line.chainOf rest
  | _ => [l]

/-- What a line does together with its remainder. A branch outside any conditional is no branch, so
nothing is read from its remainder. -/
def BodyState.process (branchFollows : Bool) (line : Nat) (s : BodyState) (l : Line) : BodyState :=
  if l.form.isBranch && !s.inConditional then s.apply branchFollows line l
  else l.chain.foldl (BodyState.apply branchFollows line) s

/-- Whether the first line that is not blank is a branch. -/
def branchFirst (ls : List Line) : Bool :=
  match ls.find? fun l => !l.form.isBlank with
  | some l => l.form.isBranch
  | none => false

/-- Read the lines from `line` on. -/
def BodyState.readFrom (s : BodyState) (line : Nat) : List Line → BodyState
  | [] => s
  | l :: ls =>
    let s := if l.form.isBlank then s else s.process (branchFirst ls) line l
    s.readFrom (line + 1) ls

/-- The position annotation that begins a body, and how many lines come before its end. -/
def leadingPosition? : List Line → Option (Position × Nat)
  | [] => none
  | l :: ls =>
    match l.form with
    | .blank => (leadingPosition? ls).map fun (p, n) => (p, n + 1)
    | .position p => some (p, 1)
    | _ => none

/-- A body that has been read. The lines of items and issues are counted from the first line of the
body, which is line zero. -/
structure Body where
  items : List Item
  issues : List Issue
  position : Option Position
  /-- The lines of every node of the tree. -/
  spans : SpanTable

namespace Body

/-- Read the lines of a body; identities are drawn from `supply` on, and the supply that is left
comes with the answer. -/
def read (supply : Nat) (texts : List String) : Body × Nat :=
  let ls := Line.ofTexts texts
  let (position, skipped) :=
    match leadingPosition? ls with
    | some (p, n) => (some p, n)
    | none => (none, 0)
  let start : BodyState := { supply }
  let s := (start.readFrom skipped (ls.drop skipped)).closeAll (ls.length - 1)
  (⟨s.root.reverse, s.issues.reverse, position, s.spans⟩, s.supply)

/-- The first and the last line under every identity, if the lines are counted from `first` on. -/
def nodeLines (b : Body) (first : Int) : List (Id × Option (Int × Int)) :=
  b.spans.map fun x => (x.1, some (first + x.2.first, first + x.2.last))

/-- What was found and on which line, if the lines are counted from `first` on. -/
def issueLines (b : Body) (first : Int) : List (IssueCause × Int) :=
  b.issues.map fun i => (i.cause, first + i.line)

end Body

end StoryScript
