import StoryScript.Story.Node

/-!
# Knots

A knot is a named top-level section of a script: a header line and a body. What the rest of the
library asks of a knot is read off its content tree:

* `Knot.lineRange` — the lines of a node, counted from the start of the script;
* `Knot.divertRefs` — every divert in document order, with what it hangs on. A container's own
  divert comes behind the diverts in its content;
* `Knot.storyFlags` — every flag operation and flag check in document order;
* `Knot.stitches` — the names of the knot's sections.
-/

namespace StoryScript

/-- The divert targets that end the story instead of naming a knot. -/
def isTerminal (target : String) : Bool := target = "END" || target = "DONE"

/-- What a divert hangs on: the innermost choice or branch around it. -/
inductive DivertContext where
  | standalone
  | choice (text : String)
  | conditional (flag : Option String) (isElse : Bool)
  deriving DecidableEq, Repr

/-- One divert inside a knot. -/
structure DivertRef where
  target : String
  line : Option Nat
  context : DivertContext
  deriving DecidableEq, Repr

/-- The knot part of a target. -/
def knotPart (target : String) : String := String.ofList (target.toList.takeWhile (· ≠ '.'))

/-- The stitch part of a target, if it has one. -/
def stitchPart? (target : String) : Option String :=
  match target.toList.dropWhile (· ≠ '.') with
  | [] => none
  | _ :: stitch => some (String.ofList stitch)

/-- One use of a story flag. -/
structure StoryFlag where
  name : String
  verb : FlagVerb
  line : Option Nat
  knot : String
  divertTarget : Option String := none
  deriving DecidableEq, Repr

/-- A named section of a script. -/
structure Knot where
  name : String
  lineStart : Nat
  lineEnd : Nat
  /-- The header line as it stands in the script. -/
  header : String
  items : List Item
  /-- The lines of the knot, joined. -/
  content : String
  position : Option Position
  region : Option String
  /-- Whether an earlier knot has the same name. -/
  duplicate : Bool
  deriving Inhabited

namespace Mark

/-- The lines of a node in a script, given the line of the knot's header. The body begins on the
line behind the header. -/
def linesFrom (lineStart : Nat) (m : Mark) : Option Span :=
  m.span.map fun s => ⟨lineStart + 1 + s.first, lineStart + 1 + s.last⟩

end Mark

/-! ### Diverts -/

mutual

/-- The diverts of an item inside `context`. -/
def Item.divertRefs (lineStart : Nat) (context : DivertContext) : Item → List DivertRef
  | .leaf m (.divert target) => [⟨target, (m.linesFrom lineStart).map (·.first), context⟩]
  | .leaf _ _ => []
  | .choice m h c =>
    Item.divertRefsIn lineStart (.choice h.text) c ++
      (h.divert.map fun target =>
        ⟨target, (m.linesFrom lineStart).map (·.last), .choice h.text⟩).toList
  | .conditional _ bs => Branch.divertRefsIn lineStart bs

/-- The diverts of a branch. -/
def Branch.divertRefs (lineStart : Nat) : Branch → List DivertRef
  | .mk m g d c =>
    Item.divertRefsIn lineStart (.conditional g.flag g.isElse) c ++
      (d.map fun target =>
        ⟨target, (m.linesFrom lineStart).map (·.last), .conditional g.flag g.isElse⟩).toList

/-- The diverts of a list of items inside `context`. -/
def Item.divertRefsIn (lineStart : Nat) (context : DivertContext) : List Item → List DivertRef
  | [] => []
  | i :: is => i.divertRefs lineStart context ++ Item.divertRefsIn lineStart context is

/-- The diverts of a list of branches. -/
def Branch.divertRefsIn (lineStart : Nat) : List Branch → List DivertRef
  | [] => []
  | b :: bs => b.divertRefs lineStart ++ Branch.divertRefsIn lineStart bs

end

namespace Knot

/-- The lines of the node with an identity. Should several nodes share it, the last one counts. -/
def lineRange (k : Knot) (id : Id) : Option Span :=
  ((Item.nodesIn k.items).reverse.find? fun n => n.id = id).bind
    (·.mark.linesFrom k.lineStart)

/-- Every divert in document order. -/
def divertRefs (k : Knot) : List DivertRef := Item.divertRefsIn k.lineStart .standalone k.items

/-- The distinct targets in first-seen order, without those that end the story. -/
def diverts (k : Knot) : List String :=
  ((k.divertRefs.map DivertRef.target).filter (!isTerminal ·)).eraseDups

/-- The flags that one item sets, removes or checks. -/
def flagsOf (k : Knot) : Item → List StoryFlag
  | .leaf m (.flagOperation verb flag) =>
    [{ name := flag, verb, line := (m.linesFrom k.lineStart).map (·.first), knot := k.name }]
  | .conditional _ bs =>
    bs.filterMap fun b => b.guard.flag.map fun flag =>
      { name := flag
        verb := .check
        line := (b.mark.linesFrom k.lineStart).map (·.first)
        knot := k.name
        divertTarget := b.divert }
  | _ => []

/-- Every flag operation and flag check in document order. -/
def storyFlags (k : Knot) : List StoryFlag := (Item.itemsIn k.items).flatMap k.flagsOf

/-- The names of the stitches at the root of the knot. -/
def stitches (k : Knot) : List String := k.items.filterMap Item.stitchName?

/-- Whether the knot holds nothing but comments. -/
def isEmpty (k : Knot) : Bool := k.items.all Item.isComment

/-- The first item with an identity. -/
def find? (k : Knot) (id : Id) : Option Item := Item.find? k.items id

end Knot

end StoryScript
