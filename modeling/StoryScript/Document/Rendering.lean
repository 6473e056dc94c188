import StoryScript.Document.Basic
import StoryScript.Number.Decimal

/-!
# Writing a script

The canonical text of a content tree, a knot and a document. Reading it again gives a document of
the same structure, and writing that gives the same text.

* `Item.renderList` — the body lines of a content tree.
* `Knot.renderLines` — a knot with its header and its position.
* `Document.render` — the whole script. Lines outside any knot that are not part of the preamble are
  not kept.
* `Document.sameStructure` — whether two documents agree in everything that writing keeps.
-/

namespace StoryScript

/-- The columns by which one level of nesting is indented. -/
def defaultIndent : Nat := 4

/-! ### Lines -/

/-- The pair of coordinates of a position, each with one place after the point. -/
def Position.render (p : Position) : String :=
  "\x7b \"pos-x\": " ++ p.x.fixed 1 ++ ", \"pos-y\": " ++ p.y.fixed 1 ++ " \x7d"

/-- The annotation that gives the position of a knot or a region. -/
def Position.comment (p : Position) : String := "// <" ++ p.render ++ ">"

/-- The annotation that gives the position of a node that is no knot. -/
def Position.nodeComment (label : String) (p : Position) : String :=
  "// <# " ++ label ++ ": " ++ p.render ++ " #>"

/-- A duration in seconds, with at most six digits. -/
def renderDuration (d : Binary64) : String := d.general 6

def renderKnotHeader (name : String) : String := "=== " ++ name ++ " ==="

/-- An arrow and a target. -/
def renderDivert (target : String) : String := "-> " ++ target

/-- The condition of a branch. -/
def Guard.render (g : Guard) : String :=
  if g.isElse then "else"
  else
    match g.flag with
    | some flag => "GetStoryFlag(\"" ++ flag ++ "\")"
    | none => g.condition.getD ""

/-- The first line of a branch. -/
def Guard.renderLine (g : Guard) : String := "- " ++ g.render ++ ":"

/-- The first line of a choice at a depth, with its divert if `inline`. -/
def ChoiceHead.render (depth : Nat) (inline : Bool) (h : ChoiceHead) : String :=
  let marker := if h.sticky then "+" else "*"
  let markers := Text.join " " (List.replicate depth marker)
  let shown :=
    if h.bracketed then ["[" ++ h.text ++ "]"] else if h.text = "" then [] else [h.text]
  let divert := if inline then [renderDivert (h.divert.getD "None")] else []
  Text.join " " (markers :: shown ++ divert)

/-- What a tag for a media item begins with. -/
def MediaKind.tagOpening : MediaKind → String
  | .image => ""
  | .playerImage => "player-"
  | .video => "video-"
  | .playerVideo => "player-video-"

/-- The function that performs a flag operation. -/
def FlagVerb.function : FlagVerb → String
  | .set => "SetStoryFlag"
  | _ => "RemoveStoryFlag"

/-- The line of a leaf. -/
def Leaf.render : Leaf → String
  | .text content => content
  | .media kind filename extension => "<" ++ kind.tagOpening ++ filename ++ extension ++ ">"
  | .fakeType d => "<fake-type-" ++ renderDuration d ++ ">"
  | .wait d => "<wait-" ++ renderDuration d ++ ">"
  | .stitch name => "= " ++ name
  | .divert target => renderDivert target
  | .flagOperation verb flag => "~ " ++ verb.function ++ "(\"" ++ flag ++ "\")"
  | .sideStory name => "<side-story-" ++ name ++ ">"
  | .transition title subtitle =>
    "~ ShowCustomTransition(\"" ++ title ++ "\", \"" ++ subtitle ++ "\")"
  | .raw content _ => content

/-- A line at a level of nesting; an empty line stays empty. -/
def indented (indent level : Nat) (text : String) : String :=
  if text = "" then "" else String.ofList (List.replicate (indent * level) ' ') ++ text

/-! ### Content trees -/

/-- Whether the divert of a choice stands on the line of the choice. Behind content that ends in a
choice it would be read as part of that choice, and behind a divert it would come second. -/
def inlineDivert (h : ChoiceHead) (content : List Item) : Bool :=
  h.divert.isSome &&
    match content.getLast? with
    | none => true
    | some last => last.isChoice || last.isDivert

mutual

/-- The lines of an item; `depth` is the depth of a choice at this place. -/
def Item.render (indent level depth : Nat) : Item → List String
  | .leaf _ l =>
    [indented indent (match l with | .stitch _ => 0 | _ => level) l.render]
  | .choice _ h c =>
    let inline := inlineDivert h c
    indented indent level (h.render depth inline) ::
      Item.renderIn indent (level + 1) (depth + 1) c ++
      if inline then []
      else (h.divert.map fun t => indented indent (level + 1) (renderDivert t)).toList
  | .conditional _ bs =>
    indented indent level "\x7b" ::
      Branch.renderIn indent level bs ++ [indented indent level "\x7d"]

/-- The lines of a branch. -/
def Branch.render (indent level : Nat) : Branch → List String
  | .mk _ g d c =>
    indented indent level g.renderLine ::
      Item.renderIn indent (level + 1) 1 c ++
      (d.map fun t => indented indent (level + 1) (renderDivert t)).toList

/-- The lines of a list of items. -/
def Item.renderIn (indent level depth : Nat) : List Item → List String
  | [] => []
  | i :: is => i.render indent level depth ++ Item.renderIn indent level depth is

/-- The lines of a list of branches. -/
def Branch.renderIn (indent level : Nat) : List Branch → List String
  | [] => []
  | b :: bs => b.render indent level ++ Branch.renderIn indent level bs

end

/-- The body lines of a content tree. -/
def Item.renderList (indent : Nat) (items : List Item) : List String :=
  Item.renderIn indent 0 1 items

/-! ### Knots and documents -/

/-- A header, the position if there is one, and the body. -/
def renderSection (indent : Nat) (header : String) (position : Option Position)
    (items : List Item) : List String :=
  header :: (position.map Position.comment).toList ++ Item.renderList indent items

/-- The lines of a knot under its canonical header. -/
def Knot.renderLines (indent : Nat) (k : Knot) : List String :=
  renderSection indent (renderKnotHeader k.name) k.position k.items

/-- The text of a knot. -/
def Knot.render (indent : Nat) (k : Knot) : String := Text.unlines (k.renderLines indent) ++ "\n"

def External.render (e : External) : String :=
  "EXTERNAL " ++ e.name ++ "(" ++ Text.join ", " e.params ++ ")"

def renderRegionStart (name : String) : String := "// <# StartRegion: " ++ name ++ " #>"

def renderRegionEnd : String := "// <# EndRegion #>"

namespace Document

/-- The knots that a region holds. -/
def knotsIn (d : Document) (r : Region) : List Knot :=
  d.knots.filter fun k =>
    k.region = some r.name && r.lineStart ≤ k.lineStart && k.lineStart ≤ r.lineEnd

/-- The lines in front of the initial divert. -/
def renderFront (d : Document) : List String :=
  (d.startPosition.map (Position.nodeComment "start")).toList ++
    (d.endPosition.map (Position.nodeComment "end")).toList ++
    d.externals.map External.render ++
    d.inclusions.map ("INCLUDE " ++ ·) ++
    d.preamble

/-- The lines of a region, in paragraphs. -/
def renderRegion (d : Document) (indent : Nat) (r : Region) : List (List String) :=
  (renderRegionStart r.name :: (r.position.map Position.comment).toList) ::
    (d.knotsIn r).map (Knot.renderLines indent) ++ [[renderRegionEnd]]

/-- The regions and the knots outside any region, in the order of the script. -/
def renderBlocks (d : Document) (indent : Nat) : List (List String) :=
  let regions := d.regions.map fun r => (r.lineStart, d.renderRegion indent r)
  let free := (d.knots.filter (·.region.isNone)).map fun k =>
    (k.lineStart, [k.renderLines indent])
  ((regions ++ free).mergeSort fun a b => a.1 ≤ b.1).flatMap (·.2)

/-- The paragraphs of a script, each of one or more lines. -/
def renderParagraphs (d : Document) (indent : Nat) : List (List String) :=
  let front := d.renderFront
  (if front.isEmpty then [] else [front]) ++
    (d.initialDivert.map fun t => [renderDivert t]).toList ++
    d.renderBlocks indent

/-- The canonical text of a script: its paragraphs with an empty line between them. -/
def render (d : Document) (indent : Nat) : String :=
  Text.unlines (((d.renderParagraphs indent).intersperse [""]).flatten) ++ "\n"

/-! ### Structure -/

/-- Whether two positions are both missing or equal. -/
def samePosition : Option Position → Option Position → Bool
  | none, none => true
  | some p, some q => p.equal q
  | _, _ => false

/-- Whether two documents agree in everything but identities and lines. -/
def sameStructure (d e : Document) : Bool :=
  d.initialDivert = e.initialDivert &&
    d.externals.map (fun x => (x.name, x.params)) = e.externals.map (fun x => (x.name, x.params)) &&
    d.regions.map (fun r => (r.name, r.knots)) = e.regions.map (fun r => (r.name, r.knots)) &&
    d.knots.length = e.knots.length &&
    (d.knots.zip e.knots).all fun (k, l) =>
      k.name = l.name && samePosition k.position l.position && k.region = l.region &&
        Item.sameList k.items l.items

end Document

end StoryScript
