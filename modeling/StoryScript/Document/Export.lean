import StoryScript.Document.Basic
import StoryScript.Data.Basic

/-!
# The model of a script as data

What other programs are told of a script: its knots with their content trees, its regions, its
declarations and its issues. Identities are named through a function of the caller's choice.
-/

namespace StoryScript

def Position.toData (p : Position) : Data := .table [("x", .number p.x), ("y", .number p.y)]

def FlagVerb.name : FlagVerb → String
  | set => "set"
  | remove => "remove"
  | check => "check"

/-- The fields of a leaf; how the name of a media file was spelt is not told. -/
def Leaf.fields : Leaf → List (String × Data)
  | .text content => [("content", .text content)]
  | .media _ filename _ => [("filename", .text filename)]
  | .fakeType d => [("duration", .number d)]
  | .wait d => [("duration", .number d)]
  | .stitch name => [("name", .text name)]
  | .divert target => [("target", .text target)]
  | .flagOperation verb flag => [("operation", .text verb.name), ("flag", .text flag)]
  | .sideStory name => [("name", .text name)]
  | .transition title subtitle => [("title", .text title), ("subtitle", .text subtitle)]
  | .raw content reason =>
    [("content", .text content),
     ("reason", .text (match reason with
       | .comment => "comment"
       | .unrecognized => "unrecognized"))]

mutual

/-- An item as data. -/
def Item.toData (show_ : Id → String) : Item → Data
  | .leaf m l => .table ([("id", .text (show_ m.id)), ("type", .text l.kindName)] ++ l.fields)
  | .choice m h c =>
    .table
      [("id", .text (show_ m.id)), ("type", .text "choice"), ("text", .text h.text),
       ("is_sticky", .bool h.sticky), ("divert", .ofOption .text h.divert),
       ("nested_content", .list (Item.dataIn show_ c)), ("bracketed", .bool h.bracketed)]
  | .conditional m bs =>
    .table
      [("id", .text (show_ m.id)), ("type", .text "conditional"),
       ("branches", .list (Branch.dataIn show_ bs))]

/-- A branch as data. -/
def Branch.toData (show_ : Id → String) : Branch → Data
  | .mk m g d c =>
    .table
      [("id", .text (show_ m.id)), ("flag", .ofOption .text g.flag),
       ("condition", .ofOption .text g.condition), ("is_else", .bool g.isElse),
       ("content", .list (Item.dataIn show_ c)), ("divert", .ofOption .text d)]

/-- Items as data. -/
def Item.dataIn (show_ : Id → String) : List Item → List Data
  | [] => []
  | i :: is => i.toData show_ :: Item.dataIn show_ is

/-- Branches as data. -/
def Branch.dataIn (show_ : Id → String) : List Branch → List Data
  | [] => []
  | b :: bs => b.toData show_ :: Branch.dataIn show_ bs

end

def Knot.toData (show_ : Id → String) (k : Knot) : Data :=
  .table
    [("name", .text k.name),
     ("line_start", .int k.lineStart),
     ("line_end", .int k.lineEnd),
     ("region", .ofOption .text k.region),
     ("position", .ofOption Position.toData k.position),
     ("duplicate", .bool k.duplicate),
     ("diverts", .texts k.diverts),
     ("story_flags", .list (k.storyFlags.map fun f =>
       .table [("name", .text f.name), ("operation", .text f.verb.name),
         ("line", .ofOption (fun n => .int n) f.line)])),
     ("items", .list (Item.dataIn show_ k.items))]

/-- Names for the nodes of a document: their places in document order. -/
def Document.nodeName (d : Document) : Id → String :=
  let ids := d.knots.flatMap fun k => Item.idsIn k.items
  fun id => "i" ++ toString (ids.idxOf id + 1)

/-- A document as data. -/
def Document.toData (show_ : Id → String) (d : Document) : Data :=
  .table
    [("initial_divert", .ofOption .text d.initialDivert),
     ("externals", .list (d.externals.map fun e =>
       .table [("name", .text e.name), ("params", .texts e.params)])),
     ("regions", .list (d.regions.map fun r =>
       .table [("name", .text r.name), ("knots", .texts r.knots),
         ("position", .ofOption Position.toData r.position)])),
     ("knots", .list (d.knots.map (Knot.toData show_))),
     ("issues", .list (d.issues.map fun i =>
       .table [("rule", .text i.cause.rule), ("severity", .text i.cause.severity.name),
         ("line", .int i.line), ("message", .text i.cause.message)]))]

end StoryScript
