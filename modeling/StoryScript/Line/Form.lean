import StoryScript.Story.Item

/-!
# Line forms

Every line of a script has exactly one form, which says what the line means on its own and holds
what was read from it. A line that looks like markup but fits no rule is `raw`; everything else that
fits no rule is `text`.
-/

namespace StoryScript

/-- What a line means on its own. -/
inductive LineForm where
  | blank
  | knotHeader (name : String)
  | stitchHeader (name : String)
  | comment
  /-- A comment that begins with a slash and a star; it may go on over the lines that follow. -/
  | blockComment (staysOpen : Bool)
  | position (place : Position)
  | startPosition (place : Position)
  | endPosition (place : Position)
  | regionStart (name : String)
  | regionEnd
  | choice (depth : Nat) (head : ChoiceHead)
  | divert (target : String)
  | flagOperation (verb : FlagVerb) (flag : String)
  | transition (title subtitle : String)
  | branch (guard : Guard) (rest : String)
  | conditionalOpen
  | conditionalClose
  | media (kind : MediaKind) (filename extension : String)
  | fakeType (duration : Binary64)
  | wait (duration : Binary64)
  | sideStory (name : String)
  | external (name : String) (params : List String)
  | inclusion (path : String)
  | text (content : String) (divert : Option String)
  | raw
  deriving DecidableEq, Repr, Inhabited

/-- A line without its surrounding blanks, and its form. -/
structure Line where
  text : String
  form : LineForm
  deriving DecidableEq, Repr, Inhabited

namespace LineForm

def isBlank : LineForm → Bool
  | blank => true
  | _ => false

def isBranch : LineForm → Bool
  | branch .. => true
  | _ => false

/-- Comments of any kind, the annotations hidden in comments among them. -/
def isComment : LineForm → Bool
  | comment | blockComment _ | position _ | startPosition _ | endPosition _ | regionStart _
  | regionEnd => true
  | _ => false

end LineForm

end StoryScript
