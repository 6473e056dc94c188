import StoryScript.Files.Path
import StoryScript.Story.Item

/-!
# Refused edits

Why an edit of a content tree or of a script is refused. A refused edit changes nothing. The wording
is in `EditError.message`; it names identities through a function of the caller's choice.
-/

namespace StoryScript

/-- What an edit of a knot's content set out to do. -/
inductive EditAction where
  | insert (kind : String)
  | replace (id : Id)
  | delete (id : Id)
  | move (id : Id)
  deriving DecidableEq, Repr

def EditAction.describe (show_ : Id → String) : EditAction → String
  | insert kind => "insert " ++ kind
  | replace id => "replace " ++ show_ id
  | delete id => "delete " ++ show_ id
  | move id => "move " ++ show_ id

/-- Why an edit is refused. -/
inductive EditError where
  | knotNameTaken (name : String)
  | stitchNameTaken (name knot : String)
  | invalidKnotName (name : String)
  | invalidStitchName (name : String)
  | knotNotFound (name : String)
  | itemNotFound (id : Id)
  | regionNotFound (name : String)
  /-- A stitch always reopens the root of its knot, so it has no place inside a container. -/
  | stitchBelowRoot (name : String)
  | notAContainer (id : Id)
  | outOfRange (after : Int) (size : Nat)
  | moveIntoItself
  /-- The edited knot would be read back with another structure. -/
  | structureChanged (action : EditAction) (knot : String)
  | noPath
  | fileNotFound (path : Path)
  deriving DecidableEq, Repr

def EditError.message (show_ : Id → String) : EditError → String
  | knotNameTaken name => "Name '" ++ name ++ "' already exists in document"
  | stitchNameTaken name knot => "Name '" ++ name ++ "' already exists in knot '" ++ knot ++ "'"
  | invalidKnotName name => "Invalid knot name '" ++ name ++ "'"
  | invalidStitchName name => "Invalid stitch name '" ++ name ++ "'"
  | knotNotFound name => "Knot '" ++ name ++ "' not found"
  | itemNotFound id => "Item '" ++ show_ id ++ "' not found"
  | regionNotFound name => "Region '" ++ name ++ "' not found"
  | stitchBelowRoot name => "Stitch '" ++ name ++ "' can only be placed at the knot's root level"
  | notAContainer id => "Item '" ++ show_ id ++ "' cannot contain other items"
  | outOfRange after size =>
    "Index " ++ toString after ++ " out of range for a list of " ++ toString size ++ " items"
  | moveIntoItself => "Cannot move an item into itself"
  | structureChanged action knot =>
    action.describe show_ ++ " cannot be written to knot '" ++ knot ++
      "' without changing its structure"
  | noPath => "No path to save to"
  | fileNotFound path => toString path

end StoryScript
