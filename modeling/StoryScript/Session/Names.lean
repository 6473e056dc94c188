import StoryScript.Line.Reading
import StoryScript.Document.Knot
import StoryScript.Story.EditError

/-!
# Names

Which names an edit may introduce. A knot name is an ASCII identifier and a stitch name a word; one
line feed behind either is passed over. Knot names are unique in a document and stitch names in a
knot, also where an edit brings in raw text.
-/

namespace StoryScript

/-- A text without one final line feed. -/
def withoutFinalBreak (cs : List Char) : List Char :=
  if cs.getLast? = some '\n' then cs.dropLast else cs

/-- Whether a character may begin a knot name. -/
def isNameStart (c : Char) : Bool := c.isAlpha || c = '_'

/-- Whether a text is a knot name. -/
def isKnotName (name : String) : Bool :=
  match withoutFinalBreak name.toList with
  | [] => false
  | c :: cs => isNameStart c && cs.all fun c => isNameStart c || c.isDigit

/-- Whether a text is a stitch name. -/
def isStitchName (name : String) : Bool :=
  let cs := withoutFinalBreak name.toList
  cs ≠ [] && cs.all Text.isWord

/-- Refuse a text that is no knot name. -/
def checkKnotName (name : String) : Except EditError Unit :=
  if isKnotName name then .ok () else .error (.invalidKnotName name)

/-- Refuse a stitch whose name is no name or is taken in its knot; `replacing` is the item that it
takes the place of. -/
def checkStitch (k : Knot) (item : Item) (replacing : Option Id) : Except EditError Unit :=
  match item.stitchName? with
  | none => .ok ()
  | some name =>
    if !isStitchName name then .error (.invalidStitchName name)
    else
      let others := k.items.filter fun i => some i.id ≠ replacing
      if (others.filterMap Item.stitchName?).contains name then
        .error (.stitchNameTaken name k.name)
      else .ok ()

/-- Refuse raw lines that repeat a knot name or, within a knot, a stitch name. -/
def checkLines (knot : String) (taken stitches : List String) : List Line → Except EditError Unit
  | [] => .ok ()
  | l :: ls =>
    match l.form with
    | .knotHeader name =>
      if taken.contains name then .error (.knotNameTaken name)
      else checkLines name (name :: taken) [] ls
    | .stitchHeader name =>
      if stitches.contains name then .error (.stitchNameTaken name knot)
      else checkLines knot taken (name :: stitches) ls
    | _ => checkLines knot taken stitches ls

/-- Refuse the raw body of a knot that repeats a knot name or a stitch name. -/
def checkBody (knot : String) (taken : List String) (body : List String) :
    Except EditError Unit :=
  checkLines knot taken [] (Line.ofTexts body)

end StoryScript
