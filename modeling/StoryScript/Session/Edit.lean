import StoryScript.Session.Basic
import StoryScript.Session.Names
import StoryScript.Story.Edit
import StoryScript.Document.Rendering

/-!
# Editing a script

The edits of a session. An edit of a knot's content writes the knot anew in canonical form and puts
it in the place of its lines; an insertion, a replacement or a move is refused when the knot would
be read back with another structure. Edits of whole knots change the lines of the script directly.

Each edit works on the session in place (namespace `Edit`) and commits a document as its last step.
What it leads to from a session, unless it is refused, stands under the same name in the namespace
`Session`.
-/

namespace StoryScript

open Text

namespace Session

/-! ### Lines of the script -/

/-- Whether a line holds nothing but blanks. -/
def isBlankLine (line : String) : Bool := stripChars line.toList = []

/-- How many blank lines end a list of lines. -/
def trailingBlankLines (lines : List String) : Nat := (lines.reverse.takeWhile isBlankLine).length

/-- The lines of a script with others in the place of a knot's. The blank lines that end the knot
stay. -/
def spliceKnot (lines : List String) (k : Knot) (section_ : List String) : List String :=
  let old := (lines.take k.lineEnd).drop (k.lineStart - 1)
  lines.take (k.lineStart - 1) ++ section_ ++ List.replicate (trailingBlankLines old) "" ++
    lines.drop k.lineEnd

/-- The lines of a text; an empty text has none. -/
def bodyLines (body : String) : List String :=
  if body = "" then [] else (splitAt '\n' body.toList).map String.ofList

/-- The characters of an arrow and its blanks in front of a whole name, if they stand here. -/
def arrowTo? (name : List Char) (cs : List Char) : Option (List Char) := do
  let rest ← lit? "->" cs
  let behind ← name.isPrefixOf? (skipBlanks rest)
  guard !(behind.head?.any isWord)
  some ('-' :: '>' :: rest.takeWhile isBlank)

/-- A line with every arrow to one name changed into an arrow to another; `skip` characters belong
to an arrow that has been changed. -/
def redirect (old new : List Char) : Nat → List Char → List Char
  | _, [] => []
  | skip + 1, _ :: cs => redirect old new skip cs
  | 0, c :: cs =>
    match arrowTo? old (c :: cs) with
    | some arrow => arrow ++ new ++ redirect old new (arrow.length + old.length - 1) cs
    | none => c :: redirect old new 0 cs

/-- A text with the first occurrence of one text changed into another. -/
def replaceFirst (old new : List Char) : List Char → List Char
  | [] => if old.isEmpty then new else []
  | c :: cs =>
    match old.isPrefixOf? (c :: cs) with
    | some rest => new ++ rest
    | none => c :: replaceFirst old new cs

/-- The lines of a script with a knot renamed, in its header and in every divert. -/
def renameLines (lines : List String) (k : Knot) (new : String) : List String :=
  let redirected := lines.map fun line =>
    String.ofList (redirect k.name.toList new.toList 0 line.toList)
  let header := String.ofList (replaceFirst k.name.toList new.toList k.header.toList)
  redirected.set (k.lineStart - 1) (if header = k.header then renderKnotHeader new else header)

/-- A text without the line feeds that end it. -/
def withoutFinalBreaks (text : String) : String :=
  String.ofList (text.toList.reverse.dropWhile (· = '\n')).reverse

/-- The lines that a raw body is cut into, without the breaks that end it. -/
def rawLines (body : String) : List String :=
  if body = "" then []
  else (splitAt '\n' (withoutFinalBreaks body).toList).map String.ofList

/-- The lines of a script with another position annotation in a knot. -/
def positionLines (lines : List String) (k : Knot) (comment : String) : List String :=
  let body := (lines.take k.lineEnd).drop k.lineStart
  let blank := (body.takeWhile fun l => (Line.ofText l).form.isBlank).length
  match (body.drop blank).head?.map fun l => (Line.ofText l).form with
  | some (.position _) => lines.set (k.lineStart + blank) comment
  | _ => lines.take k.lineStart ++ comment :: lines.drop k.lineStart

/-- How many lines stand in front of the first knot or region. -/
def frontLength (d : Document) : Nat :=
  match (d.knots.map Knot.lineStart ++ d.regions.map Region.lineStart).min? with
  | some n => n - 1
  | none => d.lines.length

/-- Whether a line is a divert on its own. -/
def isDivertLine (line : String) : Bool :=
  match (Line.ofText line).form with
  | .divert _ => true
  | _ => false

/-- The lines of a script with another initial divert, or with none. -/
def initialDivertLines (d : Document) (target : Option String) : List String :=
  let front := frontLength d
  match (d.lines.take front).findIdx? isDivertLine, target with
  | some i, none => d.lines.eraseIdx i
  | some i, some t => d.lines.set i (renderDivert t)
  | none, some t => d.lines.take front ++ renderDivert t :: "" :: d.lines.drop front
  | none, none => d.lines

end Session

open Session

namespace Edit

/-! ### Edits of a knot's content -/

/-- Write other items into a knot. With `exact`, the edit is refused unless they are read back as
they are. Reading draws identities behind `drawn` others. -/
def writeItems (drawn : Nat) (name : String) (items : List Item) (action : EditAction)
    (exact : Bool) : Edit Unit := do
  let s ← get
  let k ← s.knot name
  let section_ := renderSection s.indent k.header k.position items
  let (d, supply) ← reread drawn (unlines (spliceKnot s.document.lines k section_)) (some (name, items))
  let written := (d.findKnot? name).any fun k => Item.sameList k.items items
  if exact && !written then throw (.structureChanged action name)
  commit d supply

/-- Insert an item at a caret in a knot. -/
def insert (drawn : Nat) (name : String) (item : Item) (caret : Caret) : Edit Unit := do
  let k ← (← get).knot name
  checkStitch k item none
  let items ← Item.insert k.items item caret
  writeItems drawn name items (.insert item.kindName) true

/-- Put another item in the place of one. -/
def replace (name : String) (id : Id) (item : Item) : Edit Unit := do
  let k ← (← get).knot name
  checkStitch k item (some id)
  let items ← Item.replace k.items id item
  writeItems 0 name items (.replace id) true

/-- Remove an item with everything in it. -/
def delete (name : String) (id : Id) : Edit Unit := do
  let k ← (← get).knot name
  let items ← Item.delete k.items id
  writeItems 0 name items (.delete id) false

/-- Move an item with everything in it to a caret. -/
def move (name : String) (id : Id) (caret : Caret) : Edit Unit := do
  let k ← (← get).knot name
  let items ← Item.move k.items id caret
  writeItems 0 name items (.move id) true

/-- Insert a stitch at a caret or, without one, at the end of a knot. The stitch draws an identity. -/
def addStitch (name stitch : String) (caret : Option Caret) : Edit Unit := do
  let s ← get
  let k ← s.knot name
  insert 1 name (.leaf ⟨.fresh s.supply, none⟩ (.stitch stitch))
    (caret.getD ⟨none, k.items.length - 1⟩)

/-! ### Edits of whole knots -/

/-- Append a knot, at the end of a region if one is named. -/
def addKnot (name body : String) (region : Option String) (position : Option Position) :
    Edit Unit := do
  checkKnotName name
  let d := (← get).document
  if (d.findKnot? name).isSome then throw (.knotNameTaken name)
  checkBody name (name :: d.knotNames) (bodyLines body)
  let section_ :=
    renderKnotHeader name :: (position.map Position.comment).toList ++ bodyLines body
  match region with
  | some r =>
    match d.regions.find? (·.name = r) with
    | none => throw (.regionNotFound r)
    | some target =>
      let at_ := target.lineEnd - 1
      commitText (unlines (d.lines.take at_ ++ section_ ++ "" :: d.lines.drop at_)) none
  | none =>
    let kept := d.lines.take (d.lines.length - trailingBlankLines d.lines)
    let gap := if kept.isEmpty then [] else [""]
    commitText (unlines (kept ++ gap ++ section_ ++ [""])) none

/-- Remove a knot with its lines. -/
def deleteKnot (name : String) : Edit Unit := do
  let s ← get
  let k ← s.knot name
  let lines := s.document.lines
  commitText (unlines (lines.take (k.lineStart - 1) ++ lines.drop k.lineEnd)) none

/-- Rename a knot and every divert that leads to it. The same name again changes nothing. -/
def renameKnot (old new : String) : Edit Unit := do
  let s ← get
  let k ← s.knot old
  checkKnotName new
  if new = old then return
  if (s.document.findKnot? new).isSome then throw (.knotNameTaken new)
  commitText (unlines (renameLines s.document.lines k new)) (some (new, k.items))

/-- Replace the whole body of a knot by raw text. -/
def replaceKnot (name body : String) : Edit Unit := do
  let s ← get
  let k ← s.knot name
  checkBody name s.document.knotNames (rawLines body)
  let section_ := k.header :: (k.position.map Position.comment).toList ++ rawLines body
  commitText (unlines (spliceKnot s.document.lines k section_)) none

/-- Give a knot a position. -/
def setKnotPosition (name : String) (position : Position) : Edit Unit := do
  let s ← get
  let k ← s.knot name
  commitText (unlines (positionLines s.document.lines k position.comment)) none

/-- Set, change or remove the divert that starts the story. -/
def setInitialDivert (target : Option String) : Edit Unit := do
  commitText (unlines (initialDivertLines (← get).document target)) none

/-- Replace the whole text. -/
def updateText (text : String) : Edit Unit := commitText text none

end Edit

/-! ### What edits lead to -/

namespace Session

variable (s : Session)

def writeItems (name : String) (items : List Item) (action : EditAction) (exact : Bool) :
    Except EditError Session :=
  (Edit.writeItems 0 name items action exact).outcome s

def insert (name : String) (item : Item) (caret : Caret) : Except EditError Session :=
  (Edit.insert 0 name item caret).outcome s

def replace (name : String) (id : Id) (item : Item) : Except EditError Session :=
  (Edit.replace name id item).outcome s

def delete (name : String) (id : Id) : Except EditError Session := (Edit.delete name id).outcome s

def move (name : String) (id : Id) (caret : Caret) : Except EditError Session :=
  (Edit.move name id caret).outcome s

def addStitch (name stitch : String) (caret : Option Caret) : Except EditError Session :=
  (Edit.addStitch name stitch caret).outcome s

def addKnot (name body : String) (region : Option String) (position : Option Position) :
    Except EditError Session :=
  (Edit.addKnot name body region position).outcome s

def deleteKnot (name : String) : Except EditError Session := (Edit.deleteKnot name).outcome s

/-- Nothing comes of the same name again. -/
def renameKnot (old new : String) : Except EditError (Option Session) :=
  ((Edit.renameKnot old new).outcome s).map fun t => if new = old then none else some t

def replaceKnot (name body : String) : Except EditError Session :=
  (Edit.replaceKnot name body).outcome s

def setKnotPosition (name : String) (position : Position) : Except EditError Session :=
  (Edit.setKnotPosition name position).outcome s

/-- No target is refused. -/
def setInitialDivert (target : Option String) : Session := (Edit.setInitialDivert target).left s

/-- No text is refused. -/
def updateText (text : String) : Session := (Edit.updateText text).left s

end Session

end StoryScript
