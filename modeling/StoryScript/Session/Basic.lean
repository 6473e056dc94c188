import StoryScript.Document.Carry
import StoryScript.Files.Path
import StoryScript.Story.EditError

/-!
# Editing sessions

A session holds exactly one snapshot of a script at a time, the snapshots before and behind it in
its history, and the text that was saved last. An edit makes a new snapshot: it changes the lines of
the script, reads them anew and carries the identities over. Editing works on the session in place
(`Edit`), so an edit that is refused leaves a session, too.

* `Edit.outcome`, `Edit.left` — the session that an edit leads to, and the one that it leaves;
* `Session.commit` — a new snapshot; what was undone is forgotten, and so is the oldest snapshot
  when there are more than the history may hold.
* `Session.undo?`, `Session.redo?` — one step through the history.
* `Session.save` — which file to write, and its text.
-/

namespace StoryScript

/-- An editing session over one script. -/
structure Session where
  document : Document
  /-- Earlier snapshots, the latest first. -/
  past : List Document := []
  /-- Snapshots that were undone, the next one first. -/
  future : List Document := []
  savedText : String
  path : Option Path := none
  indent : Nat := 4
  historyLimit : Nat := 200
  /-- Where unused identities begin. -/
  supply : Nat

namespace Session

/-- A session over a text. -/
def start (supply : Nat) (text : String) (path : Option Path) (indent historyLimit : Nat) :
    Session :=
  let (document, supply) := Document.read supply text
  { document, savedText := document.text, path, indent, historyLimit, supply }

/-- A session over the script in a file. -/
def openFile (supply : Nat) (read? : Path → Option String) (path : Path)
    (indent historyLimit : Nat) : Except EditError Session :=
  match read? path with
  | some text => .ok (start supply text (some path) indent historyLimit)
  | none => .error (.fileNotFound path)

/-- Whether the script differs from what was saved last. -/
def isDirty (s : Session) : Bool := s.document.text ≠ s.savedText

/-! ### History -/

/-- Earlier snapshots without the oldest, if there are more than `limit`. -/
def trimHistory (limit : Nat) (past : List Document) : List Document :=
  if limit < past.length then past.dropLast else past

/-- Make a document the new snapshot. -/
def commit (s : Session) (document : Document) : Session :=
  { s with document, past := trimHistory s.historyLimit (s.document :: s.past), future := [] }

/-- Go back to the snapshot before. -/
def undo? (s : Session) : Option Session :=
  match s.past with
  | [] => none
  | d :: past => some { s with document := d, past, future := s.document :: s.future }

/-- Go forward to the snapshot that was undone last. -/
def redo? (s : Session) : Option Session :=
  match s.future with
  | [] => none
  | d :: future => some { s with document := d, past := s.document :: s.past, future }

/-! ### Reading changed text -/

/-- The document of a text, with the identities of the present snapshot carried over, and the
session with what is left of its supply. -/
def read (s : Session) (text : String) (counterpart : Document.Counterpart) : Document × Session :=
  let (d, supply) := Document.read s.supply text
  (d.carry s.document counterpart, { s with supply })

/-- The first knot of a name. -/
def knot (s : Session) (name : String) : Except EditError Knot :=
  match s.document.findKnot? name with
  | some k => .ok k
  | none => .error (.knotNotFound name)

/-- The items of one kind in the visible knots, each with the name of its knot. -/
def findItems (s : Session) (kind : String) : List (String × Item) :=
  s.document.visibleKnots.flatMap fun k =>
    ((Item.itemsIn k.items).filter (·.kindName = kind)).map (k.name, ·)

end Session

/-! ### Editing in place -/

/-- Editing under way. What has been made of the session is there also behind a refusal. -/
abbrev Edit (α : Type) : Type := ExceptT EditError (StateM Session) α

namespace Edit

variable {α : Type}

/-- What comes of an edit, and the session that it leaves. -/
def on (e : Edit α) (s : Session) : Except EditError α × Session := StateT.run (ExceptT.run e) s

/-- The session that an edit leaves, whether or not it is refused. -/
def left (e : Edit α) (s : Session) : Session := (e.on s).2

/-- The session that an edit leads to, unless it is refused. -/
def outcome (e : Edit α) (s : Session) : Except EditError Session :=
  (e.on s).1.map fun _ => e.left s

/-- Read a changed text. It begins to draw identities behind `drawn` others. -/
def reread (drawn : Nat) (text : String) (counterpart : Document.Counterpart) :
    Edit (Document × Nat) := do
  let s ← get
  let (d, rest) := { s with supply := s.supply + drawn }.read text counterpart
  return (d, rest.supply)

/-- Make a document that was read the new snapshot; `supply` is where the identities begin that are
unused behind it. -/
def commit (d : Document) (supply : Nat) : Edit Unit :=
  modify fun s => { s with supply }.commit d

/-- Make a changed text the new snapshot. -/
def commitText (text : String) (counterpart : Document.Counterpart) : Edit Unit := do
  let (d, supply) ← reread 0 text counterpart
  commit d supply

/-- The file to write and its text; from then on the script belongs to that file. -/
def save (path : Option Path) : Edit (Path × String) := do
  let s ← get
  match path.orElse fun _ => s.path with
  | none => throw .noPath
  | some target =>
    set { s with path := some target, savedText := s.document.text }
    return (target, s.document.text)

end Edit

/-- The session whose script has been given to a file, with the file and the text to write. -/
def Session.save (s : Session) (path : Option Path) : Except EditError (Session × Path × String) :=
  ((Edit.save path).on s).1.map ((Edit.save path).left s, ·)

end StoryScript
