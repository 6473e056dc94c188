import StoryScript.Files.Fault
import StoryScript.Files.Path
import StoryScript.Text.Lines

/-!
# File trees

The files below a directory, each with its content. A directory exists if a file is below it; the
directories above the tree exist too, but nothing is known of what else they hold.

* `FileTree.locate?` — where a path leads, if it leads to a file or a directory;
* `FileTree.read?`, `FileTree.write`, `FileTree.list?` — contents and listings;
* `decodeText` — the text that bytes stand for.
-/

namespace StoryScript

/-- The files below a directory: the names that lead to each, and its content. -/
structure FileTree where
  files : List (List String × ByteArray) := []
  deriving Inhabited

namespace FileTree

/-- The content of the file at a place, a path without `..` inside. -/
def content? (t : FileTree) (place : Path) : Option ByteArray :=
  if place.anchor = .here then t.files.lookup place.names else none

/-- Whether there is a directory at a place. -/
def hasDirectory (t : FileTree) (place : Path) : Bool :=
  place.names.all (· = "..") ||
    place.anchor = .here && t.files.any fun (names, _) =>
      place.names.length < names.length && place.names.isPrefixOf names

/-- Whether there is a file or a directory at a place. -/
def has (t : FileTree) (place : Path) : Bool := (t.content? place).isSome || t.hasDirectory place

/-- One step from a place that has to be a directory. -/
def step? (t : FileTree) (place : Path) (name : String) : Option Path :=
  let next := if name = ".." then place.up else place.entry name
  if t.hasDirectory place && t.has next then some next else none

/-- The place that a path leads to. -/
def locate? (t : FileTree) (p : Path) : Option Path := p.names.foldlM t.step? ⟨p.anchor, []⟩

def isFile (t : FileTree) (p : Path) : Bool :=
  match t.locate? p with
  | some place => (t.content? place).isSome
  | none => false

def isDirectory (t : FileTree) (p : Path) : Bool :=
  match t.locate? p with
  | some place => t.hasDirectory place
  | none => false

/-- How many bytes a name can have at most. -/
def maxNameBytes : Nat := 255

/-- How many bytes a path can have at most. -/
def maxPathBytes : Nat := 4095

/-- Whether looking for a path breaks off: the path is too long, or a name in it that stands in a
directory is. -/
def breaksOff (t : FileTree) (p : Path) : Bool :=
  maxPathBytes < (toString p).utf8ByteSize ||
    match p.names.findIdx? fun name => maxNameBytes < name.utf8ByteSize with
    | some i => t.isDirectory ⟨p.anchor, p.names.take i⟩
    | none => false

/-- The content of the file that a path leads to. -/
def read? (t : FileTree) (p : Path) : Option ByteArray := (t.locate? p).bind t.content?

/-- Give the file that a path leads to another content. -/
def write (t : FileTree) (p : Path) (content : ByteArray) : FileTree :=
  match t.locate? p with
  | some place =>
    ⟨t.files.map fun (names, old) => (names, if names = place.names then content else old)⟩
  | none => t

/-- The names of the files in a directory, sorted. -/
def list? (t : FileTree) (p : Path) : Option (List String) :=
  match t.locate? p with
  | none => none
  | some place =>
    if t.hasDirectory place then
      let names := t.files.filterMap fun (names, _) =>
        if names.dropLast = place.names && place.anchor = .here then names.getLast? else none
      some (names.mergeSort fun a b => !decide (b < a))
    else none

/-- The files of `new` that differ from those of `old`. -/
def changes (old new : FileTree) : List (List String × ByteArray) :=
  new.files.filter fun (names, content) => old.files.lookup names != some content

end FileTree

/-- The text that bytes stand for, with every line break turned into a line feed. -/
def decodeText (bytes : ByteArray) : Except Fault String :=
  match String.fromUTF8? bytes with
  | some text => .ok (Text.withLineFeeds text)
  | none =>
    .error (.undecodable ((Text.decodingError? (bytes.toList.map UInt8.toNat)).getD default))

end StoryScript
