import StoryScript.Text.Lines

/-!
# Paths

A path is an anchor and the names behind it. Reading a path drops empty names and `.`, and keeps
`..`, because only a file tree knows where `..` leads. A path without names and anchor is written
`.`.
-/

namespace StoryScript

/-- Where a path starts: where one is, at the root, or at the root written with two slashes, which
stays as it is. -/
inductive Anchor where
  | here
  | root
  | doubleRoot
  deriving DecidableEq, Repr, Inhabited

/-- An anchor and the names behind it. -/
structure Path where
  anchor : Anchor := .here
  names : List String := []
  deriving DecidableEq, Repr, Inhabited

namespace Path

/-- The names between slashes, without those that mean nothing. -/
def namesIn (s : String) : List String :=
  ((Text.splitAt '/' s.toList).map String.ofList).filter fun n => n ≠ "" && n ≠ "."

/-- The anchor of a path that starts with so many slashes. -/
def anchorOf : Nat → Anchor
  | 0 => .here
  | 2 => .doubleRoot
  | _ => .root

/-- The path that a text means. -/
def ofString (s : String) : Path := ⟨anchorOf (s.toList.takeWhile (· = '/')).length, namesIn s⟩

protected def toString (p : Path) : String :=
  match p.anchor with
  | .here => if p.names.isEmpty then "." else "/".intercalate p.names
  | .root => "/" ++ "/".intercalate p.names
  | .doubleRoot => "//" ++ "/".intercalate p.names

instance : ToString Path := ⟨Path.toString⟩

/-- A path that starts where another one leads, unless it has an anchor of its own. -/
def join (p q : Path) : Path := if q.anchor = .here then ⟨p.anchor, p.names ++ q.names⟩ else q

/-- The path of an entry of a directory. -/
def entry (p : Path) (name : String) : Path := ⟨p.anchor, p.names ++ [name]⟩

/-- The last name, empty if there is none. -/
def name (p : Path) : String := p.names.getLastD ""

/-- The path without its last name. -/
def parent (p : Path) : Path := ⟨p.anchor, p.names.dropLast⟩

/-- The path itself, its parent, and so on up to the last one that says where it is: what lies above
a `..` in front is not known. -/
def ancestors (p : Path) : List Path :=
  let unknown := (p.names.takeWhile (· = "..")).length
  (List.range (p.names.length + 1 - unknown)).map fun n =>
    ⟨p.anchor, p.names.take (p.names.length - n)⟩

/-- The last name from its last dot on. It is empty if the dot is the first or the last character
or if there is none. -/
def suffix (p : Path) : String :=
  let behind := p.name.toList.reverse.takeWhile (· ≠ '.')
  if behind.isEmpty || p.name.length ≤ behind.length + 1 then ""
  else String.ofList ('.' :: behind.reverse)

/-- Whether a name has the character NUL in it, which no file system takes. -/
def hasNull (p : Path) : Bool := p.names.any (·.toList.contains (Char.ofNat 0))

/-- One step up; above the root there is the root, and above where one is there is `..`. -/
def up (p : Path) : Path :=
  match p.names.getLast? with
  | none => if p.anchor = .here then ⟨.here, [".."]⟩ else p
  | some n => if n = ".." then p.entry ".." else p.parent

/-- The path with every `..` taken as one step up. -/
def normal (p : Path) : Path :=
  p.names.foldl (fun q n => if n = ".." then q.up else q.entry n) ⟨p.anchor, []⟩

end Path

end StoryScript
