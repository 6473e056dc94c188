import StoryScript.Number.Binary64

/-!
# The content tree of a knot

The body of a knot is an ordered tree. Most items are leaves; a choice holds the items that are
shown once it is picked, and a conditional holds branches, each with items of its own. Every item
and every branch carries a `Mark`: an identity, by which an editor addresses it, and the lines it
was read from. Marks are annotations: `Item.same` compares two trees without them.

* `Item`, `Branch` — the tree. A conditional holds branches and nothing else, by its type.
* `Item.same` — structural equality; it also passes over a media item's extension, which only
  records how the name was spelt.
-/

namespace StoryScript

/-- An identity: drawn from the document's supply, or given by name from outside. -/
inductive Id where
  | fresh (n : Nat)
  | named (name : String)
  deriving DecidableEq, Repr, Inhabited

/-- First and last line: of a node in a body, counted from the first line of the body, which is line
zero; of a node in a script, counted as the lines of the script are. -/
structure Span where
  first : Nat
  last : Nat
  deriving DecidableEq, Repr, Inhabited

/-- What an item carries besides its content. -/
structure Mark where
  id : Id
  span : Option Span := none
  deriving DecidableEq, Repr, Inhabited

/-- A place in the node graph of an editor. -/
structure Position where
  x : Binary64
  y : Binary64
  deriving DecidableEq, Repr, Inhabited

/-- Coordinates compare as numbers. -/
def Position.equal (p q : Position) : Bool := p.x.equal q.x && p.y.equal q.y

/-- What a media item shows, and on whose side of the conversation. -/
inductive MediaKind where
  | image
  | playerImage
  | video
  | playerVideo
  deriving DecidableEq, Repr

/-- What is done with a story flag. Items set and remove flags; a branch checks one. -/
inductive FlagVerb where
  | set
  | remove
  | check
  deriving DecidableEq, Repr

/-- Why a line is kept as it stands. -/
inductive RawReason where
  | comment
  | unrecognized
  deriving DecidableEq, Repr

/-- An item without items of its own. -/
inductive Leaf where
  | text (content : String)
  | media (kind : MediaKind) (filename extension : String)
  | fakeType (duration : Binary64)
  | wait (duration : Binary64)
  | stitch (name : String)
  | divert (target : String)
  | flagOperation (verb : FlagVerb) (flag : String)
  | sideStory (name : String)
  | transition (title subtitle : String)
  | raw (content : String) (reason : RawReason)
  deriving DecidableEq, Repr

/-- What the reader sees of a choice, and where it leads. A bracketed text is not echoed. -/
structure ChoiceHead where
  text : String
  sticky : Bool := false
  bracketed : Bool := true
  divert : Option String := none
  deriving DecidableEq, Repr, Inhabited

/-- When a branch runs: a story flag is set, some other expression holds, or nothing else did. -/
structure Guard where
  flag : Option String := none
  condition : Option String := none
  isElse : Bool := false
  deriving DecidableEq, Repr, Inhabited

/-- The short text that names a branch. -/
def Guard.label (g : Guard) : String :=
  if g.isElse then "else" else g.flag.getD (g.condition.getD "")

mutual

/-- A node of the content tree. -/
inductive Item where
  | leaf (mark : Mark) (leaf : Leaf)
  | choice (mark : Mark) (head : ChoiceHead) (content : List Item)
  | conditional (mark : Mark) (branches : List Branch)

/-- One branch of a conditional. -/
inductive Branch where
  | mk (mark : Mark) (guard : Guard) (divert : Option String) (content : List Item)

end

instance : Inhabited Item := ⟨.leaf default (.text "")⟩
instance : Inhabited Branch := ⟨.mk default {} none []⟩

namespace Branch

def mark : Branch → Mark
  | mk m _ _ _ => m

def id (b : Branch) : Id := b.mark.id

def guard : Branch → Guard
  | mk _ g _ _ => g

def divert : Branch → Option String
  | mk _ _ d _ => d

def content : Branch → List Item
  | mk _ _ _ c => c

end Branch

namespace Item

def mark : Item → Mark
  | leaf m _ => m
  | choice m _ _ => m
  | conditional m _ => m

def id (i : Item) : Id := i.mark.id

/-- The leaf an item is, if it is one. -/
def leaf? : Item → Option Leaf
  | leaf _ l => some l
  | _ => none

/-- The target of an item that is a divert. -/
def divertTarget? : Item → Option String
  | leaf _ (.divert t) => some t
  | _ => none

/-- The name of an item that is a stitch. -/
def stitchName? : Item → Option String
  | leaf _ (.stitch n) => some n
  | _ => none

def isChoice : Item → Bool
  | choice .. => true
  | _ => false

def isDivert (i : Item) : Bool := i.divertTarget?.isSome

def isStitch (i : Item) : Bool := i.stitchName?.isSome

/-- The same item under another identity. -/
def withId (id : Id) : Item → Item
  | leaf m l => leaf { m with id } l
  | choice m h c => choice { m with id } h c
  | conditional m bs => conditional { m with id } bs

/-- Whether an item is a comment line. -/
def isComment : Item → Bool
  | leaf _ (.raw _ .comment) => true
  | _ => false

end Item

/-! ### Kinds -/

def MediaKind.name : MediaKind → String
  | image => "image"
  | playerImage => "player-image"
  | video => "video"
  | playerVideo => "player-video"

/-- The name of a leaf's kind. -/
def Leaf.kindName : Leaf → String
  | text _ => "text"
  | media kind _ _ => kind.name
  | fakeType _ => "fake-type"
  | wait _ => "wait"
  | stitch _ => "stitch"
  | divert _ => "divert"
  | flagOperation _ _ => "flag-operation"
  | sideStory _ => "side-story"
  | transition _ _ => "transition"
  | raw _ _ => "raw"

/-- The name of an item's kind. -/
def Item.kindName : Item → String
  | leaf _ l => l.kindName
  | choice .. => "choice"
  | conditional .. => "conditional"

/-! ### Structural equality -/

/-- Leaves with the same content; the spelling of a media extension is not content. -/
def Leaf.same : Leaf → Leaf → Bool
  | .text a, .text b => a = b
  | .media k a _, .media l b _ => k = l && a = b
  | .fakeType a, .fakeType b => a.equal b
  | .wait a, .wait b => a.equal b
  | .stitch a, .stitch b => a = b
  | .divert a, .divert b => a = b
  | .flagOperation v a, .flagOperation w b => v = w && a = b
  | .sideStory a, .sideStory b => a = b
  | .transition a c, .transition b d => a = b && c = d
  | .raw a r, .raw b s => a = b && r = s
  | _, _ => false

mutual

/-- Structural equality of items. -/
def Item.same : Item → Item → Bool
  | .leaf _ a, .leaf _ b => a.same b
  | .choice _ h c, .choice _ k d => h = k && Item.sameList c d
  | .conditional _ c, .conditional _ d => Branch.sameList c d
  | _, _ => false

/-- Structural equality of branches. -/
def Branch.same : Branch → Branch → Bool
  | .mk _ g d c, .mk _ h e k => g = h && d = e && Item.sameList c k

/-- Structural equality of item lists. -/
def Item.sameList : List Item → List Item → Bool
  | [], [] => true
  | a :: as, b :: bs => a.same b && Item.sameList as bs
  | _, _ => false

/-- Structural equality of branch lists. -/
def Branch.sameList : List Branch → List Branch → Bool
  | [], [] => true
  | a :: as, b :: bs => a.same b && Branch.sameList as bs
  | _, _ => false

end

end StoryScript
