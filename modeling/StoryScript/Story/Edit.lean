import StoryScript.Story.Node
import StoryScript.Story.EditError

/-!
# Editing a content tree

Pure edits: each takes a tree and gives a new one, or says why it cannot. Containers are the root of
the knot, the choices and the branches; a place in one of them is a `Caret`. Items keep their
identities, and only what an edit brings in is new.

* `Item.locate?` — where an item is.
* `Item.editChildren` — apply a change to the list of one container.
* `Item.insert`, `Item.delete`, `Item.replace`, `Item.move` — the edits.
-/

namespace StoryScript

/-- An insertion point: behind the item at place `after` in the list of a container, or in front of
all of them for `-1`. The root list has no parent. -/
structure Caret where
  parent : Option Id := none
  after : Int := -1
  deriving DecidableEq, Repr, Inhabited

/-- Where an item is: its container, its place there and its depth. -/
structure Location where
  item : Item
  parent : Option Id
  index : Nat
  depth : Nat

mutual

/-- The locations in an item, its own first. -/
def Item.locations (parent : Option Id) (index depth : Nat) : Item → List Location
  | .leaf m l => [⟨.leaf m l, parent, index, depth⟩]
  | .choice m h c =>
    ⟨.choice m h c, parent, index, depth⟩ :: Item.locationsIn (some m.id) 0 (depth + 1) c
  | .conditional m bs =>
    ⟨.conditional m bs, parent, index, depth⟩ :: Branch.locationsIn (depth + 1) bs

/-- The locations in a branch. -/
def Branch.locations (depth : Nat) : Branch → List Location
  | .mk m _ _ c => Item.locationsIn (some m.id) 0 depth c

/-- The locations in the list of a container from a place on. -/
def Item.locationsIn (parent : Option Id) (index depth : Nat) : List Item → List Location
  | [] => []
  | i :: is => i.locations parent index depth ++ Item.locationsIn parent (index + 1) depth is

/-- The locations in the branches of a conditional. -/
def Branch.locationsIn (depth : Nat) : List Branch → List Location
  | [] => []
  | b :: bs => b.locations depth ++ Branch.locationsIn depth bs

end

/-- The branches of an item that is a conditional. -/
def Item.branches : Item → List Branch
  | .conditional _ bs => bs
  | _ => []

namespace Item

/-- All locations of a tree in document order. -/
def walk (items : List Item) : List Location := locationsIn none 0 0 items

/-- Where the first item with an identity is. -/
def locate? (items : List Item) (id : Id) : Option Location :=
  (walk items).find? (·.item.id = id)

/-- Where the item is that has an identity, or a branch with it. -/
def locateContainer? (items : List Item) (id : Id) : Option Location :=
  (walk items).find? fun l => l.item.id = id || l.item.branches.any (·.id = id)

/-- The list of the container with an identity: a choice or a branch. An item of another kind with
that identity in front of it hides it. -/
def contentOf? (items : List Item) (id : Id) : Option (List Item) :=
  ((walk items).findSome? fun l =>
    if l.item.id = id then
      match l.item with
      | .choice _ _ content => some (some content)
      | _ => some none
    else (l.item.branches.find? (·.id = id)).map fun b => some b.content).join

/-- Why a container cannot be found. -/
def containerError (items : List Item) (id : Id) : EditError :=
  if (locate? items id).isNone then .itemNotFound id else .notAContainer id

/-- The list that a container holds. -/
def level (items : List Item) : Option Id → Except EditError (List Item)
  | none => .ok items
  | some id =>
    match contentOf? items id with
    | some content => .ok content
    | none => .error (containerError items id)

/-- One row of a tree shown as an outline. -/
structure Row where
  item : Item
  depth : Nat
  parent : Option Id
  index : Nat
  isLast : Bool

mutual

/-- The rows of an item: itself and what a choice holds. A conditional is a single row. -/
def rows (parent : Option Id) (index depth : Nat) (isLast : Bool) : Item → List Row
  | .choice m h c =>
    ⟨.choice m h c, depth, parent, index, isLast⟩ :: rowsIn (some m.id) 0 (depth + 1) c
  | .leaf m l => [⟨.leaf m l, depth, parent, index, isLast⟩]
  | .conditional m bs => [⟨.conditional m bs, depth, parent, index, isLast⟩]

/-- The rows of a list of items. -/
def rowsIn (parent : Option Id) (index depth : Nat) : List Item → List Row
  | [] => []
  | i :: is => i.rows parent index depth is.isEmpty ++ rowsIn parent (index + 1) depth is

end

/-- The rows of a tree. -/
def flatten (items : List Item) : List Row := rowsIn none 0 0 items

end Item

/-! ### Changing the list of one container -/

/-- A change of one list of items, which may be refused. -/
abbrev ListEdit := List Item → Except EditError (List Item)

mutual

/-- The item after a change to the list of the container with an identity, if it is in there. -/
def Item.edit? (id : Id) (f : ListEdit) : Item → Option (Except EditError Item)
  | .leaf _ _ => none
  | .choice m h c =>
    if m.id = id then some ((f c).map (.choice m h))
    else (Item.editIn? id f c).map (·.map (.choice m h))
  | .conditional m bs => (Branch.editIn? id f bs).map (·.map (.conditional m))

/-- The branch after a change to the list of the container with an identity. -/
def Branch.edit? (id : Id) (f : ListEdit) : Branch → Option (Except EditError Branch)
  | .mk m g d c =>
    if m.id = id then some ((f c).map (.mk m g d))
    else (Item.editIn? id f c).map (·.map (.mk m g d))

/-- The first item that holds the container, changed. -/
def Item.editIn? (id : Id) (f : ListEdit) : List Item → Option (Except EditError (List Item))
  | [] => none
  | i :: is =>
    match i.edit? id f with
    | some r => some (r.map (· :: is))
    | none => (Item.editIn? id f is).map (·.map (i :: ·))

/-- The first branch that holds the container, changed. -/
def Branch.editIn? (id : Id) (f : ListEdit) : List Branch → Option (Except EditError (List Branch))
  | [] => none
  | b :: bs =>
    match b.edit? id f with
    | some r => some (r.map (· :: bs))
    | none => (Branch.editIn? id f bs).map (·.map (b :: ·))

end

namespace Item

/-- The tree after a change to the list of one container. -/
def editChildren (items : List Item) (parent : Option Id) (f : ListEdit) :
    Except EditError (List Item) :=
  match parent with
  | none => f items
  | some id =>
    match editIn? id f items with
    | some result => result
    | none => .error (containerError items id)

/-! ### The edits -/

/-- Refuse a stitch inside a container. -/
def checkPlacement (item : Item) (parent : Option Id) : Except EditError Unit :=
  match item.stitchName?, parent with
  | some name, some _ => .error (.stitchBelowRoot name)
  | _, _ => .ok ()

/-- Put an item behind the place `after` of a list. -/
def insertAfter (item : Item) (after : Int) : ListEdit := fun level =>
  if 0 ≤ after + 1 && after + 1 ≤ level.length then
    .ok (level.take (after + 1).toNat ++ item :: level.drop (after + 1).toNat)
  else .error (.outOfRange after level.length)

/-- Insert an item at a caret. -/
def insert (items : List Item) (item : Item) (caret : Caret) : Except EditError (List Item) := do
  checkPlacement item caret.parent
  editChildren items caret.parent (insertAfter item caret.after)

/-- Remove an item and everything in it. -/
def delete (items : List Item) (id : Id) : Except EditError (List Item) :=
  match locate? items id with
  | none => .error (.itemNotFound id)
  | some found => editChildren items found.parent fun level => .ok (level.eraseIdx found.index)

/-- Put another item in the place of one; it takes over the identity. -/
def replace (items : List Item) (id : Id) (item : Item) : Except EditError (List Item) :=
  match locate? items id with
  | none => .error (.itemNotFound id)
  | some found => do
    checkPlacement item found.parent
    editChildren items found.parent fun level =>
      .ok (level.take found.index ++ item.withId id :: level.drop (found.index + 1))

/-- Move an item with everything in it to a caret, which is meant in the tree without the item. -/
def move (items : List Item) (id : Id) (caret : Caret) : Except EditError (List Item) :=
  match locate? items id with
  | none => .error (.itemNotFound id)
  | some found =>
    if caret.parent.any fun parent => (idsIn [found.item]).contains parent then
      .error .moveIntoItself
    else do
      let rest ← delete items id
      insert rest found.item caret

end Item

end StoryScript
