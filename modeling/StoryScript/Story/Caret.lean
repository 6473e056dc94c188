import StoryScript.Story.Edit

/-!
# Moving a caret

How a caret moves through a content tree. A move that is not possible leaves the caret where it is;
a move in a container that does not exist is refused.
-/

namespace StoryScript.Caret

/-- Behind the last item of the root list. -/
def atEnd (items : List Item) : Caret := ⟨none, items.length - 1⟩

/-- Right behind an item. -/
def behind? (items : List Item) (id : Id) : Option Caret :=
  (Item.locate? items id).map fun l => ⟨l.parent, l.index⟩

/-- One item up. -/
def up (c : Caret) : Caret := if -1 < c.after then { c with after := c.after - 1 } else c

/-- One item down. -/
def down (items : List Item) (c : Caret) : Except EditError Caret := do
  let level ← Item.level items c.parent
  return if c.after < level.length - 1 then { c with after := c.after + 1 } else c

/-- The item in front of a caret. -/
def before? (items : List Item) (c : Caret) : Except EditError (Option Item) := do
  let level ← Item.level items c.parent
  return if 0 ≤ c.after then level[c.after.toNat]? else none

/-- Into the choice in front of the caret, behind everything in it. -/
def into (items : List Item) (c : Caret) : Except EditError Caret := do
  match ← before? items c with
  | some (.choice m _ content) => return ⟨some m.id, content.length - 1⟩
  | _ => return c

/-- Out of the container, to right behind it. -/
def out (items : List Item) (c : Caret) : Caret :=
  match c.parent.bind (Item.locateContainer? items) with
  | some l => ⟨l.parent, l.index⟩
  | none => c

end StoryScript.Caret
