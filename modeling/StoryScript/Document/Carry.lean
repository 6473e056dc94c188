import StoryScript.Document.Reading
import StoryScript.Story.Identity

/-!
# Carrying identities between documents

A document that has been read anew takes over the identities of an earlier one. Knots are paired by
name and occurrence, and the content of each pair is aligned. A knot that was edited or renamed has
its counterpart supplied by the editor.
-/

namespace StoryScript

/-- Knots with the number of earlier knots of the same name. -/
def withOccurrence (seen : List String) : List Knot → List (Knot × Nat)
  | [] => []
  | k :: ks => (k, seen.count k.name) :: withOccurrence (k.name :: seen) ks

/-- A knot with the identities of its counterparts in `reference`. -/
def Knot.carry (k : Knot) (reference : List Item) : Knot :=
  { k with items := (Item.carry k.items reference).1 }

namespace Document

/-- The content that the first knot of a name is aligned with, in place of that of the earlier
document. -/
abbrev Counterpart := Option (String × List Item)

/-- The content that a knot is aligned with. -/
def reference? (old : Document) (counterpart : Counterpart) (name : String) (occurrence : Nat) :
    Option (List Item) :=
  match counterpart.filter fun c => occurrence = 0 && c.1 = name with
  | some (_, items) => some items
  | none =>
    ((withOccurrence [] old.knots).find? fun (k, n) => k.name = name && n = occurrence).map
      fun (k, _) => k.items

/-- A document with the identities of its counterparts in an earlier one. -/
def carry (new old : Document) (counterpart : Counterpart) : Document :=
  { new with
    knots := (withOccurrence [] new.knots).map fun (k, n) =>
      match old.reference? counterpart k.name n with
      | some items => k.carry items
      | none => k }

end Document

end StoryScript
