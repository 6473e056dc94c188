import StoryScript.Story.Node
import StoryScript.Story.Alignment

/-!
# Carrying identities

A tree that has been read anew has new identities. `Item.carry` gives each of its nodes the identity
of its counterpart in an earlier tree, so that what an editor has selected stays selected. The nodes
of both trees are aligned in document order by their keys; nodes that agree are counterparts, and so
are nodes of one kind at the same place of a replaced range.
-/

namespace StoryScript

/-- What an aligned node is recognised by, apart from its kind. -/
inductive KeyValue where
  | none
  | text (value : String)
  | number (value : Binary64)
  deriving DecidableEq, Repr

/-- The kind of a node and the most telling part of its content. -/
structure NodeKey where
  kind : String
  value : KeyValue
  deriving Repr

/-- Values agree as texts and as numbers. -/
def KeyValue.agree : KeyValue → KeyValue → Bool
  | .none, .none => true
  | .text a, .text b => a = b
  | .number a, .number b => a.equal b
  | _, _ => false

instance : BEq NodeKey := ⟨fun a b => a.kind = b.kind && a.value.agree b.value⟩

def Leaf.keyValue : Leaf → KeyValue
  | text content => .text content
  | media _ filename _ => .text filename
  | fakeType d => .number d
  | wait d => .number d
  | stitch name => .text name
  | divert target => .text target
  | flagOperation _ flag => .text flag
  | sideStory name => .text name
  | transition title _ => .text title
  | raw content _ => .text content

namespace Node

def kindName : Node → String
  | item i => i.kindName
  | branch _ => "branch"

/-- What a node is recognised by. -/
def key : Node → NodeKey
  | item (.leaf _ l) => ⟨l.kindName, l.keyValue⟩
  | item (.choice _ h _) => ⟨"choice", .text h.text⟩
  | item (.conditional _ _) => ⟨"conditional", .none⟩
  | branch b => ⟨"branch", .text b.guard.label⟩

end Node

/-- The identities for a replaced range: nodes of one kind at the same place share one. -/
def carryReplaced : List Node → List Node → List Id
  | o :: olds, n :: news =>
    (if o.kindName = n.kindName then o.id else n.id) :: carryReplaced olds news
  | _, news => news.map Node.id

/-- A range of a list. -/
def slice (xs : List α) (first last : Nat) : List α := (xs.take last).drop first

/-- The identities that one step of the alignment gives to its range of new nodes. -/
def carryStep (olds news : List Node) (s : EditStep) : List Id :=
  let old := slice olds s.oldFrom s.oldTo
  let new := slice news s.newFrom s.newTo
  match s.kind with
  | .equal => old.map Node.id
  | .replace => carryReplaced old new
  | .insert => new.map Node.id
  | .delete => []

/-- The identities of the new nodes, in order, after carrying. -/
def carriedIds (olds news : List Node) : List Id :=
  (Alignment.edits (olds.map Node.key) (news.map Node.key)).flatMap (carryStep olds news)

/-- The identities that change, each with the one that takes its place. -/
def changedIds (before after : List Id) : List (Id × Id) :=
  (before.zip after).filter fun (a, b) => a ≠ b

/-- A tree with the identities of its counterparts in `reference`, and the identities that changed
by it. -/
def Item.carry (items reference : List Item) : List Item × List (Id × Id) :=
  let news := Item.nodesIn items
  let ids := carriedIds (Item.nodesIn reference) news
  ((Item.relabelIn items ids).1, changedIds (news.map Node.id) ids)

end StoryScript
