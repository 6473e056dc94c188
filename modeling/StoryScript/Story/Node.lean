import StoryScript.Story.Item

/-!
# The nodes of a content tree

The nodes of a tree are its items and the branches of its conditionals, in document order: a node
comes before everything inside it. `Item.nodesIn` lists them all, `Item.itemsIn` the items alone,
and `Item.relabelIn` gives the nodes new identities in the same order.
-/

namespace StoryScript

/-- An item or a branch. -/
inductive Node where
  | item (item : Item)
  | branch (branch : Branch)
  deriving Inhabited

namespace Node

def mark : Node → Mark
  | item i => i.mark
  | branch b => b.mark

def id (n : Node) : Id := n.mark.id

def item? : Node → Option Item
  | item i => some i
  | branch _ => none

end Node

mutual

/-- The nodes of an item, itself first. -/
def Item.nodes : Item → List Node
  | .leaf m l => [.item (.leaf m l)]
  | .choice m h c => .item (.choice m h c) :: Item.nodesIn c
  | .conditional m bs => .item (.conditional m bs) :: Branch.nodesIn bs

/-- The nodes of a branch, itself first. -/
def Branch.nodes : Branch → List Node
  | .mk m g d c => .branch (.mk m g d c) :: Item.nodesIn c

/-- The nodes of a list of items. -/
def Item.nodesIn : List Item → List Node
  | [] => []
  | i :: is => i.nodes ++ Item.nodesIn is

/-- The nodes of a list of branches. -/
def Branch.nodesIn : List Branch → List Node
  | [] => []
  | b :: bs => b.nodes ++ Branch.nodesIn bs

end

/-- The items of a list at any depth, in document order. -/
def Item.itemsIn (items : List Item) : List Item := (Item.nodesIn items).filterMap Node.item?

/-- The identities of all nodes, in document order. -/
def Item.idsIn (items : List Item) : List Id := (Item.nodesIn items).map Node.id

/-- The first item with an identity. -/
def Item.find? (items : List Item) (id : Id) : Option Item :=
  (Item.itemsIn items).find? (·.id = id)

/-! ### New identities -/

/-- The next identity of a list, if there is one, and the rest. -/
def takeId (m : Mark) : List Id → Mark × List Id
  | [] => (m, [])
  | id :: ids => ({ m with id }, ids)

mutual

/-- The item with identities taken from a list, one for each node in document order, and the
identities that are left. -/
def Item.relabel : Item → List Id → Item × List Id
  | .leaf m l, ids =>
    let (m, ids) := takeId m ids
    (.leaf m l, ids)
  | .choice m h c, ids =>
    let (m, ids) := takeId m ids
    let (c, ids) := Item.relabelIn c ids
    (.choice m h c, ids)
  | .conditional m bs, ids =>
    let (m, ids) := takeId m ids
    let (bs, ids) := Branch.relabelIn bs ids
    (.conditional m bs, ids)

def Branch.relabel : Branch → List Id → Branch × List Id
  | .mk m g d c, ids =>
    let (m, ids) := takeId m ids
    let (c, ids) := Item.relabelIn c ids
    (.mk m g d c, ids)

def Item.relabelIn : List Item → List Id → List Item × List Id
  | [], ids => ([], ids)
  | i :: is, ids =>
    let (i, ids) := i.relabel ids
    let (is, ids) := Item.relabelIn is ids
    (i :: is, ids)

def Branch.relabelIn : List Branch → List Id → List Branch × List Id
  | [], ids => ([], ids)
  | b :: bs, ids =>
    let (b, ids) := b.relabel ids
    let (bs, ids) := Branch.relabelIn bs ids
    (b :: bs, ids)

end

end StoryScript
