import StoryScript.Document.Knot
import StoryScript.Proofs.Story.Edit

/-!
# Trees in other words

A `Rewording` says what becomes of the targets of diverts and of the lines that are kept as they stand.
`Item.rewordIn` does this throughout a tree and changes nothing else: nodes, marks and kinds stay, so a
reworded tree has the same identities (`Item.idsIn_rewordIn`), the same diverts in the same order, each
with its new target (`Item.divertRefsIn_rewordIn`).
-/

namespace StoryScript

/-- What becomes of the targets of diverts and of the lines that are kept as they stand. -/
structure Rewording where
  target : String → String
  raw : String → String

/-- New targets, and every line as it was. -/
def Rewording.ofTarget (target : String → String) : Rewording := ⟨target, id⟩

variable (w : Rewording)

def Leaf.reword : Leaf → Leaf
  | divert t => divert (w.target t)
  | raw content reason => raw (w.raw content) reason
  | l => l

def ChoiceHead.reword (h : ChoiceHead) : ChoiceHead := { h with divert := h.divert.map w.target }

mutual

/-- An item in other words. -/
def Item.reword (w : Rewording) : Item → Item
  | .leaf m l => .leaf m (l.reword w)
  | .choice m h c => .choice m (h.reword w) (Item.rewordIn w c)
  | .conditional m bs => .conditional m (Branch.rewordIn w bs)

/-- A branch in other words. -/
def Branch.reword (w : Rewording) : Branch → Branch
  | .mk m g d c => .mk m g (d.map w.target) (Item.rewordIn w c)

/-- A list of items in other words. -/
def Item.rewordIn (w : Rewording) : List Item → List Item
  | [] => []
  | i :: is => i.reword w :: Item.rewordIn w is

/-- A list of branches in other words. -/
def Branch.rewordIn (w : Rewording) : List Branch → List Branch
  | [] => []
  | b :: bs => b.reword w :: Branch.rewordIn w bs

end

theorem Item.rewordIn_eq_map (is : List Item) : Item.rewordIn w is = is.map (Item.reword w) := by
  induction is with
  | nil => rfl
  | cons i is ih => rw [Item.rewordIn, ih, List.map_cons]

theorem Branch.rewordIn_eq_map (bs : List Branch) :
    Branch.rewordIn w bs = bs.map (Branch.reword w) := by
  induction bs with
  | nil => rfl
  | cons b bs ih => rw [Branch.rewordIn, ih, List.map_cons]

@[simp] theorem Item.rewordIn_reverse (is : List Item) :
    Item.rewordIn w is.reverse = (Item.rewordIn w is).reverse := by
  rw [Item.rewordIn_eq_map, Item.rewordIn_eq_map, List.map_reverse]

@[simp] theorem Branch.rewordIn_reverse (bs : List Branch) :
    Branch.rewordIn w bs.reverse = (Branch.rewordIn w bs).reverse := by
  rw [Branch.rewordIn_eq_map, Branch.rewordIn_eq_map, List.map_reverse]

/-! ### What stays -/

@[simp] theorem Leaf.kindName_reword (l : Leaf) : (l.reword w).kindName = l.kindName := by
  cases l <;> rfl

@[simp] theorem Item.mark_reword (i : Item) : (i.reword w).mark = i.mark := by
  cases i <;> rfl

@[simp] theorem Item.kindName_reword (i : Item) : (i.reword w).kindName = i.kindName := by
  cases i with
  | leaf m l => exact l.kindName_reword w
  | choice m h c => rfl
  | conditional m bs => rfl

@[simp] theorem Item.stitchName?_reword (i : Item) : (i.reword w).stitchName? = i.stitchName? := by
  cases i with
  | leaf m l => cases l <;> rfl
  | choice m h c => rfl
  | conditional m bs => rfl

/-- The stitches of a knot are those of its tree in other words. -/
theorem Item.filterMap_stitchName?_rewordIn (is : List Item) :
    (Item.rewordIn w is).filterMap Item.stitchName? = is.filterMap Item.stitchName? := by
  rw [Item.rewordIn_eq_map, List.filterMap_map]
  exact List.filterMap_congr fun i _ => i.stitchName?_reword w

mutual

theorem Item.unlabelled_reword : ∀ i : Item, (i.reword w).unlabelled = i.unlabelled.reword w
  | .leaf _ _ => rfl
  | .choice _ _ c => by
    simp only [Item.reword, Item.unlabelled, Item.unlabelledIn_rewordIn c]
  | .conditional _ bs => by
    simp only [Item.reword, Item.unlabelled, Branch.unlabelledIn_rewordIn bs]

theorem Branch.unlabelled_reword : ∀ b : Branch, (b.reword w).unlabelled = b.unlabelled.reword w
  | .mk _ _ _ c => by simp only [Branch.reword, Branch.unlabelled, Item.unlabelledIn_rewordIn c]

/-- Other words and no identities do not interfere. -/
theorem Item.unlabelledIn_rewordIn : ∀ is : List Item,
    Item.unlabelledIn (Item.rewordIn w is) = Item.rewordIn w (Item.unlabelledIn is)
  | [] => rfl
  | i :: is => by
    simp only [Item.rewordIn, Item.unlabelledIn, Item.unlabelled_reword i, Item.unlabelledIn_rewordIn is]

theorem Branch.unlabelledIn_rewordIn : ∀ bs : List Branch,
    Branch.unlabelledIn (Branch.rewordIn w bs) = Branch.rewordIn w (Branch.unlabelledIn bs)
  | [] => rfl
  | b :: bs => by
    simp only [Branch.rewordIn, Branch.unlabelledIn, Branch.unlabelled_reword b,
      Branch.unlabelledIn_rewordIn bs]

end

/-! ### Nodes -/

def Node.reword : Node → Node
  | .item i => .item (i.reword w)
  | .branch b => .branch (b.reword w)

@[simp] theorem Node.id_reword (n : Node) : (n.reword w).id = n.id := by
  cases n with
  | item i => exact congrArg Mark.id (i.mark_reword w)
  | branch b => cases b; rfl

@[simp] theorem Node.kindName_reword (n : Node) : (n.reword w).kindName = n.kindName := by
  cases n with
  | item i => exact i.kindName_reword w
  | branch b => rfl

mutual

theorem Item.nodes_reword : ∀ i : Item, (i.reword w).nodes = i.nodes.map (Node.reword w)
  | .leaf _ _ => rfl
  | .choice _ _ c => by
    simp only [Item.reword, Item.nodes, Item.nodesIn_rewordIn c, List.map_cons, Node.reword]
  | .conditional _ bs => by
    simp only [Item.reword, Item.nodes, Branch.nodesIn_rewordIn bs, List.map_cons, Node.reword]

theorem Branch.nodes_reword : ∀ b : Branch, (b.reword w).nodes = b.nodes.map (Node.reword w)
  | .mk _ _ _ c => by
    simp only [Branch.reword, Branch.nodes, Item.nodesIn_rewordIn c, List.map_cons, Node.reword]

/-- The nodes of a tree in other words, in the same order. -/
theorem Item.nodesIn_rewordIn : ∀ is : List Item,
    Item.nodesIn (Item.rewordIn w is) = (Item.nodesIn is).map (Node.reword w)
  | [] => rfl
  | i :: is => by
    simp only [Item.rewordIn, Item.nodesIn, Item.nodes_reword i, Item.nodesIn_rewordIn is, List.map_append]

theorem Branch.nodesIn_rewordIn : ∀ bs : List Branch,
    Branch.nodesIn (Branch.rewordIn w bs) = (Branch.nodesIn bs).map (Node.reword w)
  | [] => rfl
  | b :: bs => by
    simp only [Branch.rewordIn, Branch.nodesIn, Branch.nodes_reword b, Branch.nodesIn_rewordIn bs,
      List.map_append]

end

theorem Item.idsIn_rewordIn (is : List Item) : Item.idsIn (Item.rewordIn w is) = Item.idsIn is := by
  rw [Item.idsIn, Item.nodesIn_rewordIn, List.map_map, Item.idsIn]
  exact List.map_congr_left fun n _ => n.id_reword w

/-! ### Diverts -/

/-- A divert that leads elsewhere. -/
def DivertRef.reword (r : DivertRef) : DivertRef := { r with target := w.target r.target }

mutual

theorem Item.divertRefs_reword (lineStart : Nat) (context : DivertContext) : ∀ i : Item,
    (i.reword w).divertRefs lineStart context =
      (i.divertRefs lineStart context).map (DivertRef.reword w)
  | .leaf m l => by cases l <;> rfl
  | .choice m h c => by
    simp only [Item.reword, Item.divertRefs, Item.divertRefsIn_rewordIn lineStart _ c, ChoiceHead.reword,
      List.map_append]
    cases h.divert <;> rfl
  | .conditional m bs => by
    simp only [Item.reword, Item.divertRefs, Branch.divertRefsIn_rewordIn lineStart bs]

theorem Branch.divertRefs_reword (lineStart : Nat) : ∀ b : Branch,
    (b.reword w).divertRefs lineStart = (b.divertRefs lineStart).map (DivertRef.reword w)
  | .mk m g d c => by
    simp only [Branch.reword, Branch.divertRefs, Item.divertRefsIn_rewordIn lineStart _ c,
      List.map_append]
    cases d <;> rfl

/-- The diverts of a tree in other words lead elsewhere; their order, their lines and what they hang on
stay. -/
theorem Item.divertRefsIn_rewordIn (lineStart : Nat) (context : DivertContext) : ∀ is : List Item,
    Item.divertRefsIn lineStart context (Item.rewordIn w is) =
      (Item.divertRefsIn lineStart context is).map (DivertRef.reword w)
  | [] => rfl
  | i :: is => by
    simp only [Item.rewordIn, Item.divertRefsIn, Item.divertRefs_reword lineStart context i,
      Item.divertRefsIn_rewordIn lineStart context is, List.map_append]

theorem Branch.divertRefsIn_rewordIn (lineStart : Nat) : ∀ bs : List Branch,
    Branch.divertRefsIn lineStart (Branch.rewordIn w bs) =
      (Branch.divertRefsIn lineStart bs).map (DivertRef.reword w)
  | [] => rfl
  | b :: bs => by
    simp only [Branch.rewordIn, Branch.divertRefsIn, Branch.divertRefs_reword lineStart b,
      Branch.divertRefsIn_rewordIn lineStart bs, List.map_append]

end

mutual

theorem Item.divertRefs_unlabelled (lineStart : Nat) (context : DivertContext) : ∀ i : Item,
    i.unlabelled.divertRefs lineStart context = i.divertRefs lineStart context
  | .leaf m l => by cases l <;> rfl
  | .choice m h c => by
    simp only [Item.unlabelled, Item.divertRefs, Item.divertRefsIn_unlabelledIn lineStart _ c]
    rfl
  | .conditional m bs => by
    simp only [Item.unlabelled, Item.divertRefs, Branch.divertRefsIn_unlabelledIn lineStart bs]

theorem Branch.divertRefs_unlabelled (lineStart : Nat) : ∀ b : Branch,
    b.unlabelled.divertRefs lineStart = b.divertRefs lineStart
  | .mk m g d c => by
    simp only [Branch.unlabelled, Branch.divertRefs, Item.divertRefsIn_unlabelledIn lineStart _ c]
    rfl

/-- The diverts of a tree do not depend on identities. -/
theorem Item.divertRefsIn_unlabelledIn (lineStart : Nat) (context : DivertContext) : ∀ is : List Item,
    Item.divertRefsIn lineStart context (Item.unlabelledIn is) = Item.divertRefsIn lineStart context is
  | [] => rfl
  | i :: is => by
    simp only [Item.unlabelledIn, Item.divertRefsIn, Item.divertRefs_unlabelled lineStart context i,
      Item.divertRefsIn_unlabelledIn lineStart context is]

theorem Branch.divertRefsIn_unlabelledIn (lineStart : Nat) : ∀ bs : List Branch,
    Branch.divertRefsIn lineStart (Branch.unlabelledIn bs) = Branch.divertRefsIn lineStart bs
  | [] => rfl
  | b :: bs => by
    simp only [Branch.unlabelledIn, Branch.divertRefsIn, Branch.divertRefs_unlabelled lineStart b,
      Branch.divertRefsIn_unlabelledIn lineStart bs]

end

/-! ### Rewordings that agree on a tree -/

variable {w} {v : Rewording}

mutual

theorem Item.reword_congr (ht : w.target = v.target) : ∀ {i : Item},
    i.All (fun l => l.reword w = l.reword v) → i.reword w = i.reword v
  | .leaf _ _, h => congrArg _ h
  | .choice _ _ c, h => by
    rw [Item.reword, Item.reword, Item.rewordIn_congr ht h, ChoiceHead.reword, ChoiceHead.reword, ht]
  | .conditional _ bs, h => by rw [Item.reword, Item.reword, Branch.rewordIn_congr ht h]

theorem Branch.reword_congr (ht : w.target = v.target) : ∀ {b : Branch},
    b.All (fun l => l.reword w = l.reword v) → b.reword w = b.reword v
  | .mk _ _ _ c, h => by rw [Branch.reword, Branch.reword, Item.rewordIn_congr ht h, ht]

/-- Rewordings that do the same to every target and to every leaf of a tree do the same to the tree. -/
theorem Item.rewordIn_congr (ht : w.target = v.target) : ∀ {is : List Item},
    Item.AllIn (fun l => l.reword w = l.reword v) is → Item.rewordIn w is = Item.rewordIn v is
  | [], _ => rfl
  | _ :: _, h => by
    rw [Item.rewordIn, Item.rewordIn, Item.reword_congr ht h.1, Item.rewordIn_congr ht h.2]

theorem Branch.rewordIn_congr (ht : w.target = v.target) : ∀ {bs : List Branch},
    Branch.AllIn (fun l => l.reword w = l.reword v) bs → Branch.rewordIn w bs = Branch.rewordIn v bs
  | [], _ => rfl
  | _ :: _, h => by
    rw [Branch.rewordIn, Branch.rewordIn, Branch.reword_congr ht h.1, Branch.rewordIn_congr ht h.2]

end

end StoryScript
