import StoryScript.Story.Node

/-!
# Nodes and what is directly inside them

The nodes of a list are those of its members (`Item.mem_nodesIn`), and the members are among them
(`Item.item_mem_nodesIn`). A node can be told apart into two things: what it is without the nodes
inside it (`Node.bare`), and the identities of those directly inside it (`Node.childIds`). What is
directly inside a node of a list is a node of the list (`Item.children_subset_nodesIn`).
-/

namespace StoryScript

namespace Node

/-- The nodes directly inside a node. -/
def children : Node → List Node
  | item (.leaf _ _) => []
  | item (.choice _ _ c) => c.map item
  | item (.conditional _ bs) => bs.map branch
  | branch b => b.content.map item

/-- The identities of the nodes directly inside a node. -/
def childIds (n : Node) : List Id := n.children.map Node.id

@[simp] theorem childIds_choice (m : Mark) (h : ChoiceHead) (c : List Item) :
    (item (.choice m h c)).childIds = c.map Item.id := List.map_map

@[simp] theorem childIds_conditional (m : Mark) (bs : List Branch) :
    (item (.conditional m bs)).childIds = bs.map Branch.id := List.map_map

@[simp] theorem childIds_branch (m : Mark) (g : Guard) (d : Option String) (c : List Item) :
    (branch (.mk m g d c)).childIds = c.map Item.id := List.map_map

/-- What a node is without the nodes inside it: its kind, its mark and its own fields. -/
def bare : Node → Node
  | item (.leaf m l) => item (.leaf m l)
  | item (.choice m h _) => item (.choice m h [])
  | item (.conditional m _) => item (.conditional m [])
  | branch (.mk m g d _) => branch (.mk m g d [])

@[simp] theorem id_bare (n : Node) : n.bare.id = n.id := by
  cases n with
  | item i => cases i <;> rfl
  | branch b =>
    cases b
    rfl

theorem id_eq_of_bare_eq {n n' : Node} (h : n'.bare = n.bare) : n'.id = n.id := by
  rw [← id_bare n', h, id_bare]

theorem item?_eq_some_iff {n : Node} {i : Item} : n.item? = some i ↔ n = item i := by
  cases n <;> simp [item?]

end Node

/-! ### Members of a list -/

theorem Item.mem_nodesIn {n : Node} {is : List Item} : n ∈ Item.nodesIn is ↔ ∃ i ∈ is, n ∈ i.nodes := by
  induction is with
  | nil => simp [Item.nodesIn]
  | cons i is ih => simp [Item.nodesIn, ih]

theorem Branch.mem_nodesIn {n : Node} {bs : List Branch} :
    n ∈ Branch.nodesIn bs ↔ ∃ b ∈ bs, n ∈ b.nodes := by
  induction bs with
  | nil => simp [Branch.nodesIn]
  | cons b bs ih => simp [Branch.nodesIn, ih]

theorem Item.mem_itemsIn {i : Item} {is : List Item} : i ∈ Item.itemsIn is ↔ .item i ∈ Item.nodesIn is := by
  simp [itemsIn, Node.item?_eq_some_iff]

theorem Item.nodesIn_append (is js : List Item) :
    Item.nodesIn (is ++ js) = Item.nodesIn is ++ Item.nodesIn js := by
  induction is with
  | nil => rfl
  | cons i is ih => rw [List.cons_append, nodesIn, nodesIn, ih, List.append_assoc]

theorem Branch.nodesIn_append (bs cs : List Branch) :
    Branch.nodesIn (bs ++ cs) = Branch.nodesIn bs ++ Branch.nodesIn cs := by
  induction bs with
  | nil => rfl
  | cons b bs ih => rw [List.cons_append, nodesIn, nodesIn, ih, List.append_assoc]

/-- Items of a list are among its nodes. -/
theorem Item.item_mem_nodesIn {is : List Item} {i : Item} (h : i ∈ is) : .item i ∈ Item.nodesIn is := by
  refine Item.mem_nodesIn.mpr ⟨i, h, ?_⟩
  cases i <;> exact List.mem_cons_self

theorem Branch.branch_mem_nodesIn {bs : List Branch} {b : Branch} (h : b ∈ bs) :
    .branch b ∈ Branch.nodesIn bs := by
  refine Branch.mem_nodesIn.mpr ⟨b, h, ?_⟩
  cases b
  exact List.mem_cons_self

mutual

/-- What is directly inside a node of an item is a node of the item. -/
theorem Item.children_subset_nodes : ∀ (i : Item), ∀ n ∈ i.nodes, n.children ⊆ i.nodes
  | .leaf m l => by
    rw [Item.nodes, List.forall_mem_singleton]
    exact List.nil_subset _
  | .choice m hd c => by
    rw [Item.nodes, List.forall_mem_cons]
    refine ⟨List.subset_cons_of_subset _ fun x hx => ?_, fun n hn =>
      List.subset_cons_of_subset _ (Item.children_subset_nodesIn c n hn)⟩
    obtain ⟨i, hi, rfl⟩ := List.mem_map.mp hx
    exact Item.item_mem_nodesIn hi
  | .conditional m bs => by
    rw [Item.nodes, List.forall_mem_cons]
    refine ⟨List.subset_cons_of_subset _ fun x hx => ?_, fun n hn =>
      List.subset_cons_of_subset _ (Branch.children_subset_nodesIn bs n hn)⟩
    obtain ⟨b, hb, rfl⟩ := List.mem_map.mp hx
    exact Branch.branch_mem_nodesIn hb

theorem Branch.children_subset_nodes : ∀ (b : Branch), ∀ n ∈ b.nodes, n.children ⊆ b.nodes
  | .mk m g d c => by
    rw [Branch.nodes, List.forall_mem_cons]
    refine ⟨List.subset_cons_of_subset _ fun x hx => ?_, fun n hn =>
      List.subset_cons_of_subset _ (Item.children_subset_nodesIn c n hn)⟩
    obtain ⟨i, hi, rfl⟩ := List.mem_map.mp hx
    exact Item.item_mem_nodesIn hi

theorem Item.children_subset_nodesIn : ∀ (is : List Item), ∀ n ∈ Item.nodesIn is,
    n.children ⊆ Item.nodesIn is
  | [] => by simp [Item.nodesIn]
  | i :: is => by
    rw [Item.nodesIn, List.forall_mem_append]
    exact ⟨fun n hn => List.subset_append_of_subset_left _ (Item.children_subset_nodes i n hn),
      fun n hn => List.subset_append_of_subset_right _ (Item.children_subset_nodesIn is n hn)⟩

theorem Branch.children_subset_nodesIn : ∀ (bs : List Branch), ∀ n ∈ Branch.nodesIn bs,
    n.children ⊆ Branch.nodesIn bs
  | [] => by simp [Branch.nodesIn]
  | b :: bs => by
    rw [Branch.nodesIn, List.forall_mem_append]
    exact ⟨fun n hn => List.subset_append_of_subset_left _ (Branch.children_subset_nodes b n hn),
      fun n hn => List.subset_append_of_subset_right _ (Branch.children_subset_nodesIn bs n hn)⟩

end

end StoryScript
