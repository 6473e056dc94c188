import StoryScript.Story.Identity
import StoryScript.Proofs.Story.Alignment
import StoryScript.Proofs.Story.Same

/-!
# Trees without identities

A tree is made of two things: what is left of it when every node has the same identity
(`Item.unlabelledIn`), and the list of its identities. Both together determine it
(`Item.eq_of_unlabelledIn`), and giving a tree new identities changes the second and not the first.

Carrying identities over from an equal tree gives every node the identity of its counterpart
(`Item.idsIn_carry`): the keys of equal trees agree one by one, so the trees are aligned as a whole.
-/

namespace StoryScript

/-- A mark without its identity. -/
def Mark.unlabelled (m : Mark) : Mark := { m with id := default }

mutual

/-- An item in which all identities are the same. -/
def Item.unlabelled : Item → Item
  | .leaf m l => .leaf m.unlabelled l
  | .choice m h c => .choice m.unlabelled h (Item.unlabelledIn c)
  | .conditional m bs => .conditional m.unlabelled (Branch.unlabelledIn bs)

/-- A branch in which all identities are the same. -/
def Branch.unlabelled : Branch → Branch
  | .mk m g d c => .mk m.unlabelled g d (Item.unlabelledIn c)

/-- A list of items in which all identities are the same. -/
def Item.unlabelledIn : List Item → List Item
  | [] => []
  | i :: is => i.unlabelled :: Item.unlabelledIn is

/-- A list of branches in which all identities are the same. -/
def Branch.unlabelledIn : List Branch → List Branch
  | [] => []
  | b :: bs => b.unlabelled :: Branch.unlabelledIn bs

end

theorem Item.unlabelledIn_eq_map (is : List Item) :
    Item.unlabelledIn is = is.map Item.unlabelled := by
  induction is with
  | nil => rfl
  | cons i is ih => rw [Item.unlabelledIn, ih, List.map_cons]

theorem Branch.unlabelledIn_eq_map (bs : List Branch) :
    Branch.unlabelledIn bs = bs.map Branch.unlabelled := by
  induction bs with
  | nil => rfl
  | cons b bs ih => rw [Branch.unlabelledIn, ih, List.map_cons]

/-! ### Two parts of a tree -/

/-- The identities of a list of branches, in document order. -/
def Branch.idsIn (bs : List Branch) : List Id := (Branch.nodesIn bs).map Node.id

@[simp] theorem Item.idsIn_nil : Item.idsIn [] = [] := rfl

@[simp] theorem Branch.idsIn_nil : Branch.idsIn [] = [] := rfl

@[simp] theorem Item.idsIn_leaf (m : Mark) (l : Leaf) (is : List Item) :
    Item.idsIn (.leaf m l :: is) = m.id :: Item.idsIn is := rfl

@[simp] theorem Item.idsIn_choice (m : Mark) (h : ChoiceHead) (c is : List Item) :
    Item.idsIn (.choice m h c :: is) = m.id :: (Item.idsIn c ++ Item.idsIn is) := by
  simp [Item.idsIn, Item.nodesIn, Item.nodes, Node.id, Node.mark, Item.mark]

@[simp] theorem Item.idsIn_conditional (m : Mark) (bs : List Branch) (is : List Item) :
    Item.idsIn (.conditional m bs :: is) = m.id :: (Branch.idsIn bs ++ Item.idsIn is) := by
  simp [Item.idsIn, Branch.idsIn, Item.nodesIn, Item.nodes, Node.id, Node.mark, Item.mark]

@[simp] theorem Branch.idsIn_cons (m : Mark) (g : Guard) (d : Option String) (c : List Item)
    (bs : List Branch) :
    Branch.idsIn (.mk m g d c :: bs) = m.id :: (Item.idsIn c ++ Branch.idsIn bs) := by
  simp [Item.idsIn, Branch.idsIn, Branch.nodesIn, Branch.nodes, Node.id, Node.mark, Branch.mark]

theorem Mark.eq_of_unlabelled {m n : Mark} (h : m.unlabelled = n.unlabelled) (hid : m.id = n.id) :
    m = n := by
  obtain ⟨i, s⟩ := m
  obtain ⟨j, t⟩ := n
  simp only [unlabelled, Mark.mk.injEq, true_and] at h
  rw [Mark.mk.injEq]
  exact ⟨hid, h⟩

mutual

theorem Item.eq_of_unlabelledIn_append : ∀ {is js : List Item} {u v : List Id},
    Item.unlabelledIn is = Item.unlabelledIn js → Item.idsIn is ++ u = Item.idsIn js ++ v →
      is = js ∧ u = v
  | [], [], _, _, _, hid => ⟨rfl, hid⟩
  | .leaf m l :: is, .leaf n k :: js, u, v, h, hid => by
    simp only [Item.unlabelledIn, Item.unlabelled, List.cons.injEq, Item.leaf.injEq] at h
    rw [Item.idsIn_leaf, Item.idsIn_leaf, List.cons_append, List.cons_append,
      List.cons.injEq] at hid
    obtain ⟨rfl, hrest⟩ := Item.eq_of_unlabelledIn_append h.2 hid.2
    rw [Mark.eq_of_unlabelled h.1.1 hid.1, h.1.2]
    exact ⟨rfl, hrest⟩
  | .choice m g c :: is, .choice n k d :: js, u, v, h, hid => by
    simp only [Item.unlabelledIn, Item.unlabelled, List.cons.injEq, Item.choice.injEq] at h
    rw [Item.idsIn_choice, Item.idsIn_choice, List.cons_append, List.cons_append,
      List.append_assoc, List.append_assoc, List.cons.injEq] at hid
    obtain ⟨rfl, hcontent⟩ := Item.eq_of_unlabelledIn_append h.1.2.2 hid.2
    obtain ⟨rfl, hrest⟩ := Item.eq_of_unlabelledIn_append h.2 hcontent
    rw [Mark.eq_of_unlabelled h.1.1 hid.1, h.1.2.1]
    exact ⟨rfl, hrest⟩
  | .conditional m bs :: is, .conditional n cs :: js, u, v, h, hid => by
    simp only [Item.unlabelledIn, Item.unlabelled, List.cons.injEq, Item.conditional.injEq] at h
    rw [Item.idsIn_conditional, Item.idsIn_conditional, List.cons_append, List.cons_append,
      List.append_assoc, List.append_assoc, List.cons.injEq] at hid
    obtain ⟨rfl, hbranches⟩ := Branch.eq_of_unlabelledIn_append h.1.2 hid.2
    obtain ⟨rfl, hrest⟩ := Item.eq_of_unlabelledIn_append h.2 hbranches
    rw [Mark.eq_of_unlabelled h.1.1 hid.1]
    exact ⟨rfl, hrest⟩
  | [], _ :: _, _, _, h, _ | _ :: _, [], _, _, h, _ => by simp [Item.unlabelledIn] at h
  | .leaf .. :: _, .choice .. :: _, _, _, h, _ | .leaf .. :: _, .conditional .. :: _, _, _, h, _
  | .choice .. :: _, .leaf .. :: _, _, _, h, _
  | .choice .. :: _, .conditional .. :: _, _, _, h, _
  | .conditional .. :: _, .leaf .. :: _, _, _, h, _
  | .conditional .. :: _, .choice .. :: _, _, _, h, _ => by
    simp [Item.unlabelledIn, Item.unlabelled] at h

theorem Branch.eq_of_unlabelledIn_append : ∀ {bs cs : List Branch} {u v : List Id},
    Branch.unlabelledIn bs = Branch.unlabelledIn cs → Branch.idsIn bs ++ u = Branch.idsIn cs ++ v →
      bs = cs ∧ u = v
  | [], [], _, _, _, hid => ⟨rfl, hid⟩
  | .mk m g d c :: bs, .mk n h e k :: cs, u, v, hl, hid => by
    simp only [Branch.unlabelledIn, Branch.unlabelled, List.cons.injEq, Branch.mk.injEq] at hl
    rw [Branch.idsIn_cons, Branch.idsIn_cons, List.cons_append, List.cons_append,
      List.append_assoc, List.append_assoc, List.cons.injEq] at hid
    obtain ⟨rfl, hcontent⟩ := Item.eq_of_unlabelledIn_append hl.1.2.2.2 hid.2
    obtain ⟨rfl, hrest⟩ := Branch.eq_of_unlabelledIn_append hl.2 hcontent
    rw [Mark.eq_of_unlabelled hl.1.1 hid.1, hl.1.2.1, hl.1.2.2.1]
    exact ⟨rfl, hrest⟩
  | [], _ :: _, _, _, h, _ | _ :: _, [], _, _, h, _ => by simp [Branch.unlabelledIn] at h

end

/-- Trees that agree in everything but identities, and in these as well, are the same. -/
theorem Item.eq_of_unlabelledIn {is js : List Item}
    (h : Item.unlabelledIn is = Item.unlabelledIn js) (hid : Item.idsIn is = Item.idsIn js) :
    is = js :=
  (Item.eq_of_unlabelledIn_append (u := []) (v := []) h (by rw [hid])).1

/-! ### New identities -/

@[simp] theorem takeId_unlabelled (m : Mark) (ids : List Id) :
    (takeId m ids).1.unlabelled = m.unlabelled := by
  cases ids <;> rfl

mutual

theorem Item.unlabelled_relabel : ∀ (i : Item) (ids : List Id),
    (i.relabel ids).1.unlabelled = i.unlabelled
  | .leaf m l, ids => by
    rw [Item.relabel, Item.unlabelled, Item.unlabelled, takeId_unlabelled]
  | .choice m h c, ids => by
    simp only [Item.relabel, Item.unlabelled, takeId_unlabelled, Item.unlabelledIn_relabelIn]
  | .conditional m bs, ids => by
    simp only [Item.relabel, Item.unlabelled, takeId_unlabelled, Branch.unlabelledIn_relabelIn]

theorem Branch.unlabelled_relabel : ∀ (b : Branch) (ids : List Id),
    (b.relabel ids).1.unlabelled = b.unlabelled
  | .mk m g d c, ids => by
    simp only [Branch.relabel, Branch.unlabelled, takeId_unlabelled, Item.unlabelledIn_relabelIn]

/-- New identities change nothing else. -/
theorem Item.unlabelledIn_relabelIn : ∀ (is : List Item) (ids : List Id),
    Item.unlabelledIn (Item.relabelIn is ids).1 = Item.unlabelledIn is
  | [], _ => rfl
  | i :: is, ids => by
    simp only [Item.relabelIn, Item.unlabelledIn, Item.unlabelled_relabel i,
      Item.unlabelledIn_relabelIn is]

theorem Branch.unlabelledIn_relabelIn : ∀ (bs : List Branch) (ids : List Id),
    Branch.unlabelledIn (Branch.relabelIn bs ids).1 = Branch.unlabelledIn bs
  | [], _ => rfl
  | b :: bs, ids => by
    simp only [Branch.relabelIn, Branch.unlabelledIn, Branch.unlabelled_relabel b,
      Branch.unlabelledIn_relabelIn bs]

end

/-- A node in which all identities are the same. -/
def Node.unlabelled : Node → Node
  | .item i => .item i.unlabelled
  | .branch b => .branch b.unlabelled

@[simp] theorem Node.span_unlabelled (n : Node) : n.unlabelled.mark.span = n.mark.span := by
  rcases n with (_ | _ | _) | ⟨_, _, _, _⟩ <;> rfl

mutual

theorem Item.nodes_unlabelled : ∀ i : Item, i.unlabelled.nodes = i.nodes.map Node.unlabelled
  | .leaf _ _ => rfl
  | .choice _ _ c => by
    simp only [Item.unlabelled, Item.nodes, Item.nodesIn_unlabelledIn c, List.map_cons, Node.unlabelled]
  | .conditional _ bs => by
    simp only [Item.unlabelled, Item.nodes, Branch.nodesIn_unlabelledIn bs, List.map_cons,
      Node.unlabelled]

theorem Branch.nodes_unlabelled : ∀ b : Branch, b.unlabelled.nodes = b.nodes.map Node.unlabelled
  | .mk _ _ _ c => by
    simp only [Branch.unlabelled, Branch.nodes, Item.nodesIn_unlabelledIn c, List.map_cons,
      Node.unlabelled]

/-- The nodes of a tree without identities, in the same order. -/
theorem Item.nodesIn_unlabelledIn : ∀ is : List Item,
    Item.nodesIn (Item.unlabelledIn is) = (Item.nodesIn is).map Node.unlabelled
  | [] => rfl
  | i :: is => by
    simp only [Item.unlabelledIn, Item.nodesIn, Item.nodes_unlabelled i, Item.nodesIn_unlabelledIn is,
      List.map_append]

theorem Branch.nodesIn_unlabelledIn : ∀ bs : List Branch,
    Branch.nodesIn (Branch.unlabelledIn bs) = (Branch.nodesIn bs).map Node.unlabelled
  | [] => rfl
  | b :: bs => by
    simp only [Branch.unlabelledIn, Branch.nodesIn, Branch.nodes_unlabelled b,
      Branch.nodesIn_unlabelledIn bs, List.map_append]

end

theorem Item.length_idsIn_unlabelledIn (is : List Item) :
    (Item.idsIn (Item.unlabelledIn is)).length = (Item.idsIn is).length := by
  simp only [Item.idsIn, Item.nodesIn_unlabelledIn, List.length_map]

theorem Branch.length_idsIn_unlabelledIn (bs : List Branch) :
    (Branch.idsIn (Branch.unlabelledIn bs)).length = (Branch.idsIn bs).length := by
  simp only [Branch.idsIn, Branch.nodesIn_unlabelledIn, List.length_map]

theorem Item.length_idsIn_relabelIn (is : List Item) (ids : List Id) :
    (Item.idsIn (Item.relabelIn is ids).1).length = (Item.idsIn is).length := by
  rw [← Item.length_idsIn_unlabelledIn, Item.unlabelledIn_relabelIn, Item.length_idsIn_unlabelledIn]

theorem Branch.length_idsIn_relabelIn (bs : List Branch) (ids : List Id) :
    (Branch.idsIn (Branch.relabelIn bs ids).1).length = (Branch.idsIn bs).length := by
  rw [← Branch.length_idsIn_unlabelledIn, Branch.unlabelledIn_relabelIn,
    Branch.length_idsIn_unlabelledIn]

mutual

/-- Identities are used up in document order. -/
theorem Item.idsIn_relabelIn_append : ∀ (is : List Item) (ids : List Id),
    (Item.idsIn is).length ≤ ids.length →
      Item.idsIn (Item.relabelIn is ids).1 ++ (Item.relabelIn is ids).2 = ids
  | [], _, _ => rfl
  | .leaf m l :: is, [], h => by simp at h
  | .leaf m l :: is, id :: ids, h => by
    rw [Item.idsIn_leaf, List.length_cons, List.length_cons] at h
    have hrest := Item.idsIn_relabelIn_append is ids (by omega)
    change id :: (Item.idsIn (Item.relabelIn is ids).1 ++ (Item.relabelIn is ids).2) = id :: ids
    rw [hrest]
  | .choice m hd c :: is, [], h => by simp at h
  | .choice m hd c :: is, id :: ids, h => by
    -- the content uses up its part of the list first, and the items behind it have what is left
    rw [Item.idsIn_choice, List.length_cons, List.length_cons, List.length_append] at h
    have hcontent := Item.idsIn_relabelIn_append c ids (by omega)
    have hlength := congrArg List.length hcontent
    rw [List.length_append, Item.length_idsIn_relabelIn] at hlength
    have hrest := Item.idsIn_relabelIn_append is (Item.relabelIn c ids).2 (by omega)
    change Item.idsIn (.choice { m with id } hd (Item.relabelIn c ids).1 ::
      (Item.relabelIn is (Item.relabelIn c ids).2).1) ++
        (Item.relabelIn is (Item.relabelIn c ids).2).2 = id :: ids
    rw [Item.idsIn_choice, List.cons_append, List.append_assoc, hrest, hcontent]
  | .conditional m bs :: is, [], h => by simp at h
  | .conditional m bs :: is, id :: ids, h => by
    rw [Item.idsIn_conditional, List.length_cons, List.length_cons, List.length_append] at h
    have hbranches := Branch.idsIn_relabelIn_append bs ids (by omega)
    have hlength := congrArg List.length hbranches
    rw [List.length_append, Branch.length_idsIn_relabelIn] at hlength
    have hrest := Item.idsIn_relabelIn_append is (Branch.relabelIn bs ids).2 (by omega)
    change Item.idsIn (.conditional { m with id } (Branch.relabelIn bs ids).1 ::
      (Item.relabelIn is (Branch.relabelIn bs ids).2).1) ++
        (Item.relabelIn is (Branch.relabelIn bs ids).2).2 = id :: ids
    rw [Item.idsIn_conditional, List.cons_append, List.append_assoc, hrest, hbranches]

theorem Branch.idsIn_relabelIn_append : ∀ (bs : List Branch) (ids : List Id),
    (Branch.idsIn bs).length ≤ ids.length →
      Branch.idsIn (Branch.relabelIn bs ids).1 ++ (Branch.relabelIn bs ids).2 = ids
  | [], _, _ => rfl
  | .mk m g d c :: bs, [], h => by simp at h
  | .mk m g d c :: bs, id :: ids, h => by
    rw [Branch.idsIn_cons, List.length_cons, List.length_cons, List.length_append] at h
    have hcontent := Item.idsIn_relabelIn_append c ids (by omega)
    have hlength := congrArg List.length hcontent
    rw [List.length_append, Item.length_idsIn_relabelIn] at hlength
    have hrest := Branch.idsIn_relabelIn_append bs (Item.relabelIn c ids).2 (by omega)
    change Branch.idsIn (.mk { m with id } g d (Item.relabelIn c ids).1 ::
      (Branch.relabelIn bs (Item.relabelIn c ids).2).1) ++
        (Branch.relabelIn bs (Item.relabelIn c ids).2).2 = id :: ids
    rw [Branch.idsIn_cons, List.cons_append, List.append_assoc, hrest, hcontent]

end

/-- As many identities as a tree has nodes become the identities of the tree. -/
theorem Item.idsIn_relabelIn {is : List Item} {ids : List Id}
    (h : ids.length = (Item.idsIn is).length) : Item.idsIn (Item.relabelIn is ids).1 = ids := by
  have happend := Item.idsIn_relabelIn_append is ids (Nat.le_of_eq h.symm)
  have hlength := congrArg List.length happend
  rw [List.length_append, Item.length_idsIn_relabelIn] at hlength
  have hnil : (Item.relabelIn is ids).2 = [] := List.eq_nil_of_length_eq_zero (by omega)
  rwa [hnil, List.append_nil] at happend

/-! ### What does not depend on identities -/

mutual

theorem Item.same_unlabelled : ∀ i j : Item, i.unlabelled.same j = i.same j
  | .leaf _ _, .leaf _ _ => by rw [Item.unlabelled, Item.same, Item.same]
  | .choice _ _ c, .choice _ _ d => by
    rw [Item.unlabelled, Item.same, Item.same, Item.sameList_unlabelledIn c d]
  | .conditional _ bs, .conditional _ cs => by
    rw [Item.unlabelled, Item.same, Item.same, Branch.sameList_unlabelledIn bs cs]
  | .leaf .., .choice .. | .leaf .., .conditional .. | .choice .., .leaf ..
  | .choice .., .conditional .. | .conditional .., .leaf .. | .conditional .., .choice .. => by
    simp [Item.unlabelled, Item.same]

theorem Branch.same_unlabelled : ∀ b c : Branch, b.unlabelled.same c = b.same c
  | .mk _ _ _ c, .mk _ _ _ d => by
    rw [Branch.unlabelled, Branch.same, Branch.same, Item.sameList_unlabelledIn c d]

/-- Structural equality passes over identities. -/
theorem Item.sameList_unlabelledIn : ∀ is js : List Item,
    Item.sameList (Item.unlabelledIn is) js = Item.sameList is js
  | [], [] => rfl
  | i :: is, j :: js => by
    rw [Item.unlabelledIn, Item.sameList, Item.sameList, Item.same_unlabelled i j,
      Item.sameList_unlabelledIn is js]
  | [], _ :: _ | _ :: _, [] => by simp [Item.unlabelledIn, Item.sameList]

theorem Branch.sameList_unlabelledIn : ∀ bs cs : List Branch,
    Branch.sameList (Branch.unlabelledIn bs) cs = Branch.sameList bs cs
  | [], [] => rfl
  | b :: bs, c :: cs => by
    rw [Branch.unlabelledIn, Branch.sameList, Branch.sameList, Branch.same_unlabelled b c,
      Branch.sameList_unlabelledIn bs cs]
  | [], _ :: _ | _ :: _, [] => by simp [Branch.unlabelledIn, Branch.sameList]

end

/-- Trees that differ in identities alone equal the same trees. -/
theorem Item.sameList_congr {is is' : List Item}
    (h : Item.unlabelledIn is = Item.unlabelledIn is') (js : List Item) :
    Item.sameList is js = Item.sameList is' js := by
  rw [← Item.sameList_unlabelledIn is, h, Item.sameList_unlabelledIn]

theorem Item.stitchName?_unlabelled (i : Item) : i.unlabelled.stitchName? = i.stitchName? := by
  cases i with
  | leaf m l => cases l <;> rfl
  | choice m h c => rfl
  | conditional m bs => rfl

/-- Stitches do not depend on identities. -/
theorem Item.filterMap_stitchName?_unlabelledIn (is : List Item) :
    (Item.unlabelledIn is).filterMap Item.stitchName? = is.filterMap Item.stitchName? := by
  rw [Item.unlabelledIn_eq_map, List.filterMap_map]
  exact List.filterMap_congr fun i _ => i.stitchName?_unlabelled

/-! ### Carrying identities -/

/-- Whether two nodes are recognised as counterparts. -/
def Node.Counterparts (m n : Node) : Prop := (m.key == n.key) = true

/-- Equal leaves have the same key. -/
theorem Leaf.keyValue_agree {a b : Leaf} (h : a.same b = true) :
    a.kindName = b.kindName ∧ a.keyValue.agree b.keyValue = true := by
  cases a <;> cases b <;> simp_all [Leaf.same, Leaf.kindName, Leaf.keyValue, KeyValue.agree]

theorem Node.counterparts_iff {m n : Node} :
    m.Counterparts n ↔ m.key.kind = n.key.kind ∧ m.key.value.agree n.key.value = true := by
  change (decide (m.key.kind = n.key.kind) && m.key.value.agree n.key.value) = true ↔ _
  rw [Bool.and_eq_true, decide_eq_true_eq]

theorem Node.kind_key (n : Node) : n.key.kind = n.kindName := by
  rcases n with (_ | _ | _) | _ <;> rfl

/-- Counterparts are of one kind. -/
theorem Node.Counterparts.kindName {m n : Node} (h : m.Counterparts n) : m.kindName = n.kindName := by
  rw [← Node.kind_key, ← Node.kind_key]
  exact (Node.counterparts_iff.mp h).1

/-- A node is recognised by its content alone. -/
@[simp] theorem Node.key_unlabelled (n : Node) : n.unlabelled.key = n.key := by
  rcases n with (_ | _ | _) | ⟨_, _, _, _⟩ <;> rfl

mutual

/-- The nodes of equal trees are counterparts one by one. -/
theorem Item.counterparts_of_sameList : ∀ {is js : List Item}, Item.sameList is js = true →
    List.Forall₂ Node.Counterparts (Item.nodesIn is) (Item.nodesIn js)
  | [], [], _ => .nil
  | .leaf m a :: is, .leaf n b :: js, h => by
    rw [Item.sameList, Item.same, Bool.and_eq_true] at h
    refine .cons ?_ (Item.counterparts_of_sameList h.2)
    exact Node.counterparts_iff.mpr (Leaf.keyValue_agree h.1)
  | .choice m g c :: is, .choice n k d :: js, h => by
    simp only [Item.sameList, Item.same, Bool.and_eq_true, decide_eq_true_eq] at h
    refine .cons ?_ (List.rel_append (Item.counterparts_of_sameList h.1.2)
      (Item.counterparts_of_sameList h.2))
    refine Node.counterparts_iff.mpr ⟨rfl, ?_⟩
    change decide (g.text = k.text) = true
    rw [h.1.1, decide_eq_true_eq]
  | .conditional m bs :: is, .conditional n cs :: js, h => by
    rw [Item.sameList, Item.same, Bool.and_eq_true] at h
    refine .cons ?_ (List.rel_append (Branch.counterparts_of_sameList h.1)
      (Item.counterparts_of_sameList h.2))
    exact Node.counterparts_iff.mpr ⟨rfl, rfl⟩
  | [], _ :: _, h | _ :: _, [], h => by simp [Item.sameList] at h
  | .leaf .. :: _, .choice .. :: _, h | .leaf .. :: _, .conditional .. :: _, h
  | .choice .. :: _, .leaf .. :: _, h | .choice .. :: _, .conditional .. :: _, h
  | .conditional .. :: _, .leaf .. :: _, h | .conditional .. :: _, .choice .. :: _, h => by
    simp [Item.sameList, Item.same] at h

theorem Branch.counterparts_of_sameList : ∀ {bs cs : List Branch}, Branch.sameList bs cs = true →
    List.Forall₂ Node.Counterparts (Branch.nodesIn bs) (Branch.nodesIn cs)
  | [], [], _ => .nil
  | .mk m g d c :: bs, .mk n k e l :: cs, h => by
    simp only [Branch.sameList, Branch.same, Bool.and_eq_true, decide_eq_true_eq] at h
    refine .cons ?_ (List.rel_append (Item.counterparts_of_sameList h.1.2)
      (Branch.counterparts_of_sameList h.2))
    refine Node.counterparts_iff.mpr ⟨rfl, ?_⟩
    change decide (g.label = k.label) = true
    rw [h.1.1.1, decide_eq_true_eq]
  | [], _ :: _, h | _ :: _, [], h => by simp [Branch.sameList] at h

end

theorem Item.length_idsIn_of_sameList {is js : List Item} (h : Item.sameList is js = true) :
    (Item.idsIn is).length = (Item.idsIn js).length := by
  rw [Item.idsIn, Item.idsIn, List.length_map, List.length_map]
  exact (Item.counterparts_of_sameList h).length_eq

/-- Where all nodes are counterparts one by one, the new nodes get the identities of the old. -/
theorem carriedIds_of_counterparts {olds news : List Node}
    (h : List.Forall₂ Node.Counterparts olds news) :
    carriedIds olds news = olds.map Node.id := by
  have hkeys : List.Forall₂ (fun x y => (x == y) = true) (olds.map Node.key)
      (news.map Node.key) := by
    rw [List.forall₂_map_left_iff, List.forall₂_map_right_iff]
    exact h
  rw [carriedIds, Alignment.edits_of_agree hkeys]
  cases olds with
  | nil => rfl
  | cons o olds =>
    rw [if_neg (by simp), List.flatMap_singleton, List.length_map, carryStep, slice,
      List.take_length, List.drop_zero]

/-- A tree that carries the identities of an equal tree has just these. -/
theorem Item.idsIn_carry {is js : List Item} (h : Item.sameList is js = true) :
    Item.idsIn (Item.carry is js).1 = Item.idsIn js := by
  have hids : carriedIds (Item.nodesIn js) (Item.nodesIn is) = Item.idsIn js :=
    carriedIds_of_counterparts (Item.counterparts_of_sameList (Item.sameList_symm h))
  change Item.idsIn (Item.relabelIn is (carriedIds (Item.nodesIn js) (Item.nodesIn is))).1 = _
  rw [hids]
  exact Item.idsIn_relabelIn (Item.length_idsIn_of_sameList h).symm

theorem Item.unlabelledIn_carry (is js : List Item) :
    Item.unlabelledIn (Item.carry is js).1 = Item.unlabelledIn is :=
  Item.unlabelledIn_relabelIn is _

end StoryScript
