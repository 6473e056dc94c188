import StoryScript.Proofs.Story.Location

/-!
# A tree around the list of one container

An edit changes the list of one container and nothing around it. What is around it is a path from the list up to
the root (`Surroundings`): one container after the other, each with what stands beside it (`Enclosure`). A path
that is filled with a list is a tree (`Surroundings.fill`).

* Every container of a tree has such a path (`Item.exists_surroundings`).
* Where no two nodes share an identity, a change that is asked for by the identity of the container happens at
  the end of its path (`Surroundings.editChildren_fill`), and what is in the list is located there
  (`Surroundings.locate?_fill`).
* The nodes of the tree are those of the path and those of the list (`Surroundings.perm_nodesIn_fill`). With
  another list in the container those of the path have the same fields, and all but the container itself have the
  same nodes directly inside them (`Surroundings.exists_fares`).

Each fact about a path is one about a container, one about an enclosure, and an induction along the path.
-/

open scoped List

namespace StoryScript

/-- A container without its list. A branch stands in a conditional, between other branches. -/
inductive Container where
  | choice (mark : Mark) (head : ChoiceHead)
  | branch (conditional : Mark) (first : List Branch) (mark : Mark) (guard : Guard)
      (divert : Option String) (last : List Branch)

/-- A container without its list, and what stands beside it in the list one level up. -/
structure Enclosure where
  before : List Item
  container : Container
  after : List Item

/-- The enclosures of a list, the innermost first. -/
abbrev Surroundings := List Enclosure

/-- A node of a path, when the list at the end of the path changes: the container of that list has other nodes
inside it, every other node has the same ones, and they are on the path too. -/
inductive Node.Fares (container : Option Id) (path : List Id) (old new : List Item) : Node → Node → Prop
  | aside {n n' : Node} (hbare : n'.bare = n.bare) (hinside : n'.childIds = n.childIds)
      (hpath : n.childIds ⊆ path) : Fares container path old new n n'
  | addressed {n n' : Node} (hbare : n'.bare = n.bare) (hid : container = some n.id)
      (hold : n.childIds = old.map Item.id) (hnew : n'.childIds = new.map Item.id) :
      Fares container path old new n n'

namespace Node.Fares

variable {container : Option Id} {path wider : List Id} {old new : List Item} {n n' : Node}

theorem bare_eq (h : Fares container path old new n n') : n'.bare = n.bare := by
  cases h <;> assumption

theorem mono (h : Fares container path old new n n') (hpath : path ⊆ wider) :
    Fares container wider old new n n' := by
  cases h with
  | aside hbare hinside hin => exact .aside hbare hinside (List.Subset.trans hin hpath)
  | addressed hbare hid hold hnew => exact .addressed hbare hid hold hnew

/-- A node that does not change. -/
theorem refl (h : n.childIds ⊆ path) : Fares container path old new n n := .aside rfl rfl h

end Node.Fares

theorem Item.childIds_subset {is : List Item} {n : Node} (hn : n ∈ Item.nodesIn is) :
    n.childIds ⊆ Item.idsIn is := List.map_subset _ (Item.children_subset_nodesIn is n hn)

theorem Branch.childIds_subset {bs : List Branch} {n : Node} (hn : n ∈ Branch.nodesIn bs) :
    n.childIds ⊆ Branch.idsIn bs := List.map_subset _ (Branch.children_subset_nodesIn bs n hn)

theorem Item.map_id_subset (is : List Item) : is.map Item.id ⊆ Item.idsIn is := by
  intro a ha
  obtain ⟨i, hi, rfl⟩ := List.mem_map.mp ha
  exact List.mem_map.mpr ⟨.item i, Item.item_mem_nodesIn hi, rfl⟩

theorem Branch.map_id_subset (bs : List Branch) : bs.map Branch.id ⊆ Branch.idsIn bs := by
  intro a ha
  obtain ⟨b, hb, rfl⟩ := List.mem_map.mp ha
  exact List.mem_map.mpr ⟨.branch b, Branch.branch_mem_nodesIn hb, rfl⟩

/-! ### Changes of a container that is not there -/

section

variable {id : Id} {f : ListEdit}

mutual

theorem Item.edit?_eq_none : ∀ {i : Item}, (∀ n ∈ i.nodes, n.id = id → n.content? = none) →
    i.edit? id f = none
  | .leaf m l, _ => rfl
  | .choice m h c, hno => by
    rw [Item.nodes, List.forall_mem_cons] at hno
    rw [Item.edit?, if_neg fun hid => by simpa [Node.content?] using hno.1 hid,
      Item.editIn?_eq_none hno.2]
    rfl
  | .conditional m bs, hno => by
    rw [Item.nodes, List.forall_mem_cons] at hno
    rw [Item.edit?, Branch.editIn?_eq_none hno.2]
    rfl

theorem Branch.edit?_eq_none : ∀ {b : Branch}, (∀ n ∈ b.nodes, n.id = id → n.content? = none) →
    b.edit? id f = none
  | .mk m g d c, hno => by
    rw [Branch.nodes, List.forall_mem_cons] at hno
    rw [Branch.edit?, if_neg fun hid => by simpa [Node.content?] using hno.1 hid,
      Item.editIn?_eq_none hno.2]
    rfl

theorem Item.editIn?_eq_none : ∀ {is : List Item},
    (∀ n ∈ Item.nodesIn is, n.id = id → n.content? = none) → Item.editIn? id f is = none
  | [], _ => rfl
  | i :: is, hno => by
    rw [Item.nodesIn, List.forall_mem_append] at hno
    rw [Item.editIn?, Item.edit?_eq_none hno.1, Item.editIn?_eq_none hno.2]
    rfl

theorem Branch.editIn?_eq_none : ∀ {bs : List Branch},
    (∀ n ∈ Branch.nodesIn bs, n.id = id → n.content? = none) → Branch.editIn? id f bs = none
  | [], _ => rfl
  | b :: bs, hno => by
    rw [Branch.nodesIn, List.forall_mem_append] at hno
    rw [Branch.editIn?, Branch.edit?_eq_none hno.1, Branch.editIn?_eq_none hno.2]
    rfl

end

/-- A change passes over what is beside the item that holds the container. -/
theorem Item.editIn?_between {before after : List Item} {i : Item}
    (hbefore : ∀ n ∈ Item.nodesIn before, n.id ≠ id) (hafter : ∀ n ∈ Item.nodesIn after, n.id ≠ id) :
    Item.editIn? id f (before ++ i :: after) =
      (i.edit? id f).map (·.map fun j => before ++ j :: after) := by
  induction before with
  | nil =>
    rw [List.nil_append, Item.editIn?,
      Item.editIn?_eq_none fun n hn hid => absurd hid (hafter n hn)]
    cases i.edit? id f <;> rfl
  | cons b before ih =>
    rw [Item.nodesIn, List.forall_mem_append] at hbefore
    rw [List.cons_append, Item.editIn?,
      Item.edit?_eq_none fun n hn hid => absurd hid (hbefore.1 n hn), ih hbefore.2]
    cases i.edit? id f with
    | none => rfl
    | some r => cases r <;> rfl

theorem Branch.editIn?_between {first last : List Branch} {b : Branch}
    (hfirst : ∀ n ∈ Branch.nodesIn first, n.id ≠ id) (hlast : ∀ n ∈ Branch.nodesIn last, n.id ≠ id) :
    Branch.editIn? id f (first ++ b :: last) =
      (b.edit? id f).map (·.map fun b' => first ++ b' :: last) := by
  induction first with
  | nil =>
    rw [List.nil_append, Branch.editIn?,
      Branch.editIn?_eq_none fun n hn hid => absurd hid (hlast n hn)]
    cases b.edit? id f <;> rfl
  | cons b' first ih =>
    rw [Branch.nodesIn, List.forall_mem_append] at hfirst
    rw [List.cons_append, Branch.editIn?,
      Branch.edit?_eq_none fun n hn hid => absurd hid (hfirst.1 n hn), ih hfirst.2]
    cases b.edit? id f with
    | none => rfl
    | some r => cases r <;> rfl

end

/-! ### Containers -/

namespace Container

/-- The identity of the container. -/
def id : Container → Id
  | choice m _ => m.id
  | branch _ _ m _ _ _ => m.id

/-- The item that the container belongs to, with a list in the container: a choice itself, or the conditional of
a branch. -/
def item : Container → List Item → Item
  | choice m h, c => .choice m h c
  | branch o first m g d last, c => .conditional o (first ++ .mk m g d c :: last)

/-- The nodes of that item, except those in the list of the container. -/
def nodes : Container → List Item → List Node
  | choice m h, c => [.item (.choice m h c)]
  | branch o first m g d last, c =>
    .item (.conditional o (first ++ .mk m g d c :: last)) ::
      (Branch.nodesIn first ++ .branch (.mk m g d c) :: Branch.nodesIn last)

/-- The identities of these nodes. -/
def ids : Container → List Id
  | choice m _ => [m.id]
  | branch o first m _ _ last => o.id :: (Branch.idsIn first ++ m.id :: Branch.idsIn last)

variable {k : Container} {c d : List Item} {i : Id} {f : ListEdit}

theorem id_mem_ids (k : Container) : k.id ∈ k.ids := by
  cases k <;> simp [Container.id, ids]

theorem map_id_nodes (k : Container) (c : List Item) : (k.nodes c).map Node.id = k.ids := by
  cases k with
  | choice m h => rfl
  | branch o first m g d last =>
    rw [nodes, List.map_cons, List.map_append, List.map_cons]
    rfl

theorem id_item (k : Container) (c d : List Item) : (k.item c).id = (k.item d).id := by
  cases k <;> rfl

theorem id_item_mem_ids (k : Container) (c : List Item) : (k.item c).id ∈ k.ids := by
  cases k <;> exact List.mem_cons_self

theorem perm_nodes_item (k : Container) (c : List Item) :
    (k.item c).nodes.Perm (k.nodes c ++ Item.nodesIn c) := by
  cases k with
  | choice m h => exact List.Perm.refl _
  | branch o first m g d last =>
    rw [item, nodes, Item.nodes, Branch.nodesIn_append, Branch.nodesIn, Branch.nodes, List.cons_append,
      List.cons_append, List.append_assoc, List.cons_append]
    exact ((List.perm_append_comm.cons _).append_left _).cons _

/-- The change of the container itself. -/
theorem edit?_item_id (hnodup : k.ids.Nodup) :
    (k.item c).edit? k.id f = some ((f c).map k.item) := by
  cases k with
  | choice m h => exact if_pos rfl
  | branch o first m g d last =>
    rw [ids, List.nodup_cons, List.nodup_middle, List.nodup_cons] at hnodup
    obtain ⟨hfirst, hlast⟩ := not_or.mp (List.mem_append.not.mp hnodup.2.1)
    have hother : ∀ {bs : List Branch}, m.id ∉ Branch.idsIn bs → ∀ n ∈ Branch.nodesIn bs, n.id ≠ m.id :=
      fun hno n hn hid => hno (hid ▸ List.mem_map_of_mem hn)
    change (Item.conditional o (first ++ .mk m g d c :: last)).edit? m.id f = _
    rw [Item.edit?, Branch.editIn?_between (hother hfirst) (hother hlast), Branch.edit?, if_pos rfl]
    cases f c <;> rfl

/-- The change of another container happens in the list, if it happens at all. -/
theorem edit?_item (h : i ∉ k.ids) :
    (k.item c).edit? i f = (Item.editIn? i f c).map (·.map k.item) := by
  cases k with
  | choice m hd =>
    have hid : m.id ≠ i := fun hid => h (hid ▸ List.mem_singleton_self m.id)
    rw [item, Item.edit?, if_neg hid]
    rfl
  | branch o first m g d last =>
    rw [ids, List.mem_cons, List.mem_append, List.mem_cons, not_or, not_or, not_or] at h
    obtain ⟨-, hfirst, hm, hlast⟩ := h
    have hother : ∀ {bs : List Branch}, i ∉ Branch.idsIn bs → ∀ n ∈ Branch.nodesIn bs, n.id ≠ i :=
      fun hno n hn hid => hno (hid ▸ List.mem_map_of_mem hn)
    rw [item, Item.edit?, Branch.editIn?_between (hother hfirst) (hother hlast), Branch.edit?,
      if_neg fun hid => hm hid.symm]
    cases Item.editIn? i f c with
    | none => rfl
    | some r => cases r <;> rfl

theorem exists_fares (k : Container) (c d : List Item) :
    ∀ n ∈ k.nodes c, ∃ n' ∈ k.nodes d, Node.Fares (some k.id) k.ids c d n n' := by
  cases k with
  | choice m h =>
    rw [nodes, List.forall_mem_singleton]
    exact ⟨.item (.choice m h d), List.mem_singleton_self _,
      .addressed rfl rfl (Node.childIds_choice m h c) (Node.childIds_choice m h d)⟩
  | branch o first m g dv last =>
    have hbeside : ∀ bs : List Branch, Branch.idsIn bs ⊆ (branch o first m g dv last).ids →
        ∀ n ∈ Branch.nodesIn bs, Node.Fares (some m.id) (branch o first m g dv last).ids c d n n :=
      fun bs hbs n hn => .refl (List.Subset.trans (Branch.childIds_subset hn) hbs)
    have hfirst : Branch.idsIn first ⊆ (branch o first m g dv last).ids :=
      List.subset_cons_of_subset _ (List.subset_append_left _ _)
    have hlast : Branch.idsIn last ⊆ (branch o first m g dv last).ids :=
      List.subset_cons_of_subset _ (List.subset_append_of_subset_right _ (List.subset_cons_self _ _))
    intro n hn
    rw [nodes, List.mem_cons, List.mem_append, List.mem_cons] at hn
    rcases hn with rfl | hn | rfl | hn
    · -- the conditional has the same branches, as far as identities go
      refine ⟨_, List.mem_cons_self, .aside rfl ?_ ?_⟩
      · simp [Branch.id, Branch.mark]
      · rw [Node.childIds_conditional, List.map_append, List.map_cons, ids]
        refine List.subset_cons_of_subset _ (List.append_subset.mpr ⟨?_, ?_⟩)
        · exact List.subset_append_of_subset_left _ (Branch.map_id_subset first)
        · exact List.subset_append_of_subset_right _ (List.cons_subset_cons _ (Branch.map_id_subset last))
    · exact ⟨n, by simp [nodes, hn], hbeside first hfirst n hn⟩
    · exact ⟨.branch (.mk m g dv d), by simp [nodes],
        .addressed rfl rfl (Node.childIds_branch m g dv c) (Node.childIds_branch m g dv d)⟩
    · exact ⟨n, by simp [nodes, hn], hbeside last hlast n hn⟩

end Container

/-! ### Enclosures -/

theorem Item.locationsIn_append (parent : Option Id) (index depth : Nat) (is js : List Item) :
    Item.locationsIn parent index depth (is ++ js) =
      Item.locationsIn parent index depth is ++ Item.locationsIn parent (index + is.length) depth js := by
  induction is generalizing index with
  | nil => rfl
  | cons i is ih =>
    rw [List.cons_append, Item.locationsIn, Item.locationsIn, ih, List.append_assoc, List.length_cons,
      Nat.add_right_comm, Nat.add_assoc]

theorem Branch.locationsIn_append (depth : Nat) (bs cs : List Branch) :
    Branch.locationsIn depth (bs ++ cs) = Branch.locationsIn depth bs ++ Branch.locationsIn depth cs := by
  induction bs with
  | nil => rfl
  | cons b bs ih => rw [List.cons_append, Branch.locationsIn, Branch.locationsIn, ih, List.append_assoc]

namespace Enclosure

/-- The list one level up, with a list in the container. -/
def fill (e : Enclosure) (c : List Item) : List Item := e.before ++ e.container.item c :: e.after

/-- The nodes of the list one level up, except those in the list of the container. -/
def nodes (e : Enclosure) (c : List Item) : List Node :=
  Item.nodesIn e.before ++ (e.container.nodes c ++ Item.nodesIn e.after)

/-- The identities of these nodes. -/
def ids (e : Enclosure) : List Id := Item.idsIn e.before ++ (e.container.ids ++ Item.idsIn e.after)

variable {e : Enclosure} {c d : List Item} {i : Id} {f : ListEdit}

theorem map_id_nodes (e : Enclosure) (c : List Item) : (e.nodes c).map Node.id = e.ids := by
  rw [nodes, List.map_append, List.map_append, Container.map_id_nodes]
  rfl

theorem container_ids_subset (e : Enclosure) : e.container.ids ⊆ e.ids :=
  List.subset_append_of_subset_right _ (List.subset_append_left _ _)

theorem before_ids_subset (e : Enclosure) : Item.idsIn e.before ⊆ e.ids := List.subset_append_left _ _

theorem after_ids_subset (e : Enclosure) : Item.idsIn e.after ⊆ e.ids :=
  List.subset_append_of_subset_right _ (List.subset_append_right _ _)

theorem id_mem_ids (e : Enclosure) : e.container.id ∈ e.ids := e.container_ids_subset e.container.id_mem_ids

theorem perm_nodesIn_fill (e : Enclosure) (c : List Item) :
    (Item.nodesIn (e.fill c)).Perm (e.nodes c ++ Item.nodesIn c) := by
  rw [fill, nodes, Item.nodesIn_append, Item.nodesIn]
  calc Item.nodesIn e.before ++ ((e.container.item c).nodes ++ Item.nodesIn e.after)
    _ ~ Item.nodesIn e.before ++ ((e.container.nodes c ++ Item.nodesIn c) ++ Item.nodesIn e.after) :=
        ((e.container.perm_nodes_item c).append_right _).append_left _
    _ ~ Item.nodesIn e.before ++ (e.container.nodes c ++ (Item.nodesIn e.after ++ Item.nodesIn c)) := by
        rw [List.append_assoc]
        exact (List.perm_append_comm.append_left _).append_left _
    _ = Item.nodesIn e.before ++ (e.container.nodes c ++ Item.nodesIn e.after) ++ Item.nodesIn c := by
        simp only [List.append_assoc]

/-- The members of the list one level up do not depend on the list in the container. -/
theorem map_id_fill (e : Enclosure) (c d : List Item) :
    (e.fill c).map Item.id = (e.fill d).map Item.id := by
  rw [fill, fill, List.map_append, List.map_append, List.map_cons, List.map_cons, e.container.id_item c d]

theorem map_id_fill_subset (e : Enclosure) (c : List Item) : (e.fill c).map Item.id ⊆ e.ids := by
  rw [fill, List.map_append, List.map_cons, List.append_subset, List.cons_subset]
  refine ⟨List.Subset.trans (Item.map_id_subset _) e.before_ids_subset, ?_, ?_⟩
  · exact e.container_ids_subset (e.container.id_item_mem_ids c)
  · exact List.Subset.trans (Item.map_id_subset _) e.after_ids_subset

theorem exists_fares (e : Enclosure) (c d : List Item) :
    ∀ n ∈ e.nodes c, ∃ n' ∈ e.nodes d, Node.Fares (some e.container.id) e.ids c d n n' := by
  have hbeside : ∀ is : List Item, Item.idsIn is ⊆ e.ids →
      ∀ n ∈ Item.nodesIn is, Node.Fares (some e.container.id) e.ids c d n n :=
    fun is his n hn => .refl (List.Subset.trans (Item.childIds_subset hn) his)
  intro n hn
  rw [nodes, List.mem_append, List.mem_append] at hn
  simp only [nodes, List.mem_append]
  rcases hn with hn | hn | hn
  · exact ⟨n, Or.inl hn, hbeside _ e.before_ids_subset n hn⟩
  · obtain ⟨n', hn', hfares⟩ := e.container.exists_fares c d n hn
    exact ⟨n', Or.inr (Or.inl hn'), hfares.mono e.container_ids_subset⟩
  · exact ⟨n, Or.inr (Or.inr hn), hbeside _ e.after_ids_subset n hn⟩

theorem editIn?_fill (h : i ∉ e.ids) :
    Item.editIn? i f (e.fill c) = (Item.editIn? i f c).map (·.map e.fill) := by
  have hother : ∀ {is : List Item}, Item.idsIn is ⊆ e.ids → ∀ n ∈ Item.nodesIn is, n.id ≠ i :=
    fun his n hn hid => h (hid ▸ his (List.mem_map_of_mem hn))
  rw [fill, Item.editIn?_between (hother e.before_ids_subset) (hother e.after_ids_subset),
    Container.edit?_item fun hi => h (e.container_ids_subset hi)]
  cases Item.editIn? i f c with
  | none => rfl
  | some r => cases r <;> rfl

theorem editIn?_fill_id (hnodup : e.ids.Nodup) :
    Item.editIn? e.container.id f (e.fill c) = some ((f c).map e.fill) := by
  rw [ids, List.nodup_append] at hnodup
  obtain ⟨-, hrest, hbefore⟩ := hnodup
  obtain ⟨hcontainer, -, hafter⟩ := List.nodup_append.mp hrest
  have hid := e.container.id_mem_ids
  rw [fill, Item.editIn?_between, Container.edit?_item_id hcontainer]
  · cases f c <;> rfl
  · exact fun n hn => hbefore _ (List.mem_map_of_mem hn) _ (List.mem_append_left _ hid)
  · exact fun n hn => (hafter _ hid _ (List.mem_map_of_mem hn)).symm

/-- What is located in the list of the container is located in the list one level up. -/
theorem locationsIn_subset (e : Enclosure) (c : List Item) (parent : Option Id) (index depth : Nat) :
    Item.locationsIn (some e.container.id) 0 (depth + 1) c ⊆
      Item.locationsIn parent index depth (e.fill c) := by
  rw [fill, Item.locationsIn_append, Item.locationsIn]
  refine List.subset_append_of_subset_right _ (List.subset_append_of_subset_left _ ?_)
  cases e.container with
  | choice m h => exact List.subset_cons_self _ _
  | branch o first m g d last =>
    rw [Container.item, Item.locations, Branch.locationsIn_append, Branch.locationsIn]
    refine List.subset_cons_of_subset _ (List.subset_append_of_subset_right _ ?_)
    exact List.subset_append_left _ _

end Enclosure

/-! ### Paths -/

namespace Surroundings

/-- The tree, with a list in the innermost container. -/
def fill : Surroundings → List Item → List Item
  | [], c => c
  | e :: k, c => fill k (e.fill c)

/-- The identity of the innermost container; the root has none. -/
def parent : Surroundings → Option Id
  | [] => none
  | e :: _ => some e.container.id

/-- The nodes of the tree, except those in the list of the innermost container. -/
def nodes : Surroundings → List Item → List Node
  | [], _ => []
  | e :: k, c => nodes k (e.fill c) ++ e.nodes c

/-- The identities of these nodes. -/
def ids : Surroundings → List Id
  | [] => []
  | e :: k => ids k ++ e.ids

variable {k : Surroundings} {c d before after : List Item} {item : Item} {id : Id} {f : ListEdit}

theorem map_id_nodes (k : Surroundings) (c : List Item) : (k.nodes c).map Node.id = k.ids := by
  induction k generalizing c with
  | nil => rfl
  | cons e k ih => rw [nodes, List.map_append, ih, e.map_id_nodes, ids]

theorem mem_ids_of_parent (h : k.parent = some id) : id ∈ k.ids := by
  cases k with
  | nil => cases h
  | cons e k =>
    obtain rfl := Option.some.inj h
    exact List.mem_append_right _ e.id_mem_ids

/-- The nodes of the tree are those of the path and those of the list. -/
theorem perm_nodesIn_fill (k : Surroundings) (c : List Item) :
    (Item.nodesIn (k.fill c)).Perm (k.nodes c ++ Item.nodesIn c) := by
  induction k generalizing c with
  | nil => exact List.Perm.refl _
  | cons e k ih =>
    calc Item.nodesIn (fill k (e.fill c))
      _ ~ nodes k (e.fill c) ++ Item.nodesIn (e.fill c) := ih _
      _ ~ nodes k (e.fill c) ++ (e.nodes c ++ Item.nodesIn c) := (e.perm_nodesIn_fill c).append_left _
      _ = nodes (e :: k) c ++ Item.nodesIn c := by rw [nodes, List.append_assoc]

theorem perm_idsIn_fill (k : Surroundings) (c : List Item) :
    (Item.idsIn (k.fill c)).Perm (k.ids ++ Item.idsIn c) := by
  have hperm := (k.perm_nodesIn_fill c).map Node.id
  rwa [List.map_append, map_id_nodes] at hperm

/-- How the nodes of the path fare when the list changes. -/
theorem exists_fares (k : Surroundings) (c d : List Item) :
    ∀ n ∈ k.nodes c, ∃ n' ∈ k.nodes d, Node.Fares k.parent k.ids c d n n' := by
  induction k generalizing c d with
  | nil => simp [nodes]
  | cons e k ih =>
    intro n hn
    rw [nodes, List.mem_append] at hn
    simp only [nodes, List.mem_append]
    rcases hn with hn | hn
    · obtain ⟨n', hn', hfares⟩ := ih (e.fill c) (e.fill d) n hn
      refine ⟨n', Or.inl hn', ?_⟩
      -- one level up the list has the same members, so its container has the same nodes inside it
      cases hfares with
      | aside hbare hinside hpath =>
        exact .aside hbare hinside (List.subset_append_of_subset_left _ hpath)
      | addressed hbare hid hold hnew =>
        refine .aside hbare ?_ ?_
        · rw [hold, hnew, e.map_id_fill c d]
        · rw [hold]
          exact List.subset_append_of_subset_right _ (e.map_id_fill_subset c)
    · obtain ⟨n', hn', hfares⟩ := e.exists_fares c d n hn
      exact ⟨n', Or.inr hn', hfares.mono (List.subset_append_right _ _)⟩

/-- The members of the root list do not depend on the list of a container. -/
theorem map_id_fill (k : Surroundings) (c d : List Item) : k = [] ∨
    (k.fill c).map Item.id = (k.fill d).map Item.id ∧ (k.fill c).map Item.id ⊆ k.ids := by
  induction k generalizing c d with
  | nil => exact Or.inl rfl
  | cons e k ih =>
    refine Or.inr ?_
    rcases ih (e.fill c) (e.fill d) with rfl | ⟨heq, hsub⟩
    · exact ⟨e.map_id_fill c d, e.map_id_fill_subset c⟩
    · exact ⟨heq, List.subset_append_of_subset_left _ hsub⟩

/-! ### What happens at the end of a path -/

theorem editIn?_fill (h : id ∉ k.ids) :
    Item.editIn? id f (k.fill c) = (Item.editIn? id f c).map (·.map k.fill) := by
  induction k generalizing c with
  | nil =>
    cases hedit : Item.editIn? id f c with
    | none => simp [fill, hedit]
    | some r => cases r <;> simp [fill, hedit, Except.map]
  | cons e k ih =>
    obtain ⟨hk, he⟩ := not_or.mp (List.mem_append.not.mp h)
    rw [fill, ih hk, Enclosure.editIn?_fill he]
    cases Item.editIn? id f c with
    | none => rfl
    | some r => cases r <;> rfl

/-- A change of the list of a container happens at the end of the path. -/
theorem editChildren_fill (hnodup : (Item.idsIn (k.fill c)).Nodup) :
    Item.editChildren (k.fill c) k.parent f = (f c).map k.fill := by
  cases k with
  | nil =>
    change f c = (f c).map id
    cases f c <;> rfl
  | cons e k =>
    have hids : (ids k ++ e.ids ++ Item.idsIn c).Nodup := (perm_idsIn_fill (e :: k) c).nodup_iff.mp hnodup
    obtain ⟨-, he, hdisjoint⟩ := List.nodup_append.mp (List.nodup_append.mp hids).1
    -- the outer path does not have the container, so the search goes on to the innermost enclosure
    have hother : e.container.id ∉ ids k := fun hid => hdisjoint _ hid _ e.id_mem_ids rfl
    have hedit : Item.editIn? e.container.id f (fill k (e.fill c)) = some ((f c).map (fill (e :: k))) := by
      rw [editIn?_fill hother, Enclosure.editIn?_fill_id he]
      cases f c <;> rfl
    rw [parent, Item.editChildren, fill, hedit]

theorem locationsIn_subset (k : Surroundings) (c : List Item) :
    Item.locationsIn k.parent 0 k.length c ⊆ Item.walk (k.fill c) := by
  induction k generalizing c with
  | nil => exact List.Subset.refl _
  | cons e k ih => exact List.Subset.trans (e.locationsIn_subset c _ 0 _) (ih (e.fill c))

/-- What is in the list is located at the end of the path. -/
theorem mem_walk_fill (k : Surroundings) (before : List Item) (item : Item) (after : List Item) :
    ⟨item, k.parent, before.length, k.length⟩ ∈ Item.walk (k.fill (before ++ item :: after)) := by
  refine k.locationsIn_subset _ ?_
  rw [Item.locationsIn_append, Item.locationsIn, Nat.zero_add]
  refine List.mem_append_right _ (List.mem_append_left _ ?_)
  cases item <;> exact List.mem_cons_self

theorem locate?_fill (hnodup : (Item.idsIn (k.fill (before ++ item :: after))).Nodup) :
    Item.locate? (k.fill (before ++ item :: after)) item.id =
      some ⟨item, k.parent, before.length, k.length⟩ :=
  (Item.locate?_eq_some_iff hnodup).mpr ⟨k.mem_walk_fill before item after, rfl⟩

end Surroundings

/-! ### Every container has a path -/

-- The induction goes down into the tree. It takes along the path to the list it is in and the part of that list
-- that is behind it, so that the whole tree stays in sight.
mutual

theorem Item.exists_path_nodes {n : Node} {c : List Item} (hc : n.content? = some c) : ∀ {i : Item},
    n ∈ i.nodes → ∀ (outer : Surroundings) (before after : List Item),
      ∃ k : Surroundings, k.parent = some n.id ∧ k.fill c = outer.fill (before ++ i :: after)
  | .leaf m l, hn, _, _, _ => by
    rw [Item.nodes, List.mem_singleton] at hn
    subst hn
    cases hc
  | .choice m h c', hn, outer, before, after => by
    rw [Item.nodes, List.mem_cons] at hn
    rcases hn with rfl | hn
    · obtain rfl : c' = c := Option.some.inj hc
      exact ⟨⟨before, .choice m h, after⟩ :: outer, rfl, rfl⟩
    · exact Item.exists_path hc hn (⟨before, .choice m h, after⟩ :: outer) []
  | .conditional m bs, hn, outer, before, after => by
    rw [Item.nodes, List.mem_cons] at hn
    rcases hn with rfl | hn
    · cases hc
    · exact Branch.exists_path hc hn outer before m [] after

theorem Branch.exists_path_nodes {n : Node} {c : List Item} (hc : n.content? = some c) : ∀ {b : Branch},
    n ∈ b.nodes → ∀ (outer : Surroundings) (before : List Item) (m : Mark) (first last : List Branch)
      (after : List Item), ∃ k : Surroundings, k.parent = some n.id ∧
        k.fill c = outer.fill (before ++ .conditional m (first ++ b :: last) :: after)
  | .mk o g d c', hn, outer, before, m, first, last, after => by
    rw [Branch.nodes, List.mem_cons] at hn
    rcases hn with rfl | hn
    · obtain rfl : c' = c := Option.some.inj hc
      exact ⟨⟨before, .branch m first o g d last, after⟩ :: outer, rfl, rfl⟩
    · exact Item.exists_path hc hn (⟨before, .branch m first o g d last, after⟩ :: outer) []

/-- The path to a container somewhere in the rest of a list, behind the items `before` of the list. -/
theorem Item.exists_path {n : Node} {c : List Item} (hc : n.content? = some c) : ∀ {is : List Item},
    n ∈ Item.nodesIn is → ∀ (outer : Surroundings) (before : List Item),
      ∃ k : Surroundings, k.parent = some n.id ∧ k.fill c = outer.fill (before ++ is)
  | [], hn, _, _ => by simp [Item.nodesIn] at hn
  | i :: is, hn, outer, before => by
    rw [Item.nodesIn, List.mem_append] at hn
    rcases hn with hn | hn
    · exact Item.exists_path_nodes hc hn outer before is
    · have hrest := Item.exists_path hc hn outer (before ++ [i])
      rwa [List.append_assoc, List.singleton_append] at hrest

theorem Branch.exists_path {n : Node} {c : List Item} (hc : n.content? = some c) : ∀ {bs : List Branch},
    n ∈ Branch.nodesIn bs → ∀ (outer : Surroundings) (before : List Item) (m : Mark)
      (first : List Branch) (after : List Item), ∃ k : Surroundings, k.parent = some n.id ∧
        k.fill c = outer.fill (before ++ .conditional m (first ++ bs) :: after)
  | [], hn, _, _, _, _, _ => by simp [Branch.nodesIn] at hn
  | b :: bs, hn, outer, before, m, first, after => by
    rw [Branch.nodesIn, List.mem_append] at hn
    rcases hn with hn | hn
    · exact Branch.exists_path_nodes hc hn outer before m first bs after
    · have hrest := Branch.exists_path hc hn outer before m (first ++ [b]) after
      rwa [List.append_assoc, List.singleton_append] at hrest

end

namespace Item

variable {items c : List Item} {parent : Option Id}

/-- Every container of a tree has a path to the root. -/
theorem exists_surroundings (h : IsLevel items parent c) :
    ∃ k : Surroundings, k.parent = parent ∧ k.fill c = items := by
  cases h with
  | root => exact ⟨[], rfl, rfl⟩
  | node hn hc => exact exists_path hc hn [] []

/-- A change is refused just if there is no such container, or if the list refuses it. -/
theorem editChildren_of_not_isLevel {id : Id} (h : ∀ c, ¬ IsLevel items (some id) c) (f : ListEdit) :
    editChildren items (some id) f = .error (containerError items id) := by
  have hnone : editIn? id f items = none := by
    refine editIn?_eq_none fun n hn hid => ?_
    by_contra hsome
    obtain ⟨c, hc⟩ := Option.ne_none_iff_exists'.mp hsome
    exact h c (hid ▸ .node hn hc)
  rw [editChildren, hnone]

theorem exists_isLevel_of_editChildren {f : ListEdit} {result : List Item}
    (h : editChildren items parent f = .ok result) : ∃ c, IsLevel items parent c := by
  cases parent with
  | none => exact ⟨items, .root⟩
  | some id =>
    by_contra hno
    rw [editChildren_of_not_isLevel (not_exists.mp hno)] at h
    cases h

/-- A change is refused in the same words, or by the list itself. -/
theorem editChildren_eq_error_iff {f : ListEdit} {e : EditError} (hnodup : (idsIn items).Nodup) :
    editChildren items parent f = .error e ↔
      NoLevel items parent e ∨ ∃ c, IsLevel items parent c ∧ f c = .error e := by
  by_cases h : ∃ c, IsLevel items parent c
  · obtain ⟨c, hc⟩ := h
    have hlist : editChildren items parent f = .error e ↔ f c = .error e := by
      obtain ⟨k, rfl, rfl⟩ := exists_surroundings hc
      rw [Surroundings.editChildren_fill hnodup]
      cases f c <;> simp [Except.map]
    rw [hlist, or_iff_right hc.not_noLevel]
    constructor
    · exact fun h => ⟨c, hc, h⟩
    · rintro ⟨c', hc', h⟩
      rwa [hc.unique hnodup hc']
  · have hnone : ¬ ∃ c, IsLevel items parent c ∧ f c = .error e := fun ⟨c, hc, _⟩ => h ⟨c, hc⟩
    rw [not_exists] at h
    cases parent with
    | none => exact absurd .root (h items)
    | some id => rw [editChildren_of_not_isLevel h, or_iff_left hnone, noLevel_iff h, Except.error.injEq]

/-- An item in the list of a container cuts the list in two. -/
theorem exists_fill_of_isLevel {level : List Item} {n : Nat} {item : Item} (h : IsLevel items parent level)
    (hitem : level[n]? = some item) : ∃ (k : Surroundings) (before after : List Item), k.parent = parent ∧
      before.length = n ∧ items = k.fill (before ++ item :: after) := by
  obtain ⟨k, hparent, rfl⟩ := exists_surroundings h
  obtain ⟨hlt, hget⟩ := List.getElem?_eq_some_iff.mp hitem
  refine ⟨k, level.take n, level.drop (n + 1), hparent, ?_, ?_⟩
  · exact List.length_take_of_le (Nat.le_of_lt hlt)
  · rw [← hget, ← List.drop_eq_getElem_cons hlt, List.take_append_drop]

/-- Where an item is found there is a path to its list. -/
theorem exists_fill_of_locate? {id : Id} {found : Location} (h : locate? items id = some found) :
    ∃ (k : Surroundings) (before after : List Item), k.parent = found.parent ∧
      before.length = found.index ∧ items = k.fill (before ++ found.item :: after) := by
  obtain ⟨level, hlevel, hitem⟩ := exists_isLevel_of_locate? h
  exact exists_fill_of_isLevel hlevel hitem

/-- The walk passes every item of the list of a container. -/
theorem exists_mem_walk_of_isLevel {level : List Item} {n : Nat} {item : Item} (h : IsLevel items parent level)
    (hitem : level[n]? = some item) : ∃ depth, ⟨item, parent, n, depth⟩ ∈ walk items := by
  obtain ⟨k, before, after, rfl, rfl, rfl⟩ := exists_fill_of_isLevel h hitem
  exact ⟨k.length, k.mem_walk_fill before item after⟩

end Item

end StoryScript
