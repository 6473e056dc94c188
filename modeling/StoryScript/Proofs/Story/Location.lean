import StoryScript.Proofs.Story.Identities
import StoryScript.Proofs.Story.Nodes
import Mathlib.Data.List.Flatten
import Mathlib.Data.List.Pairwise

/-!
# Finding items and containers

A tree is searched for an item (`Item.locate?`), for an item or a branch (`Item.locateContainer?`), and for the
list of a container (`Item.contentOf?`). Each search walks the same locations and stops at the first hit, but
what counts as a hit differs. Where no two nodes share an identity the order of the walk does not matter, and
all of them find what is there:

* every node is shown by exactly one location, its own or that of the conditional it is a branch of
  (`Item.mem_nodesIn_iff_walk`, `Item.location_unique`);
* so an item is located just where the walk passes it (`Item.locate?_eq_some_iff`), a container where the walk
  passes the item that shows it (`Item.locateContainer?_eq_some_iff`), and the list that is found for an identity
  is the list of the container with it (`Item.level_eq_ok_iff`); where there is no such container, what is said
  tells a node that holds no list from no node at all (`Item.level_eq_error_iff`).

That a branch is shown only once rests on `Item.perm_children`: every node is a member of the root list or
directly inside one node.
-/

namespace StoryScript

/-! ### Every node has one place -/

mutual

theorem Item.perm_children_nodes : ∀ (i : Item), i.nodes.Perm (.item i :: i.nodes.flatMap Node.children)
  | .leaf m l => List.Perm.refl _
  | .choice m h c => by
    rw [Item.nodes, List.flatMap_cons]
    exact (Item.perm_children c).cons _
  | .conditional m bs => by
    rw [Item.nodes, List.flatMap_cons]
    exact (Branch.perm_children bs).cons _

theorem Branch.perm_children_nodes : ∀ (b : Branch),
    b.nodes.Perm (.branch b :: b.nodes.flatMap Node.children)
  | .mk m g d c => by
    rw [Branch.nodes, List.flatMap_cons]
    exact (Item.perm_children c).cons _

/-- The nodes of a list are its members and the nodes directly inside one of its nodes. -/
theorem Item.perm_children : ∀ (is : List Item),
    (Item.nodesIn is).Perm (is.map .item ++ (Item.nodesIn is).flatMap Node.children)
  | [] => List.Perm.refl _
  | i :: is => by
    rw [Item.nodesIn, List.flatMap_append, List.map_cons]
    refine ((Item.perm_children_nodes i).append (Item.perm_children is)).trans ?_
    rw [List.cons_append, List.cons_append]
    refine List.Perm.cons _ ?_
    -- the members of the rest come in front of what is inside the first one
    rw [← List.append_assoc, ← List.append_assoc]
    exact List.perm_append_comm.append_right _

theorem Branch.perm_children : ∀ (bs : List Branch),
    (Branch.nodesIn bs).Perm (bs.map .branch ++ (Branch.nodesIn bs).flatMap Node.children)
  | [] => List.Perm.refl _
  | b :: bs => by
    rw [Branch.nodesIn, List.flatMap_append, List.map_cons]
    refine ((Branch.perm_children_nodes b).append (Branch.perm_children bs)).trans ?_
    rw [List.cons_append, List.cons_append]
    refine List.Perm.cons _ ?_
    rw [← List.append_assoc, ← List.append_assoc]
    exact List.perm_append_comm.append_right _

end

/-- No node is directly inside two nodes. -/
theorem Item.children_unique {items : List Item} (hnodup : (Item.idsIn items).Nodup) {n m x : Node}
    (hn : n ∈ Item.nodesIn items) (hm : m ∈ Item.nodesIn items) (hxn : x ∈ n.children)
    (hxm : x ∈ m.children) : n = m := by
  have hnodes : (Item.nodesIn items).Nodup := List.Nodup.of_map _ hnodup
  have hall := (Item.perm_children items).nodup_iff.mp hnodes
  -- what is inside the nodes, one node after the other, has no repetition either
  have hinside := (List.nodup_append.mp hall).2.1
  have hsymm : Std.Symm (Function.onFun List.Disjoint Node.children) :=
    ⟨fun _ _ h _ ha hb => h hb ha⟩
  by_contra hne
  exact (List.nodup_flatMap.mp hinside).2.forall hn hm hne hxn hxm

/-! ### What a location shows -/

/-- The nodes that are found at a location: the item, and its branches if it is a conditional. -/
def Location.nodes (l : Location) : List Node := .item l.item :: l.item.branches.map .branch

/-- The answer at a location when the list of a container is asked for. -/
def Location.contentOf? (l : Location) (id : Id) : Option (Option (List Item)) :=
  if l.item.id = id then
    match l.item with
    | .choice _ _ content => some (some content)
    | _ => some none
  else (l.item.branches.find? (·.id = id)).map fun b => some b.content

/-- The answer is the list of a node that is shown. -/
theorem Location.exists_of_contentOf? {l : Location} {id : Id} {r : Option (List Item)}
    (h : l.contentOf? id = some r) : ∃ n ∈ l.nodes, n.id = id ∧ n.content? = r := by
  unfold Location.contentOf? at h
  split at h
  · next hid =>
    refine ⟨.item l.item, List.mem_cons_self, hid, ?_⟩
    cases hi : l.item with
    | choice m hd c => simpa [hi, Node.content?] using h
    | _ => simpa [hi, Node.content?] using h
  · obtain ⟨b, hb, rfl⟩ := Option.map_eq_some_iff.mp h
    have hid := List.find?_some hb
    refine ⟨.branch b, ?_, of_decide_eq_true hid, ?_⟩
    · exact List.mem_cons_of_mem _ (List.mem_map_of_mem (List.mem_of_find?_eq_some hb))
    · cases b
      rfl

theorem Location.isSome_contentOf? {l : Location} {n : Node} (hn : n ∈ l.nodes) :
    (l.contentOf? n.id).isSome = true := by
  unfold Location.contentOf?
  split
  · split <;> rfl
  · next hid =>
    rcases List.mem_cons.mp hn with rfl | hn
    · exact absurd rfl hid
    · obtain ⟨b, hb, rfl⟩ := List.mem_map.mp hn
      rw [Option.isSome_map, List.find?_isSome]
      exact ⟨b, hb, decide_eq_true rfl⟩

/-- The branches that a location shows are directly inside its item. -/
theorem Location.children_of_branches (l : Location) {n : Node}
    (h : n ∈ l.item.branches.map .branch) : n ∈ (Node.item l.item).children := by
  cases hi : l.item with
  | conditional m bs => simpa [hi, Item.branches, Node.children] using h
  | _ => simp [hi, Item.branches] at h

mutual

theorem Item.map_item_locations {parent : Option Id} {index depth : Nat} : ∀ (i : Item),
    (i.locations parent index depth).map Location.item = i.nodes.filterMap Node.item?
  | .leaf m l => rfl
  | .choice m h c => by
    rw [Item.locations, Item.nodes, List.map_cons, Item.map_item_locationsIn c]
    rfl
  | .conditional m bs => by
    rw [Item.locations, Item.nodes, List.map_cons, Branch.map_item_locationsIn bs]
    rfl

theorem Branch.map_item_locations {depth : Nat} : ∀ (b : Branch),
    (b.locations depth).map Location.item = b.nodes.filterMap Node.item?
  | .mk m g d c => by
    rw [Branch.locations, Branch.nodes, Item.map_item_locationsIn c]
    rfl

theorem Item.map_item_locationsIn {parent : Option Id} {index depth : Nat} : ∀ (is : List Item),
    (Item.locationsIn parent index depth is).map Location.item = Item.itemsIn is
  | [] => rfl
  | i :: is => by
    rw [Item.locationsIn, Item.itemsIn, Item.nodesIn, List.map_append, List.filterMap_append,
      Item.map_item_locations i, Item.map_item_locationsIn is, Item.itemsIn]

theorem Branch.map_item_locationsIn {depth : Nat} : ∀ (bs : List Branch),
    (Branch.locationsIn depth bs).map Location.item = (Branch.nodesIn bs).filterMap Node.item?
  | [] => rfl
  | b :: bs => by
    rw [Branch.locationsIn, Branch.nodesIn, List.map_append, List.filterMap_append,
      Branch.map_item_locations b, Branch.map_item_locationsIn bs]

end

mutual

theorem Item.exists_conditional_nodes {b : Branch} : ∀ {i : Item}, .branch b ∈ i.nodes →
    ∃ m bs, .item (.conditional m bs) ∈ i.nodes ∧ b ∈ bs
  | .leaf m l, h => by simp [Item.nodes] at h
  | .choice m hd c, h => by
    rw [Item.nodes, List.mem_cons] at h
    obtain ⟨m', bs, hmem, hb⟩ := Item.exists_conditional (h.resolve_left (by simp))
    exact ⟨m', bs, List.mem_cons_of_mem _ hmem, hb⟩
  | .conditional m bs, h => by
    rw [Item.nodes, List.mem_cons] at h
    rcases Branch.exists_conditional (h.resolve_left (by simp)) with hb | ⟨m', bs', hmem, hb⟩
    · exact ⟨m, bs, List.mem_cons_self, hb⟩
    · exact ⟨m', bs', List.mem_cons_of_mem _ hmem, hb⟩

theorem Branch.exists_conditional_nodes {b : Branch} : ∀ {b' : Branch}, .branch b ∈ b'.nodes →
    b = b' ∨ ∃ m bs, .item (.conditional m bs) ∈ b'.nodes ∧ b ∈ bs
  | .mk m g d c, h => by
    rw [Branch.nodes, List.mem_cons] at h
    rcases h with h | h
    · exact Or.inl (by simpa using h)
    · obtain ⟨m', bs, hmem, hb⟩ := Item.exists_conditional h
      exact Or.inr ⟨m', bs, List.mem_cons_of_mem _ hmem, hb⟩

/-- A branch among the nodes of a list belongs to a conditional among them. -/
theorem Item.exists_conditional {b : Branch} : ∀ {is : List Item}, .branch b ∈ Item.nodesIn is →
    ∃ m bs, .item (.conditional m bs) ∈ Item.nodesIn is ∧ b ∈ bs
  | [], h => by simp [Item.nodesIn] at h
  | i :: is, h => by
    rw [Item.nodesIn, List.mem_append] at h
    rcases h with h | h
    · obtain ⟨m, bs, hmem, hb⟩ := Item.exists_conditional_nodes h
      exact ⟨m, bs, List.mem_append_left _ hmem, hb⟩
    · obtain ⟨m, bs, hmem, hb⟩ := Item.exists_conditional h
      exact ⟨m, bs, List.mem_append_right _ hmem, hb⟩

theorem Branch.exists_conditional {b : Branch} : ∀ {bs : List Branch}, .branch b ∈ Branch.nodesIn bs →
    b ∈ bs ∨ ∃ m cs, .item (.conditional m cs) ∈ Branch.nodesIn bs ∧ b ∈ cs
  | [], h => by simp [Branch.nodesIn] at h
  | b' :: bs, h => by
    rw [Branch.nodesIn, List.mem_append] at h
    rcases h with h | h
    · rcases Branch.exists_conditional_nodes h with rfl | ⟨m, cs, hmem, hb⟩
      · exact Or.inl List.mem_cons_self
      · exact Or.inr ⟨m, cs, List.mem_append_left _ hmem, hb⟩
    · rcases Branch.exists_conditional h with hb | ⟨m, cs, hmem, hb⟩
      · exact Or.inl (List.mem_cons_of_mem _ hb)
      · exact Or.inr ⟨m, cs, List.mem_append_right _ hmem, hb⟩

end

namespace Item

variable {items c : List Item} {id : Id} {l l' : Location} {n : Node}

theorem map_item_walk (items : List Item) : (walk items).map Location.item = itemsIn items :=
  map_item_locationsIn items

theorem item_mem_nodesIn_iff {i : Item} : .item i ∈ nodesIn items ↔ ∃ l ∈ walk items, l.item = i := by
  rw [← List.mem_map, map_item_walk, mem_itemsIn]

/-- Every node is shown by some location, and whatever a location shows is a node. -/
theorem mem_nodesIn_iff_walk : n ∈ nodesIn items ↔ ∃ l ∈ walk items, n ∈ l.nodes := by
  constructor
  · intro hn
    cases n with
    | item i =>
      obtain ⟨l, hl, rfl⟩ := item_mem_nodesIn_iff.mp hn
      exact ⟨l, hl, List.mem_cons_self⟩
    | branch b =>
      obtain ⟨m, bs, hmem, hb⟩ := exists_conditional hn
      obtain ⟨l, hl, hitem⟩ := item_mem_nodesIn_iff.mp hmem
      refine ⟨l, hl, List.mem_cons_of_mem _ ?_⟩
      rw [hitem]
      exact List.mem_map_of_mem hb
  · rintro ⟨l, hl, hn⟩
    have hitem : .item l.item ∈ nodesIn items := item_mem_nodesIn_iff.mpr ⟨l, hl, rfl⟩
    rcases List.mem_cons.mp hn with rfl | hn
    · exact hitem
    · exact children_subset_nodesIn items _ hitem (l.children_of_branches hn)

/-- Items are nodes, in the same order. -/
theorem sublist_map_id_item? (ns : List Node) :
    ((ns.filterMap Node.item?).map Item.id).Sublist (ns.map Node.id) := by
  induction ns with
  | nil => exact .slnil
  | cons n ns ih =>
    cases n with
    | item i =>
      exact ih.cons_cons i.id
    | branch b =>
      exact ih.cons b.id

theorem nodup_walk (hnodup : (idsIn items).Nodup) : ((walk items).map (·.item.id)).Nodup := by
  have hmap : (walk items).map (·.item.id) = (itemsIn items).map Item.id := by
    rw [← map_item_walk, List.map_map]
    rfl
  rw [hmap]
  exact hnodup.sublist (sublist_map_id_item? _)

/-- Each node is shown by one location. -/
theorem location_unique (hnodup : (idsIn items).Nodup) (hl : l ∈ walk items) (hl' : l' ∈ walk items)
    (hn : n ∈ l.nodes) (hn' : n ∈ l'.nodes) : l = l' := by
  have hitem : .item l.item ∈ nodesIn items := item_mem_nodesIn_iff.mpr ⟨l, hl, rfl⟩
  have hitem' : .item l'.item ∈ nodesIn items := item_mem_nodesIn_iff.mpr ⟨l', hl', rfl⟩
  have heq : Node.item l.item = .item l'.item := by
    rcases List.mem_cons.mp hn with rfl | hb
    · rcases List.mem_cons.mp hn' with hi | hi
      · exact hi
      · obtain ⟨b, -, hb⟩ := List.mem_map.mp hi
        cases hb
    · rcases List.mem_cons.mp hn' with rfl | hb'
      · obtain ⟨b, -, hb⟩ := List.mem_map.mp hb
        cases hb
      -- a branch is directly inside one conditional only
      · exact children_unique hnodup hitem hitem' (l.children_of_branches hb)
          (l'.children_of_branches hb')
  exact List.inj_on_of_nodup_map (nodup_walk hnodup) hl hl' (congrArg Node.id heq)

/-! ### The searches -/

/-- A search stops at the location that shows the node with an identity, whatever else it passes. -/
theorem find?_walk_eq_some (hnodup : (idsIn items).Nodup) {p : Location → Bool}
    (hp : ∀ l ∈ walk items, p l = true → ∃ n ∈ l.nodes, n.id = id) (hl : l ∈ walk items) (h : p l = true) :
    (walk items).find? p = some l := by
  cases hfind : (walk items).find? p with
  | none => exact absurd h (by simpa using List.find?_eq_none.mp hfind l hl)
  | some l' =>
    have hl' := List.mem_of_find?_eq_some hfind
    obtain ⟨n, hn, hid⟩ := hp l hl h
    obtain ⟨n', hn', hid'⟩ := hp l' hl' (List.find?_some hfind)
    have hsame : n' = n := List.inj_on_of_nodup_map hnodup (mem_nodesIn_iff_walk.mpr ⟨l', hl', hn'⟩)
      (mem_nodesIn_iff_walk.mpr ⟨l, hl, hn⟩) (hid'.trans hid.symm)
    rw [location_unique hnodup hl' hl (hsame ▸ hn') hn]

theorem locate?_eq_some_iff (hnodup : (idsIn items).Nodup) :
    locate? items id = some l ↔ l ∈ walk items ∧ l.item.id = id := by
  constructor
  · exact fun h => ⟨List.mem_of_find?_eq_some h, id_of_locate? h⟩
  · rintro ⟨hl, hid⟩
    have hshows : ∀ l ∈ walk items, decide (l.item.id = id) = true → ∃ n ∈ l.nodes, n.id = id :=
      fun l _ h => ⟨.item l.item, List.mem_cons_self, of_decide_eq_true h⟩
    exact find?_walk_eq_some hnodup hshows hl (decide_eq_true hid)

theorem isSome_locate?_iff : (locate? items id).isSome = true ↔ ∃ l ∈ walk items, l.item.id = id := by
  simp only [locate?, List.find?_isSome, decide_eq_true_eq]

/-- The container with an identity is found where the walk passes the item that shows it. -/
theorem locateContainer?_eq_some_iff (hnodup : (idsIn items).Nodup) :
    locateContainer? items id = some l ↔ l ∈ walk items ∧ ∃ n ∈ l.nodes, n.id = id := by
  have hshows : ∀ l : Location, (l.item.id = id || l.item.branches.any (·.id = id)) = true ↔
      ∃ n ∈ l.nodes, n.id = id := by
    intro l
    simp only [Bool.or_eq_true, decide_eq_true_eq, List.any_eq_true, Location.nodes,
      List.exists_mem_cons_iff, List.mem_map, exists_exists_and_eq_and]
    exact Iff.rfl
  constructor
  · intro h
    have hfound := List.find?_some h
    exact ⟨List.mem_of_find?_eq_some h, (hshows l).mp hfound⟩
  · rintro ⟨hl, hn⟩
    exact find?_walk_eq_some hnodup (fun l _ => (hshows l).mp) hl ((hshows l).mpr hn)

/-! ### The list of a container -/

theorem contentOf?_eq (items : List Item) (id : Id) :
    contentOf? items id = ((walk items).findSome? (·.contentOf? id)).join := rfl

/-- The list that is found for the identity of a node is the list of the node. -/
theorem contentOf?_of_mem (hnodup : (idsIn items).Nodup) (hn : n ∈ nodesIn items) :
    contentOf? items n.id = n.content? := by
  rw [contentOf?_eq]
  obtain ⟨l, hl, hshown⟩ := mem_nodesIn_iff_walk.mp hn
  cases hfind : (walk items).findSome? (·.contentOf? n.id) with
  | none =>
    have hnone := List.findSome?_eq_none_iff.mp hfind l hl
    have hsome := Location.isSome_contentOf? hshown
    rw [hnone] at hsome
    cases hsome
  | some r =>
    obtain ⟨l', hl', hr⟩ := List.exists_of_findSome?_eq_some hfind
    obtain ⟨n', hn', hid, hcontent⟩ := Location.exists_of_contentOf? hr
    have hsame : n' = n :=
      List.inj_on_of_nodup_map hnodup (mem_nodesIn_iff_walk.mpr ⟨l', hl', hn'⟩) hn hid
    rw [← hcontent, hsame, Option.join_some]

theorem contentOf?_of_not_mem (h : id ∉ idsIn items) : contentOf? items id = none := by
  rw [contentOf?_eq]
  have hnone : (walk items).findSome? (·.contentOf? id) = none := by
    rw [List.findSome?_eq_none_iff]
    intro l hl
    by_contra hsome
    obtain ⟨r, hr⟩ := Option.ne_none_iff_exists'.mp hsome
    obtain ⟨n, hn, rfl, -⟩ := Location.exists_of_contentOf? hr
    exact h (List.mem_map_of_mem (mem_nodesIn_iff_walk.mpr ⟨l, hl, hn⟩))
  rw [hnone, Option.join_none]

/-- The search for a list finds the list of the container, if there is one, and nothing else. -/
theorem level_eq_ok_iff (hnodup : (idsIn items).Nodup) {parent : Option Id} :
    level items parent = .ok c ↔ IsLevel items parent c := by
  cases parent with
  | none =>
    rw [level]
    constructor
    · exact fun h => Except.ok.inj h ▸ .root
    · rintro ⟨⟩
      rfl
  | some id =>
    have hcontent : level items (some id) = .ok c ↔ contentOf? items id = some c := by
      rw [level]
      split <;> simp [*]
    rw [hcontent]
    constructor
    · intro h
      by_cases hid : id ∈ idsIn items
      · obtain ⟨n, hn, rfl⟩ := List.mem_map.mp hid
        exact .node hn (contentOf?_of_mem hnodup hn ▸ h)
      · rw [contentOf?_of_not_mem hid] at h
        cases h
    · rintro (_ | ⟨hn, hc⟩)
      rw [contentOf?_of_mem hnodup hn, hc]

/-- An identity that no container has: the error says whether it is that of another item or of nothing. -/
theorem containerError_eq (h : ∀ c, ¬ IsLevel items (some id) c) :
    containerError items id = if id ∈ idsIn items then .notAContainer id else .itemNotFound id := by
  have hlocated : (locate? items id).isSome = true ↔ id ∈ idsIn items := by
    rw [isSome_locate?_iff]
    constructor
    · rintro ⟨l, hl, rfl⟩
      exact List.mem_map.mpr ⟨_, item_mem_nodesIn_iff.mpr ⟨l, hl, rfl⟩, rfl⟩
    · intro hid
      obtain ⟨n, hn, rfl⟩ := List.mem_map.mp hid
      -- a branch would be a container, so the node is an item
      cases n with
      | branch b =>
        cases b
        exact absurd (.node hn rfl) (h _)
      | item i =>
        obtain ⟨l, hl, rfl⟩ := item_mem_nodesIn_iff.mp hn
        exact ⟨l, hl, rfl⟩
  unfold containerError
  by_cases hid : id ∈ idsIn items
  · rw [if_pos hid, if_neg]
    rw [Option.isNone_iff_eq_none, ← ne_eq, ← Option.isSome_iff_ne_none]
    exact hlocated.mpr hid
  · rw [if_neg hid, if_pos]
    rw [← Option.not_isSome, Bool.not_eq_true', ← Bool.not_eq_true]
    exact hlocated.not.mpr hid

/-- What is said of a parent that has no list: that there is no such node, or that it is no container. -/
inductive NoLevel (items : List Item) : Option Id → EditError → Prop
  | unknown {id : Id} (h : id ∉ idsIn items) : NoLevel items (some id) (.itemNotFound id)
  | closed {id : Id} (h : id ∈ idsIn items) (hno : ∀ c, ¬ IsLevel items (some id) c) :
      NoLevel items (some id) (.notAContainer id)

variable {parent : Option Id} {e : EditError}

/-- There is a list or there is something to say. -/
theorem IsLevel.not_noLevel (h : IsLevel items parent c) : ¬ NoLevel items parent e := by
  rintro (hunknown | ⟨-, hno⟩)
  · cases h with
    | node hn hc => exact hunknown (List.mem_map_of_mem hn)
  · exact hno c h

theorem noLevel_iff (hno : ∀ c, ¬ IsLevel items (some id) c) :
    NoLevel items (some id) e ↔ containerError items id = e := by
  rw [containerError_eq hno]
  constructor
  · rintro (h | ⟨h, -⟩)
    · exact if_neg h
    · exact if_pos h
  · rintro rfl
    split
    · next h => exact .closed h hno
    · next h => exact .unknown h

theorem level_of_not_isLevel (hnodup : (idsIn items).Nodup)
    (hno : ∀ c, ¬ IsLevel items (some id) c) : level items (some id) = .error (containerError items id) := by
  cases hlevel : level items (some id) with
  | ok c => exact absurd ((level_eq_ok_iff hnodup).mp hlevel) (hno c)
  | error e =>
    rw [level] at hlevel
    split at hlevel
    · cases hlevel
    · exact hlevel.symm

/-- The search for a list says which kind of parent has none. -/
theorem level_eq_error_iff (hnodup : (idsIn items).Nodup) :
    level items parent = .error e ↔ NoLevel items parent e := by
  by_cases h : ∃ c, IsLevel items parent c
  · obtain ⟨c, hc⟩ := h
    rw [(level_eq_ok_iff hnodup).mpr hc]
    exact iff_of_false nofun hc.not_noLevel
  · rw [not_exists] at h
    cases parent with
    | none => exact absurd .root (h items)
    | some id => rw [level_of_not_isLevel hnodup h, noLevel_iff h, Except.error.injEq]

end Item

end StoryScript
