import StoryScript.Proofs.Story.Surroundings

/-!
# Edits are local

An edit of a tree takes the nodes of one item out of the list of a container, or puts the nodes of one in, or both.
Nothing else changes (`Item.AgreeOutside`): every other node keeps its own fields, and every container but the one
that is edited keeps the nodes directly inside it, in their order.

Both trees are one path filled with two lists (`Surroundings`), so locality is a fact about paths
(`Surroundings.agreeOutside`), and so is the effect of each edit: an insertion and a deletion at the end of a path
(`Surroundings.insert_fill`, `Surroundings.delete_fill`) undo each other. What the edits do to a tree is then a
matter of finding the path (`Item.edits_local`).
-/

namespace StoryScript

/-- The nodes directly inside a container before and after an edit, which loses some nodes and wins others: the
rest stays in order, and nothing changes in a container that is not touched. -/
structure ChildrenKept (touched : List (Option Id)) (lost won : List Id) (parent : Option Id)
    (old new : List Id) : Prop where
  same : parent ∉ touched → new = old
  order : new.filter (· ∉ won) = old.filter (· ∉ lost)

/-- Two trees that differ by the nodes that one of them lost and the other one won, and otherwise only in the
lists of the containers that are touched. -/
structure Item.AgreeOutside (touched : List (Option Id)) (lost won : List Id) (items result : List Item) :
    Prop where
  /-- The members of the root list. -/
  root : ChildrenKept touched lost won none (items.map Item.id) (result.map Item.id)
  /-- Every node that is not lost is still there, with its own fields and what is directly inside it. -/
  kept : ∀ n ∈ Item.nodesIn items, n.id ∉ lost → ∃ n' ∈ Item.nodesIn result, n'.id ∉ won ∧
    n'.bare = n.bare ∧ ChildrenKept touched lost won (some n.id) n.childIds n'.childIds
  /-- Every node that is not won was there before. -/
  only : ∀ n' ∈ Item.nodesIn result, n'.id ∉ won → ∃ n ∈ Item.nodesIn items, n.id ∉ lost ∧
    n'.bare = n.bare ∧ ChildrenKept touched lost won (some n.id) n.childIds n'.childIds

namespace ChildrenKept

variable {touched touched' : List (Option Id)} {lost won ids : List Id} {parent : Option Id}

/-- A list without any node that is lost or won. -/
theorem of_apart (hlost : ∀ i ∈ ids, i ∉ lost) (hwon : ∀ i ∈ ids, i ∉ won) :
    ChildrenKept touched lost won parent ids ids where
  same _ := rfl
  order := by
    rw [List.filter_eq_self.mpr fun i hi => decide_eq_true (hwon i hi),
      List.filter_eq_self.mpr fun i hi => decide_eq_true (hlost i hi)]

/-- The edit backwards. -/
theorem symm {old new : List Id} (h : ChildrenKept touched lost won parent old new) :
    ChildrenKept touched won lost parent new old where
  same hparent := (h.same hparent).symm
  order := h.order.symm

/-- Losing some nodes first and winning others afterwards. -/
theorem trans {old middle new : List Id} (h : ChildrenKept touched lost [] parent old middle)
    (h' : ChildrenKept touched' [] won parent middle new) :
    ChildrenKept (touched ++ touched') lost won parent old new where
  same hparent := by
    obtain ⟨htouched, htouched'⟩ := not_or.mp (List.mem_append.not.mp hparent)
    rw [h'.same htouched', h.same htouched]
  order := by
    have hall : ∀ ids : List Id, ids.filter (· ∉ ([] : List Id)) = ids := fun ids => by simp
    calc new.filter (· ∉ won) = middle.filter (· ∉ ([] : List Id)) := h'.order
      _ = middle := hall middle
      _ = middle.filter (· ∉ ([] : List Id)) := (hall middle).symm
      _ = old.filter (· ∉ lost) := h.order

end ChildrenKept

/-- A deletion and an insertion, one after the other. -/
theorem Item.AgreeOutside.trans {touched touched' : List (Option Id)} {lost won : List Id}
    {items rest result : List Item} (h : Item.AgreeOutside touched lost [] items rest)
    (h' : Item.AgreeOutside touched' [] won rest result) :
    Item.AgreeOutside (touched ++ touched') lost won items result where
  root := h.root.trans h'.root
  kept n hn hlost := by
    obtain ⟨m, hm, -, hbare, hinside⟩ := h.kept n hn hlost
    obtain ⟨n', hn', hwon, hbare', hinside'⟩ := h'.kept m hm List.not_mem_nil
    rw [Node.id_eq_of_bare_eq hbare] at hinside'
    exact ⟨n', hn', hwon, hbare'.trans hbare, hinside.trans hinside'⟩
  only n' hn' hwon := by
    obtain ⟨m, hm, -, hbare', hinside'⟩ := h'.only n' hn' hwon
    obtain ⟨n, hn, hlost, hbare, hinside⟩ := h.only m hm List.not_mem_nil
    rw [Node.id_eq_of_bare_eq hbare] at hinside'
    exact ⟨n, hn, hlost, hbare'.trans hbare, hinside.trans hinside'⟩

/-! ### Part of a list in its surroundings -/

namespace Surroundings

variable {k : Surroundings} {before part old new after : List Item} {item : Item}
  {touched : List (Option Id)}

/-- The identities of a tree, part by part. -/
theorem perm_idsIn_part (k : Surroundings) (before part after : List Item) :
    (Item.idsIn (k.fill (before ++ (part ++ after)))).Perm
      ((k.ids ++ (Item.idsIn before ++ Item.idsIn after)) ++ Item.idsIn part) := by
  refine (k.perm_idsIn_fill _).trans ?_
  rw [Item.idsIn_append, Item.idsIn_append, List.append_assoc, List.append_assoc]
  exact (List.perm_append_comm.append_left _).append_left _

/-- What is around a part of a list is apart from it. -/
theorem apart_of_nodup (k : Surroundings) (before part after : List Item)
    (h : (Item.idsIn (k.fill (before ++ (part ++ after)))).Nodup) :
    ∀ i ∈ k.ids ++ (Item.idsIn before ++ Item.idsIn after), i ∉ Item.idsIn part := by
  have hparts := (k.perm_idsIn_part before part after).nodup_iff.mp h
  intro i hi hpart
  exact (List.nodup_append.mp hparts).2.2 i hi i hpart rfl

/-- The members of the list, when one part is exchanged for another one. -/
theorem childrenKept_level {parent : Option Id}
    (hold : ∀ i ∈ Item.idsIn before ++ Item.idsIn after, i ∉ Item.idsIn old)
    (hnew : ∀ i ∈ Item.idsIn before ++ Item.idsIn after, i ∉ Item.idsIn new)
    (htouched : parent ∈ touched ∨ new.map Item.id = old.map Item.id) :
    ChildrenKept touched (Item.idsIn old) (Item.idsIn new) parent
      ((before ++ (old ++ after)).map Item.id) ((before ++ (new ++ after)).map Item.id) where
  same hparent := by
    rw [List.map_append, List.map_append, htouched.resolve_left hparent, ← List.map_append,
      ← List.map_append]
  order := by
    -- the members of a part are filtered out with the part, those beside it are not
    have hfilter : ∀ part : List Item, (∀ i ∈ Item.idsIn before ++ Item.idsIn after, i ∉ Item.idsIn part) →
        ((before ++ (part ++ after)).map Item.id).filter (· ∉ Item.idsIn part) =
          before.map Item.id ++ after.map Item.id := by
      intro part hapart
      rw [List.map_append, List.map_append, List.filter_append, List.filter_append,
        List.filter_eq_self.mpr, List.filter_eq_nil_iff.mpr, List.filter_eq_self.mpr, List.nil_append]
      · exact fun i hi => decide_eq_true
          (hapart i (List.mem_append_right _ (Item.map_id_subset after hi)))
      · intro i hi
        simpa using Item.map_id_subset part hi
      · exact fun i hi => decide_eq_true
          (hapart i (List.mem_append_left _ (Item.map_id_subset before hi)))
    rw [hfilter new hnew, hfilter old hold]

/-- A node that is not in the part that is exchanged is still there. -/
theorem exists_kept (hold : (Item.idsIn (k.fill (before ++ (old ++ after)))).Nodup)
    (hnew : (Item.idsIn (k.fill (before ++ (new ++ after)))).Nodup)
    (htouched : k.parent ∈ touched ∨ new.map Item.id = old.map Item.id) :
    ∀ n ∈ Item.nodesIn (k.fill (before ++ (old ++ after))), n.id ∉ Item.idsIn old →
      ∃ n' ∈ Item.nodesIn (k.fill (before ++ (new ++ after))), n'.id ∉ Item.idsIn new ∧ n'.bare = n.bare ∧
        ChildrenKept touched (Item.idsIn old) (Item.idsIn new) (some n.id) n.childIds n'.childIds := by
  have hlost := k.apart_of_nodup before old after hold
  have hwon := k.apart_of_nodup before new after hnew
  have hstays : ∀ {parent : Option Id} {ids : List Id},
      ids ⊆ k.ids ++ (Item.idsIn before ++ Item.idsIn after) →
        ChildrenKept touched (Item.idsIn old) (Item.idsIn new) parent ids ids :=
    fun hids => .of_apart (fun i hi => hlost i (hids hi)) fun i hi => hwon i (hids hi)
  -- nodes in the same list, in front of the part or behind it, are not changed at all
  have hbeside : ∀ is : List Item, Item.nodesIn is ⊆ Item.nodesIn (before ++ (new ++ after)) →
      Item.idsIn is ⊆ k.ids ++ (Item.idsIn before ++ Item.idsIn after) → ∀ n ∈ Item.nodesIn is,
        ∃ n' ∈ Item.nodesIn (k.fill (before ++ (new ++ after))), n'.id ∉ Item.idsIn new ∧
          n'.bare = n.bare ∧ ChildrenKept touched (Item.idsIn old) (Item.idsIn new) (some n.id) n.childIds
            n'.childIds := by
    intro is hnodes hids n hn
    refine ⟨n, ?_, hwon _ (hids (List.mem_map_of_mem hn)), rfl, hstays ?_⟩
    · exact (k.perm_nodesIn_fill _).mem_iff.mpr (List.mem_append_right _ (hnodes hn))
    · exact List.Subset.trans (Item.childIds_subset hn) hids
  intro n hn hid
  rw [(k.perm_nodesIn_fill _).mem_iff, Item.nodesIn_append, Item.nodesIn_append, List.mem_append,
    List.mem_append, List.mem_append] at hn
  rcases hn with hn | hn | hn | hn
  · -- a node of the path
    obtain ⟨n', hn', hfares⟩ := k.exists_fares _ (before ++ (new ++ after)) n hn
    have hpath : n'.id ∈ k.ids := k.map_id_nodes _ ▸ List.mem_map_of_mem hn'
    refine ⟨n', ?_, hwon _ (List.mem_append_left _ hpath), hfares.bare_eq, ?_⟩
    · exact (k.perm_nodesIn_fill _).mem_iff.mpr (List.mem_append_left _ hn')
    · cases hfares with
      | aside hbare hinside hsub =>
        rw [hinside]
        exact hstays (List.subset_append_of_subset_left _ hsub)
      | addressed hbare hparent hcold hcnew =>
        rw [hcold, hcnew]
        exact childrenKept_level (fun i hi => hlost i (List.mem_append_right _ hi))
          (fun i hi => hwon i (List.mem_append_right _ hi)) (hparent ▸ htouched)
  · refine hbeside before ?_ ?_ n hn
    · rw [Item.nodesIn_append]
      exact List.subset_append_left _ _
    · exact List.subset_append_of_subset_right _ (List.subset_append_left _ _)
  · exact absurd (List.mem_map_of_mem hn) hid
  · refine hbeside after ?_ ?_ n hn
    · rw [Item.nodesIn_append, Item.nodesIn_append]
      exact List.subset_append_of_subset_right _ (List.subset_append_right _ _)
    · exact List.subset_append_of_subset_right _ (List.subset_append_right _ _)

/-- Exchanging part of the list of a container for another one leaves everything else as it is. -/
theorem agreeOutside (k : Surroundings) (before old new after : List Item)
    (hold : (Item.idsIn (k.fill (before ++ (old ++ after)))).Nodup)
    (hnew : (Item.idsIn (k.fill (before ++ (new ++ after)))).Nodup)
    (htouched : k.parent ∈ touched ∨ new.map Item.id = old.map Item.id) :
    Item.AgreeOutside touched (Item.idsIn old) (Item.idsIn new) (k.fill (before ++ (old ++ after)))
      (k.fill (before ++ (new ++ after))) where
  root := by
    have hlost := k.apart_of_nodup before old after hold
    have hwon := k.apart_of_nodup before new after hnew
    rcases k.map_id_fill (before ++ (old ++ after)) (before ++ (new ++ after)) with rfl | ⟨heq, hsub⟩
    · exact childrenKept_level hlost hwon htouched
    · rw [← heq]
      exact .of_apart (fun i hi => hlost i (List.mem_append_left _ (hsub hi)))
        fun i hi => hwon i (List.mem_append_left _ (hsub hi))
  kept := exists_kept hold hnew htouched
  only n' hn' hwon := by
    obtain ⟨n, hn, hlost, hbare, hinside⟩ :=
      exists_kept hnew hold (htouched.imp_right Eq.symm) n' hn' hwon
    rw [← Node.id_eq_of_bare_eq hbare] at hinside
    exact ⟨n, hn, hlost, hbare.symm, hinside.symm⟩

/-! ### The edits at the end of a path -/

/-- An insertion puts the item into the list. -/
theorem insert_fill (hnodup : (Item.idsIn (k.fill (before ++ after))).Nodup)
    (hplace : item.isStitch = true → k.parent = none) :
    Item.insert (k.fill (before ++ after)) item ⟨k.parent, before.length - 1⟩ =
      .ok (k.fill (before ++ item :: after)) := by
  have hlist : Item.insertAfter item ((before.length : Int) - 1) (before ++ after) =
      .ok (before ++ item :: after) := by
    refine Item.insertAfter_eq_ok_iff.mpr ⟨before.length, by omega, by simp, ?_⟩
    rw [List.take_left, List.drop_left]
  refine Item.insert_eq_ok_iff.mpr ⟨hplace, ?_⟩
  rw [editChildren_fill hnodup, hlist]
  rfl

/-- A deletion takes the item out of the list. -/
theorem delete_fill (hnodup : (Item.idsIn (k.fill (before ++ item :: after))).Nodup) :
    Item.delete (k.fill (before ++ item :: after)) item.id = .ok (k.fill (before ++ after)) := by
  rw [Item.delete_eq (locate?_fill hnodup), editChildren_fill hnodup, Except.map,
    List.eraseIdx_append_of_length_le (Nat.le_refl _), Nat.sub_self, List.eraseIdx_cons_zero]

/-- A replacement puts the item into the place of the other one. -/
theorem replace_fill {other : Item} (hnodup : (Item.idsIn (k.fill (before ++ item :: after))).Nodup)
    (hplace : other.isStitch = true → k.parent = none) :
    Item.replace (k.fill (before ++ item :: after)) item.id other =
      .ok (k.fill (before ++ other.withId item.id :: after)) := by
  refine (Item.replace_eq_ok_iff (locate?_fill hnodup)).mpr ⟨hplace, ?_⟩
  rw [editChildren_fill hnodup, Except.map]
  dsimp only
  rw [List.take_left, List.drop_append, List.drop_eq_nil_of_le (Nat.le_succ _), List.nil_append,
    Nat.add_sub_cancel_left, List.drop_one, List.tail_cons]

/-- A part may be exchanged for one that has nothing in common with what is around it. -/
theorem nodup_exchange (k : Surroundings) (before old new after : List Item)
    (hold : (Item.idsIn (k.fill (before ++ (old ++ after)))).Nodup)
    (hnew : (Item.idsIn new).Nodup)
    (hcommon : ∀ i ∈ Item.idsIn new, i ∈ Item.idsIn (k.fill (before ++ (old ++ after))) → i ∈ Item.idsIn old) :
    (Item.idsIn (k.fill (before ++ (new ++ after)))).Nodup := by
  have hparts := k.perm_idsIn_part before old after
  have hapart := k.apart_of_nodup before old after hold
  refine (k.perm_idsIn_part before new after).nodup_iff.mpr (List.nodup_append.mpr ⟨?_, hnew, ?_⟩)
  · exact (List.nodup_append.mp (hparts.nodup_iff.mp hold)).1
  · rintro i haround j hj rfl
    exact hapart i haround (hcommon i hj (hparts.mem_iff.mpr (List.mem_append_left _ haround)))

end Surroundings

/-! ### The edits -/

namespace Item

variable {items result : List Item} {item : Item}

/-- An insertion happens at the end of a path. -/
theorem exists_fill_of_insert {caret : Caret} (hnodup : (idsIn items).Nodup)
    (h : insert items item caret = .ok result) : ∃ (k : Surroundings) (before after : List Item),
      k.parent = caret.parent ∧ (before.length : Int) = caret.after + 1 ∧
        items = k.fill (before ++ after) ∧ result = k.fill (before ++ item :: after) := by
  obtain ⟨-, hedit⟩ := insert_eq_ok_iff.mp h
  obtain ⟨level, hlevel⟩ := exists_isLevel_of_editChildren hedit
  obtain ⟨k, hparent, rfl⟩ := exists_surroundings hlevel
  rw [← hparent, Surroundings.editChildren_fill hnodup] at hedit
  obtain ⟨level', hlist, rfl⟩ := exists_of_map_ok hedit
  obtain ⟨n, hn, hle, rfl⟩ := insertAfter_eq_ok_iff.mp hlist
  refine ⟨k, level.take n, level.drop n, hparent, ?_, ?_, rfl⟩
  · rw [List.length_take_of_le hle, hn]
  · rw [List.take_append_drop]

theorem idsIn_withId (item : Item) (id : Id) : idsIn [item.withId id] = id :: (idsIn [item]).tail := by
  cases item <;> rfl

/-- An insertion of an item that is new to the tree: it sits at the caret, a deletion takes it out again, and the
list at the caret is the only one that changes. -/
theorem insert_agreeOutside {caret : Caret} (hnodup : (idsIn items).Nodup) (hitem : (idsIn [item]).Nodup)
    (hnew : ∀ i ∈ idsIn [item], i ∉ idsIn items) (h : insert items item caret = .ok result) :
    (∃ index depth : Nat, (index : Int) = caret.after + 1 ∧
      locate? result item.id = some ⟨item, caret.parent, index, depth⟩) ∧
    delete result item.id = .ok items ∧ AgreeOutside [caret.parent] [] (idsIn [item]) items result := by
  obtain ⟨k, before, after, hparent, hindex, rfl, rfl⟩ := exists_fill_of_insert hnodup h
  have hresult : (idsIn (k.fill (before ++ item :: after))).Nodup :=
    k.nodup_exchange before [] [item] after hnodup hitem fun i hi hin => absurd hin (hnew i hi)
  refine ⟨⟨before.length, k.length, hindex, ?_⟩, Surroundings.delete_fill hresult, ?_⟩
  · rw [← hparent]
    exact Surroundings.locate?_fill hresult
  · exact k.agreeOutside before [] [item] after hnodup hresult (Or.inl (hparent ▸ List.mem_singleton_self _))

/-- A deletion: the list that the item was in is the only one that changes. -/
theorem delete_agreeOutside {id : Id} {found : Location} (hnodup : (idsIn items).Nodup)
    (hfound : locate? items id = some found) : ∃ result, delete items id = .ok result ∧
      AgreeOutside [found.parent] (idsIn [found.item]) [] items result := by
  obtain ⟨k, before, after, hparent, -, rfl⟩ := exists_fill_of_locate? hfound
  obtain rfl := id_of_locate? hfound
  have hresult : (idsIn (k.fill (before ++ after))).Nodup :=
    k.nodup_exchange before [found.item] [] after hnodup List.nodup_nil fun i hi => nomatch hi
  refine ⟨_, Surroundings.delete_fill hnodup, ?_⟩
  exact k.agreeOutside before [found.item] [] after hnodup hresult
    (Or.inl (hparent ▸ List.mem_singleton_self _))

/-- A replacement by an item that is new to the tree: it takes over the place and the identity, so that the
members of no list change. -/
theorem replace_agreeOutside {id : Id} {found : Location} (hnodup : (idsIn items).Nodup)
    (hitem : (idsIn [item]).Nodup) (hnew : ∀ i ∈ idsIn [item], i ∉ idsIn items)
    (hfound : locate? items id = some found) (hplace : item.isStitch = true → found.parent = none) :
    ∃ result, replace items id item = .ok result ∧
      locate? result id = some { found with item := item.withId id } ∧
      AgreeOutside [] (idsIn [found.item]) (idsIn [item.withId id]) items result := by
  obtain ⟨k, before, after, hparent, hindex, rfl⟩ := exists_fill_of_locate? hfound
  obtain rfl := id_of_locate? hfound
  have hid : (item.withId found.item.id).id = found.item.id := by
    cases item <;> rfl
  -- the item keeps nothing of its own identity, so only those inside it have to be new
  have hown : found.item.id ∈ idsIn [found.item] := map_id_subset _ (List.mem_singleton_self _)
  have hin : found.item.id ∈ idsIn (k.fill (before ++ found.item :: after)) :=
    (k.perm_idsIn_part before [found.item] after).mem_iff.mpr (List.mem_append_right _ hown)
  have hinside : ∀ i ∈ (idsIn [item]).tail, i ∉ idsIn (k.fill (before ++ found.item :: after)) :=
    fun i hi => hnew i (List.mem_of_mem_tail hi)
  have hresult : (idsIn (k.fill (before ++ item.withId found.item.id :: after))).Nodup := by
    refine k.nodup_exchange before [found.item] [item.withId found.item.id] after hnodup ?_ ?_
    · rw [idsIn_withId]
      exact List.nodup_cons.mpr ⟨fun hi => hinside _ hi hin, hitem.tail⟩
    -- the identity of the item itself is the only one that the two items have in common
    · rw [idsIn_withId, List.forall_mem_cons]
      exact ⟨fun _ => hown, fun i hi hold => absurd hold (hinside i hi)⟩
  refine ⟨_, Surroundings.replace_fill hnodup (hparent ▸ hplace), ?_, ?_⟩
  · have hlocated := Surroundings.locate?_fill hresult
    rw [hid] at hlocated
    rw [hlocated, Option.some.inj (hfound.symm.trans (Surroundings.locate?_fill hnodup))]
  · exact k.agreeOutside before [found.item] [item.withId found.item.id] after hnodup hresult
      (Or.inr (congrArg (fun i => [i]) hid))

/-- In a tree where no two nodes share an identity, with an item that is new to it:

* an inserted item is found at the caret, and a deletion gives back the tree;
* a replacement takes over the place and the identity;
* each edit leaves everything outside the list it addresses, and outside the item that goes or comes, as it
  is. -/
theorem edits_local (hnodup : (idsIn items).Nodup) (hitem : (idsIn [item]).Nodup)
    (hnew : ∀ i ∈ idsIn [item], i ∉ idsIn items) :
    (∀ caret result, insert items item caret = .ok result →
      (∃ index depth : Nat, (index : Int) = caret.after + 1 ∧
        locate? result item.id = some ⟨item, caret.parent, index, depth⟩) ∧
      delete result item.id = .ok items ∧
      AgreeOutside [caret.parent] [] (idsIn [item]) items result) ∧
    (∀ id found, locate? items id = some found → ∃ result, delete items id = .ok result ∧
      AgreeOutside [found.parent] (idsIn [found.item]) [] items result) ∧
    ∀ id found, locate? items id = some found →
      ((∃ result, replace items id item = .ok result) ↔ (item.isStitch = true → found.parent = none)) ∧
      ∀ result, replace items id item = .ok result →
        locate? result id = some { found with item := item.withId id } ∧
        AgreeOutside [] (idsIn [found.item]) (idsIn [item.withId id]) items result := by
  refine ⟨fun caret result h => insert_agreeOutside hnodup hitem hnew h,
    fun id found hfound => delete_agreeOutside hnodup hfound, fun id found hfound => ⟨⟨?_, ?_⟩, ?_⟩⟩
  · rintro ⟨result, h⟩
    exact ((replace_eq_ok_iff hfound).mp h).1
  · intro hplace
    obtain ⟨result, h, -⟩ := replace_agreeOutside hnodup hitem hnew hfound hplace
    exact ⟨result, h⟩
  · intro result h
    obtain ⟨hplace, -⟩ := (replace_eq_ok_iff hfound).mp h
    obtain ⟨result', h', hlocated, hagree⟩ := replace_agreeOutside hnodup hitem hnew hfound hplace
    obtain rfl := Except.ok.inj (h.symm.trans h')
    exact ⟨hlocated, hagree⟩

/-- A bench in a garden, put inside a gate, and in the place of what is there. -/
theorem edits_local_garden :
    let text (id : String) : Item := .leaf ⟨.named id, none⟩ (.text id)
    let choice (id : String) (content : List Item) : Item := .choice ⟨.named id, none⟩ { text := id } content
    let gate (inside : List Item) : Item := .conditional ⟨.named "gate", none⟩
      [.mk ⟨.named "open", none⟩ { flag := some "key" } none inside,
        .mk ⟨.named "shut", none⟩ { isElse := true } none [text "wall"]]
    let garden (inside : List Item) := [choice "path" [gate inside, text "gravel"], text "lawn"]
    let walk := choice "walk" [text "roses"]
    let bench := choice "bench" [text "view"]
    insert (garden [walk]) bench ⟨some (.named "open"), 0⟩ = .ok (garden [walk, bench]) ∧
    delete (garden [walk, bench]) (.named "bench") = .ok (garden [walk]) ∧
    AgreeOutside [some (.named "open")] [] [.named "bench", .named "view"] (garden [walk])
      (garden [walk, bench]) ∧
    replace (garden [walk]) (.named "walk") bench = .ok (garden [bench.withId (.named "walk")]) ∧
    AgreeOutside [] [.named "walk", .named "roses"] [.named "walk", .named "view"] (garden [walk])
      (garden [bench.withId (.named "walk")]) := by
  intro text choice gate garden walk bench
  have hnodup : (idsIn (garden [walk])).Nodup := by decide
  have hbench : (idsIn [bench]).Nodup := by decide
  have hnew : ∀ i ∈ idsIn [bench], i ∉ idsIn (garden [walk]) := by decide
  obtain ⟨hinsert, -, hreplace⟩ := edits_local hnodup hbench hnew
  obtain ⟨-, hdelete, hinserted⟩ := hinsert ⟨some (.named "open"), 0⟩ (garden [walk, bench]) rfl
  obtain ⟨-, hreplaced⟩ := hreplace (.named "walk") ⟨walk, some (.named "open"), 0, 2⟩ rfl
  exact ⟨rfl, hdelete, hinserted, rfl, (hreplaced _ rfl).2⟩

end Item

end StoryScript
