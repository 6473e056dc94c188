import StoryScript.Proofs.Story.Local

/-!
# Moves conserve the tree

A move is a deletion and an insertion of what was deleted (`Item.move_eq_ok_iff`). So what is known of the two
(`Item.AgreeOutside`) is put together: the tree keeps its identities, the item with everything in it is found at
the caret, and every other node stays inside the node it was in (`Item.Inside`), in the same order among those that
stay there with it (`Item.move_conserves`). A caret inside the item is refused.

A second move, to where the item was, gives back the tree, if the item may be placed there. A stitch may stand in a
container, since it can come into the tree with one, but no edit places it there: such a stitch can leave its
container and not go back (`Item.not_restored_of_nested_stitch`).
-/

open scoped List

namespace StoryScript

/-- A node is directly inside a container or a conditional, or a member of the root list. -/
inductive Item.Inside (items : List Item) : Option Id → Id → Prop
  | root {i : Id} (h : i ∈ items.map Item.id) : Inside items none i
  | node {n : Node} {i : Id} (hn : n ∈ Item.nodesIn items) (h : i ∈ n.childIds) : Inside items (some n.id) i

theorem ChildrenKept.mem_iff {touched : List (Option Id)} {lost won old new : List Id} {parent : Option Id}
    (h : ChildrenKept touched lost won parent old new) {i : Id} (hlost : i ∉ lost) (hwon : i ∉ won) :
    i ∈ new ↔ i ∈ old := by
  have hmem := congrArg (i ∈ ·) h.order
  simpa [hlost, hwon] using hmem

namespace Item

variable {items rest result : List Item} {item : Item} {id : Id} {found : Location} {caret : Caret}

/-- Where whole subtrees are lost and won, every other node stays inside the node it was in. -/
theorem AgreeOutside.inside_iff {touched : List (Option Id)} {lost won : List Id}
    (h : AgreeOutside touched lost won items result)
    (hlost : ∀ n ∈ nodesIn items, n.id ∈ lost → n.childIds ⊆ lost)
    (hwon : ∀ n ∈ nodesIn result, n.id ∈ won → n.childIds ⊆ won) {i : Id} (hi : i ∉ lost) (hi' : i ∉ won)
    {parent : Option Id} : Inside result parent i ↔ Inside items parent i := by
  constructor
  · rintro (hroot | @⟨n', _, hn', hin⟩)
    · exact .root ((h.root.mem_iff hi hi').mp hroot)
    -- were its parent won, the node would be won with it
    · have hstays : n'.id ∉ won := fun hid => hi' (hwon n' hn' hid hin)
      obtain ⟨n, hn, -, hbare, hinside⟩ := h.only n' hn' hstays
      rw [Node.id_eq_of_bare_eq hbare]
      exact .node hn ((hinside.mem_iff hi hi').mp hin)
  · rintro (hroot | @⟨n, _, hn, hin⟩)
    · exact .root ((h.root.mem_iff hi hi').mpr hroot)
    · have hstays : n.id ∉ lost := fun hid => hi (hlost n hn hid hin)
      obtain ⟨n', hn', -, hbare, hinside⟩ := h.kept n hn hstays
      rw [← Node.id_eq_of_bare_eq hbare]
      exact .node hn' ((hinside.mem_iff hi hi').mpr hin)

/-! ### The item that is moved -/

/-- The nodes of an item that is found are nodes of the tree. -/
theorem nodesIn_subset_of_locate? (hfound : locate? items id = some found) :
    nodesIn [found.item] ⊆ nodesIn items := by
  obtain ⟨k, before, after, -, -, rfl⟩ := exists_fill_of_locate? hfound
  intro n hn
  rw [(k.perm_nodesIn_fill _).mem_iff, List.append_cons, nodesIn_append, nodesIn_append]
  exact List.mem_append_right _ (List.mem_append_left _ (List.mem_append_right _ hn))

/-- What is inside its nodes is inside the item. -/
theorem childIds_subset_of_locate? (hnodup : (idsIn items).Nodup) (hfound : locate? items id = some found) :
    ∀ n ∈ nodesIn items, n.id ∈ idsIn [found.item] → n.childIds ⊆ idsIn [found.item] := by
  intro n hn hid
  obtain ⟨n', hn', heq⟩ := List.mem_map.mp hid
  obtain rfl := List.inj_on_of_nodup_map hnodup (nodesIn_subset_of_locate? hfound hn') hn heq
  exact childIds_subset hn'

/-- An item is not inside itself. -/
theorem parent_notMem_of_locate? (hnodup : (idsIn items).Nodup) (hfound : locate? items id = some found) :
    ∀ parent ∈ found.parent, parent ∉ idsIn [found.item] := by
  obtain ⟨k, before, after, hparent, -, rfl⟩ := exists_fill_of_locate? hfound
  intro parent hp
  refine k.apart_of_nodup before [found.item] after hnodup parent ?_
  exact List.mem_append_left _ (Surroundings.mem_ids_of_parent (hparent.trans hp))

/-- A deletion parts the identities of the tree into those that are left and those of the item. -/
theorem perm_idsIn_delete (hnodup : (idsIn items).Nodup) (hfound : locate? items id = some found)
    (hrest : delete items id = .ok rest) : (idsIn rest ++ idsIn [found.item]).Perm (idsIn items) := by
  rw [List.perm_iff_count]
  intro i
  rw [List.count_append, count_idsIn_delete hnodup hfound hrest i]

/-- A deleted item can be put back just if it may be placed where it was. -/
theorem insert_delete_eq_ok_iff (hnodup : (idsIn items).Nodup) (hfound : locate? items id = some found)
    (hrest : delete items id = .ok rest) :
    insert rest found.item ⟨found.parent, found.index - 1⟩ = .ok items ↔
      (found.item.isStitch = true → found.parent = none) := by
  constructor
  · exact fun h => (insert_eq_ok_iff.mp h).1
  · intro hplace
    have hrestnodup : (idsIn rest).Nodup :=
      (List.nodup_append.mp ((perm_idsIn_delete hnodup hfound hrest).nodup_iff.mpr hnodup)).1
    obtain ⟨k, before, after, hparent, hindex, rfl⟩ := exists_fill_of_locate? hfound
    obtain rfl := id_of_locate? hfound
    obtain rfl := Except.ok.inj (hrest.symm.trans (Surroundings.delete_fill hnodup))
    rw [← hparent, ← hindex]
    exact Surroundings.insert_fill hrestnodup (hparent.symm ▸ hplace)

/-! ### Moves -/

/-- In a tree where no two nodes share an identity a move into the item itself is refused, and any other move that
is not refused

* keeps the identities of the tree,
* takes the item with everything in it to the caret,
* leaves every other node inside the same node, in the same order among those that stay, and with its own fields,
* is undone by a move to where the item was, if the item may be placed there. -/
theorem move_conserves (hnodup : (idsIn items).Nodup) (id : Id) (caret : Caret) :
    (∀ found, locate? items id = some found → (∃ parent ∈ caret.parent, parent ∈ idsIn [found.item]) →
      move items id caret = .error .moveIntoItself) ∧
    ∀ result, move items id caret = .ok result → ∃ found, locate? items id = some found ∧
      (idsIn result).Perm (idsIn items) ∧
      (∃ index depth : Nat, (index : Int) = caret.after + 1 ∧
        locate? result id = some ⟨found.item, caret.parent, index, depth⟩) ∧
      (∀ i, i ∉ idsIn [found.item] → ∀ parent, Inside result parent i ↔ Inside items parent i) ∧
      AgreeOutside [found.parent, caret.parent] (idsIn [found.item]) (idsIn [found.item]) items result ∧
      (move result id ⟨found.parent, found.index - 1⟩ = .ok items ↔
        (found.item.isStitch = true → found.parent = none)) := by
  constructor
  · rintro found hfound ⟨parent, hparent, hinside⟩
    have hcaret : (caret.parent.any fun parent => (idsIn [found.item]).contains parent) = true := by
      rw [Option.mem_def.mp hparent]
      exact List.contains_iff_mem.mpr hinside
    rw [move, hfound]
    exact if_pos hcaret
  · intro result h
    obtain ⟨found, rest, hfound, -, hrest, hinsert⟩ := move_eq_ok_iff.mp h
    have hid : found.item.id = id := id_of_locate? hfound
    have hperm : idsIn result ~ idsIn items := List.perm_iff_count.mpr (count_idsIn_move hnodup h)
    -- the item is new to the tree that is left
    have hparts := (perm_idsIn_delete hnodup hfound hrest).nodup_iff.mpr hnodup
    obtain ⟨hrestnodup, hitem, hapart⟩ := List.nodup_append.mp hparts
    have hnew : ∀ i ∈ idsIn [found.item], i ∉ idsIn rest := fun i hi hin => hapart i hin i hi rfl
    obtain ⟨rest', hrest', hlost⟩ := delete_agreeOutside hnodup hfound
    obtain rfl := Except.ok.inj (hrest.symm.trans hrest')
    obtain ⟨⟨index, depth, hindex, hlocated⟩, hback, hwon⟩ :=
      insert_agreeOutside hrestnodup hitem hnew hinsert
    rw [hid] at hlocated hback
    have hagree := hlost.trans hwon
    have hbefore := childIds_subset_of_locate? hnodup hfound
    have hafter := childIds_subset_of_locate? (hperm.nodup_iff.mpr hnodup) hlocated
    refine ⟨found, hfound, hperm, ⟨index, depth, hindex, hlocated⟩,
      fun i hi parent => hagree.inside_iff hbefore hafter hi hi, hagree, ?_⟩
    -- the second move deletes the item again, so all that is left is to put it back
    rw [← insert_delete_eq_ok_iff hnodup hfound hrest, move_eq_ok_iff]
    constructor
    · rintro ⟨found', rest'', hlocated', -, hback', hinsert'⟩
      obtain rfl := Option.some.inj (hlocated.symm.trans hlocated')
      obtain rfl := Except.ok.inj (hback.symm.trans hback')
      exact hinsert'
    · exact fun hinsert' =>
        ⟨_, rest, hlocated, parent_notMem_of_locate? hnodup hfound, hback, hinsert'⟩

/-- A walk in a garden, moved from one side of a gate to the other one and back, and not into itself. -/
theorem move_conserves_garden :
    let text (id : String) : Item := .leaf ⟨.named id, none⟩ (.text id)
    let choice (id : String) (content : List Item) : Item := .choice ⟨.named id, none⟩ { text := id } content
    let gate (opened shut : List Item) : Item := .conditional ⟨.named "gate", none⟩
      [.mk ⟨.named "open", none⟩ { flag := some "key" } none opened,
        .mk ⟨.named "shut", none⟩ { isElse := true } none shut]
    let garden (opened shut : List Item) := [choice "path" [gate opened shut, text "gravel"], text "lawn"]
    let walk := choice "walk" [text "roses"]
    let before := garden [text "sign", walk] [text "wall"]
    let after := garden [text "sign"] [text "wall", walk]
    move before (.named "walk") ⟨some (.named "shut"), 0⟩ = .ok after ∧
    move after (.named "walk") ⟨some (.named "open"), 0⟩ = .ok before ∧
    move before (.named "walk") ⟨some (.named "walk"), 0⟩ = .error .moveIntoItself ∧
    AgreeOutside [some (.named "open"), some (.named "shut")] [.named "walk", .named "roses"]
      [.named "walk", .named "roses"] before after := by
  intro text choice gate garden walk before after
  have hnodup : (idsIn before).Nodup := by decide
  have hmoved : move before (.named "walk") ⟨some (.named "shut"), 0⟩ = .ok after := rfl
  obtain ⟨-, hconserves⟩ := move_conserves hnodup (.named "walk") ⟨some (.named "shut"), 0⟩
  obtain ⟨hrefuses, -⟩ := move_conserves hnodup (.named "walk") ⟨some (.named "walk"), 0⟩
  obtain ⟨found, hfound, -, -, -, hagree, hback⟩ := hconserves after hmoved
  obtain rfl : (⟨walk, some (.named "open"), 1, 2⟩ : Location) = found := Option.some.inj hfound
  refine ⟨hmoved, hback.mpr (by decide), hrefuses _ hfound ⟨_, rfl, by decide⟩, hagree⟩

/-- A stitch in a choice leaves it and does not go back. -/
theorem not_restored_of_nested_stitch :
    let stitch : Item := .leaf ⟨.named "s", none⟩ (.stitch "n")
    let choice (content : List Item) : Item := .choice ⟨.named "c", none⟩ { text := "t" } content
    (idsIn [choice [stitch]]).Nodup ∧
    locate? [choice [stitch]] (.named "s") = some ⟨stitch, some (.named "c"), 0, 1⟩ ∧
    move [choice [stitch]] (.named "s") ⟨none, -1⟩ = .ok [stitch, choice []] ∧
    ¬ move [stitch, choice []] (.named "s") ⟨some (.named "c"), 0 - 1⟩ = .ok [choice [stitch]] :=
  ⟨by decide, rfl, rfl, nofun⟩

end Item

end StoryScript
