import StoryScript.Story.Caret
import StoryScript.Proofs.Story.Surroundings

/-!
# Carets stay addressable

A caret is valid where its container exists and it stands in front of, between or behind the members of its list
(`Caret.Valid`). Three searches have to agree on what a container is: the one for the list of a container, by which
a caret moves (`Item.level`), the one for the place of a container, by which it leaves (`Item.locateContainer?`), and
the one that an edit makes (`Item.editChildren`). Where no two nodes share an identity each of them finds the
container that is there (`Item.IsLevel`) and says the same of one that is not (`Item.NoLevel`).

So no move leads away from the valid carets (`Caret.valid_step`, `Caret.valid_run`), the move out of a choice undoes
the one into it (`Caret.out_into`), and the valid carets are just those at which an item can be inserted
(`Caret.exists_insert_iff`). A caret in a branch is left like any other, though no move enters a branch.
-/

namespace StoryScript

namespace Caret

/-- A place in front of, between or behind the members of a list. -/
def Fits (c : Caret) (level : List Item) : Prop := -1 ≤ c.after ∧ c.after < level.length

/-- A place in the list of a container that exists. -/
def Valid (items : List Item) (c : Caret) : Prop :=
  ∃ level, Item.IsLevel items c.parent level ∧ c.Fits level

variable {items level : List Item} {c : Caret}

theorem insertAfter_eq_error_iff {item : Item} {e : EditError} :
    Item.insertAfter item c.after level = .error e ↔ ¬ c.Fits level ∧ e = .outOfRange c.after level.length := by
  have hfits : (decide (0 ≤ c.after + 1) && decide (c.after + 1 ≤ level.length)) = true ↔ c.Fits level := by
    rw [Bool.and_eq_true, decide_eq_true_eq, decide_eq_true_eq, Fits]
    omega
  unfold Item.insertAfter
  split
  · next h => exact ⟨nofun, fun hno => absurd (hfits.mp h) hno.1⟩
  · next h =>
    rw [Except.error.injEq, and_iff_right (hfits.not.mp h)]
    exact eq_comm

/-! ### Where a caret can be -/

theorem valid_atEnd (items : List Item) : Valid items (atEnd items) := by
  refine ⟨items, .root, ?_⟩
  dsimp only [atEnd, Fits]
  omega

/-- Right behind what the walk passes. -/
theorem valid_of_mem_walk {l : Location} (h : l ∈ Item.walk items) : Valid items ⟨l.parent, l.index⟩ := by
  obtain ⟨level, hlevel, hitem⟩ := Item.exists_isLevel_of_mem_walk h
  obtain ⟨hlt, -⟩ := List.getElem?_eq_some_iff.mp hitem
  refine ⟨level, hlevel, ?_⟩
  dsimp only [Fits]
  omega

theorem exists_behind?_valid {i : Item} (hi : i ∈ Item.itemsIn items) :
    ∃ c, behind? items i.id = some c ∧ Valid items c := by
  rw [← Item.map_item_walk] at hi
  obtain ⟨l, hl, rfl⟩ := List.mem_map.mp hi
  obtain ⟨found, hfound⟩ := Option.isSome_iff_exists.mp (Item.isSome_locate?_iff.mpr ⟨l, hl, rfl⟩)
  refine ⟨⟨found.parent, found.index⟩, ?_, valid_of_mem_walk (List.mem_of_find?_eq_some hfound)⟩
  rw [behind?, hfound]
  rfl

/-! ### Moves -/

/-- The moves of a caret. -/
inductive Move where
  | up
  | down
  | into
  | out
  deriving DecidableEq, Repr

/-- The caret after a move. -/
def step (items : List Item) (c : Caret) : Move → Except EditError Caret
  | .up => .ok c.up
  | .down => c.down items
  | .into => c.into items
  | .out => .ok (c.out items)

/-- The caret after a number of moves. -/
def run (items : List Item) (c : Caret) (moves : List Move) : Except EditError Caret :=
  moves.foldlM (step items) c

theorem down_eq (h : Item.level items c.parent = .ok level) :
    c.down items = .ok (if c.after < level.length - 1 then { c with after := c.after + 1 } else c) := by
  rw [down, h]
  rfl

theorem before?_eq (h : Item.level items c.parent = .ok level) :
    c.before? items = .ok (if 0 ≤ c.after then level[c.after.toNat]? else none) := by
  rw [before?, h]
  rfl

/-- The caret that goes into what is in front of it: only a choice is entered. -/
def entering (c : Caret) : Option Item → Caret
  | some (.choice m _ content) => ⟨some m.id, content.length - 1⟩
  | _ => c

theorem into_eq {front : Option Item} (h : c.before? items = .ok front) :
    c.into items = .ok (c.entering front) := by
  rw [into, h]
  cases front with
  | none => rfl
  | some i => cases i <;> rfl

theorem valid_up (h : Valid items c) : Valid items c.up := by
  obtain ⟨level, hlevel, hfits⟩ := h
  unfold up
  split
  · refine ⟨level, hlevel, ?_⟩
    dsimp only [Fits] at hfits ⊢
    omega
  · exact ⟨level, hlevel, hfits⟩

theorem valid_down (hnodup : (Item.idsIn items).Nodup) (h : Valid items c) :
    ∃ c', c.down items = .ok c' ∧ Valid items c' := by
  obtain ⟨level, hlevel, hfits⟩ := h
  refine ⟨_, down_eq ((Item.level_eq_ok_iff hnodup).mpr hlevel), ?_⟩
  split
  · refine ⟨level, hlevel, ?_⟩
    dsimp only [Fits] at hfits ⊢
    omega
  · exact ⟨level, hlevel, hfits⟩

/-- Wherever an item is in front of a caret, the walk passes it there. -/
theorem exists_mem_walk_of_before? (hnodup : (Item.idsIn items).Nodup) {i : Item}
    (h : c.before? items = .ok (some i)) :
    ∃ n depth : Nat, c.after = n ∧ ⟨i, c.parent, n, depth⟩ ∈ Item.walk items := by
  cases hlevel : Item.level items c.parent with
  | error e =>
    rw [before?, hlevel] at h
    cases h
  | ok level =>
    rw [before?_eq hlevel, Except.ok.injEq] at h
    split at h
    · next hle =>
      obtain ⟨depth, hmem⟩ := Item.exists_mem_walk_of_isLevel ((Item.level_eq_ok_iff hnodup).mp hlevel) h
      exact ⟨c.after.toNat, depth, (Int.toNat_of_nonneg hle).symm, hmem⟩
    · cases h

theorem valid_into (hnodup : (Item.idsIn items).Nodup) (h : Valid items c) :
    ∃ c', c.into items = .ok c' ∧ Valid items c' := by
  obtain ⟨level, hlevel, -⟩ := id h
  have hbefore := before?_eq ((Item.level_eq_ok_iff hnodup).mpr hlevel)
  refine ⟨_, into_eq hbefore, ?_⟩
  unfold entering
  split
  -- the list of the choice that is entered is that of a node of the tree
  · next m hd content hfront =>
    rw [hfront] at hbefore
    obtain ⟨n, depth, -, hmem⟩ := exists_mem_walk_of_before? hnodup hbefore
    refine ⟨content, .node (Item.item_mem_nodesIn_iff.mpr ⟨_, hmem, rfl⟩) rfl, ?_⟩
    dsimp only [Fits]
    omega
  · exact h

theorem valid_out (h : Valid items c) : Valid items (c.out items) := by
  unfold out
  split
  · next l hfound =>
    obtain ⟨id, -, hfound⟩ := Option.bind_eq_some_iff.mp hfound
    exact valid_of_mem_walk (List.mem_of_find?_eq_some hfound)
  · exact h

theorem valid_step (hnodup : (Item.idsIn items).Nodup) (h : Valid items c) (move : Move) :
    ∃ c', step items c move = .ok c' ∧ Valid items c' := by
  cases move with
  | up => exact ⟨c.up, rfl, valid_up h⟩
  | down => exact valid_down hnodup h
  | into => exact valid_into hnodup h
  | out => exact ⟨c.out items, rfl, valid_out h⟩

/-- No run of moves is refused, and none leads away from the valid carets. -/
theorem valid_run (hnodup : (Item.idsIn items).Nodup) (h : Valid items c) (moves : List Move) :
    ∃ c', run items c moves = .ok c' ∧ Valid items c' := by
  induction moves generalizing c with
  | nil => exact ⟨c, rfl, h⟩
  | cons move moves ih =>
    obtain ⟨c', hstep, hvalid⟩ := valid_step hnodup h move
    obtain ⟨c'', hrun, hvalid'⟩ := ih hvalid
    refine ⟨c'', ?_, hvalid'⟩
    rw [run, List.foldlM_cons, hstep]
    exact hrun

/-- The move out of a choice leads back to where the choice was entered. -/
theorem out_into (hnodup : (Item.idsIn items).Nodup) {m : Mark} {h : ChoiceHead} {content : List Item}
    (hbefore : c.before? items = .ok (some (.choice m h content))) (after : Int) :
    out items ⟨some m.id, after⟩ = c := by
  obtain ⟨n, depth, hn, hmem⟩ := exists_mem_walk_of_before? hnodup hbefore
  -- the search for the container stops where the choice was entered, and nowhere before
  have hfound : Item.locateContainer? items m.id = some ⟨.choice m h content, c.parent, n, depth⟩ :=
    (Item.locateContainer?_eq_some_iff hnodup).mpr ⟨hmem, _, List.mem_cons_self, rfl⟩
  rw [out, Option.bind_some, hfound]
  dsimp only
  rw [← hn]

/-! ### Insertions at a caret -/

theorem insert_eq_error_iff (hnodup : (Item.idsIn items).Nodup) {item : Item} (hitem : item.isStitch = false)
    {e : EditError} : Item.insert items item c = .error e ↔ Item.NoLevel items c.parent e ∨
      ∃ level, Item.IsLevel items c.parent level ∧ ¬ c.Fits level ∧ e = .outOfRange c.after level.length := by
  have hplace : item.isStitch = true → c.parent = none := fun h => absurd (hitem.symm.trans h) nofun
  rw [Item.insert_eq_editChildren hplace, Item.editChildren_eq_error_iff hnodup]
  simp only [insertAfter_eq_error_iff]

theorem exists_insert_iff (hnodup : (Item.idsIn items).Nodup) {item : Item} (hitem : item.isStitch = false) :
    (∃ result, Item.insert items item c = .ok result) ↔ Valid items c := by
  constructor
  · rintro ⟨result, h⟩
    obtain ⟨level, hlevel⟩ := Item.exists_isLevel_of_editChildren (Item.insert_eq_ok_iff.mp h).2
    by_contra hno
    have hrefused := (insert_eq_error_iff hnodup hitem).mpr
      (Or.inr ⟨level, hlevel, fun hfits => hno ⟨level, hlevel, hfits⟩, rfl⟩)
    rw [h] at hrefused
    cases hrefused
  · rintro ⟨level, hlevel, hfits⟩
    cases h : Item.insert items item c with
    | ok result => exact ⟨result, rfl⟩
    | error e =>
      rcases (insert_eq_error_iff hnodup hitem).mp h with hno | ⟨level', hlevel', hno, -⟩
      · exact absurd hno hlevel.not_noLevel
      · exact absurd (hlevel.unique hnodup hlevel' ▸ hfits) hno

/-- In a tree where no two nodes share an identity:

* the caret at the end is valid, and so is that behind any item;
* from a valid caret any run of moves leads to a valid caret;
* the move into a choice puts the caret behind everything in it, and the move out undoes it;
* an item that is no stitch can be inserted just at the valid carets. What is said otherwise is that the parent is
  no node of the tree, that it is no container, or that its list is too short;
* the first two are also what is said when the list of a parent is asked for. -/
theorem carets_addressable (hnodup : (Item.idsIn items).Nodup) :
    Valid items (atEnd items) ∧
    (∀ i ∈ Item.itemsIn items, ∃ c, behind? items i.id = some c ∧ Valid items c) ∧
    (∀ c, Valid items c → ∀ moves, ∃ c', run items c moves = .ok c' ∧ Valid items c') ∧
    (∀ c m h content, before? items c = .ok (some (.choice m h content)) →
      into items c = .ok ⟨some m.id, content.length - 1⟩ ∧ out items ⟨some m.id, content.length - 1⟩ = c) ∧
    (∀ item : Item, item.isStitch = false → ∀ c,
      ((∃ result, Item.insert items item c = .ok result) ↔ Valid items c) ∧
      ∀ e, Item.insert items item c = .error e ↔ Item.NoLevel items c.parent e ∨
        ∃ level, Item.IsLevel items c.parent level ∧ ¬ c.Fits level ∧ e = .outOfRange c.after level.length) ∧
    ∀ parent, (∀ level, Item.level items parent = .ok level ↔ Item.IsLevel items parent level) ∧
      ∀ e, Item.level items parent = .error e ↔ Item.NoLevel items parent e :=
  ⟨valid_atEnd items, fun _ => exists_behind?_valid, fun _ h => valid_run hnodup h,
    fun _ _ _ _ hbefore => ⟨into_eq hbefore, out_into hnodup hbefore _⟩,
    fun _ hitem _ => ⟨exists_insert_iff hnodup hitem, fun _ => insert_eq_error_iff hnodup hitem⟩,
    fun _ => ⟨fun _ => Item.level_eq_ok_iff hnodup, fun _ => Item.level_eq_error_iff hnodup⟩⟩

/-- A caret in one side of a gate goes into the choice in front of it, out again, and out of the gate. -/
theorem carets_addressable_garden :
    let text (id : String) : Item := .leaf ⟨.named id, none⟩ (.text id)
    let choice (id : String) (content : List Item) : Item := .choice ⟨.named id, none⟩ { text := id } content
    let gate : Item := .conditional ⟨.named "gate", none⟩
      [.mk ⟨.named "open", none⟩ { flag := some "key" } none [text "sign", choice "walk" [text "roses"]],
        .mk ⟨.named "shut", none⟩ { isElse := true } none []]
    let garden := [choice "path" [text "gravel", gate], text "lawn"]
    let inGate : Caret := ⟨some (.named "open"), 1⟩
    run garden inGate [.into, .up, .out, .out, .out] = .ok ⟨none, 0⟩ ∧
    (∃ c', run garden inGate [.up, .up, .into, .down, .down, .down] = .ok c' ∧ Valid garden c') ∧
    out garden ⟨some (.named "walk"), 0⟩ = inGate ∧
    (∃ result, Item.insert garden (text "bench") inGate = .ok result) ∧
    Item.insert garden (text "bench") ⟨some (.named "gate"), -1⟩ = .error (.notAContainer (.named "gate")) ∧
    Item.insert garden (text "bench") ⟨some (.named "shut"), 0⟩ = .error (.outOfRange 0 0) := by
  intro text choice gate garden inGate
  have hnodup : (Item.idsIn garden).Nodup := by decide
  obtain ⟨-, hbehind, hrun, hinto, hinsert, -⟩ := carets_addressable hnodup
  have hvalid : Valid garden inGate := by
    obtain ⟨c, hc, hvalid⟩ := hbehind (choice "walk" [text "roses"]) (List.mem_of_getElem? (i := 4) rfl)
    rwa [← Option.some.inj hc] at hvalid
  refine ⟨rfl, hrun inGate hvalid _, ?_, ?_, rfl, rfl⟩
  · exact (hinto inGate _ _ _ rfl).2
  · exact (hinsert (text "bench") rfl inGate).1.mpr hvalid

end Caret

end StoryScript
