import StoryScript.Proofs.Story.Identities
import Mathlib.Data.List.Perm.Basic

/-!
# The stitches of an edited tree

The stitches of a tree are the ones at its root. So a change of a container below the root leaves them
as they are (`Item.stitchesIn_editChildren`), and each edit does to them what it does to the list of the
root: an insertion brings in at most the stitch that is inserted (`Item.perm_stitchesIn_insert`), a
deletion brings in none, and a move in a tree that was read, where no stitch stands below the root,
changes their order alone (`Item.perm_stitchesIn_move`). A replacement is looked up by identity, so it
exchanges one stitch for another only if no second item at the root has that identity
(`Item.nodup_stitchesIn_replace`).
-/

namespace StoryScript

/-- The names of the stitches at the root of a tree. -/
def Item.stitchesIn (items : List Item) : List String := items.filterMap Item.stitchName?

/-! ### Below the root of a tree that was read -/

mutual

theorem Item.wellShapedIn_content {n : Node} {c : List Item} (hc : n.content? = some c) :
    ∀ {i : Item}, i.WellShaped → n ∈ i.nodes → Item.WellShapedIn false c
  | .leaf m l, _, hn => by
    rw [Item.nodes, List.mem_singleton] at hn
    simp [hn, Node.content?] at hc
  | .choice m h d, hshape, hn => by
    rw [Item.nodes] at hn
    rcases List.mem_cons.mp hn with rfl | hn
    · obtain rfl : d = c := Option.some.inj hc
      exact hshape.2
    · exact Item.wellShapedIn_contentIn hc hshape.2 hn
  | .conditional m bs, hshape, hn => by
    rw [Item.nodes] at hn
    rcases List.mem_cons.mp hn with rfl | hn
    · simp [Node.content?] at hc
    · exact Branch.wellShapedIn_contentIn hc hshape.2 hn

theorem Branch.wellShapedIn_content {n : Node} {c : List Item} (hc : n.content? = some c) :
    ∀ {b : Branch}, b.WellShaped → n ∈ b.nodes → Item.WellShapedIn false c
  | .mk m g d e, hshape, hn => by
    rw [Branch.nodes] at hn
    rcases List.mem_cons.mp hn with rfl | hn
    · obtain rfl : e = c := Option.some.inj hc
      exact hshape.2.2
    · exact Item.wellShapedIn_contentIn hc hshape.2.2 hn

/-- The list of every container below the root has the shape of such a list. -/
theorem Item.wellShapedIn_contentIn {n : Node} {c : List Item} (hc : n.content? = some c) :
    ∀ {r : Bool} {is : List Item}, Item.WellShapedIn r is → n ∈ Item.nodesIn is →
      Item.WellShapedIn false c
  | _, [], _, hn => by simp [Item.nodesIn] at hn
  | _, i :: is, hshape, hn => by
    rw [Item.nodesIn] at hn
    rcases List.mem_append.mp hn with hn | hn
    · exact Item.wellShapedIn_content hc hshape.1 hn
    · exact Item.wellShapedIn_contentIn hc hshape.2.2.2 hn

theorem Branch.wellShapedIn_contentIn {n : Node} {c : List Item} (hc : n.content? = some c) :
    ∀ {bs : List Branch}, Branch.WellShapedIn bs → n ∈ Branch.nodesIn bs → Item.WellShapedIn false c
  | [], _, hn => by simp [Branch.nodesIn] at hn
  | b :: bs, hshape, hn => by
    rw [Branch.nodesIn] at hn
    rcases List.mem_append.mp hn with hn | hn
    · exact Branch.wellShapedIn_content hc hshape.1 hn
    · exact Branch.wellShapedIn_contentIn hc hshape.2 hn

end

namespace Item

variable {items result : List Item} {item : Item} {id : Id} {f : ListEdit}

theorem stitchesIn_append (is js : List Item) :
    stitchesIn (is ++ js) = stitchesIn is ++ stitchesIn js := List.filterMap_append

theorem stitchesIn_cons (i : Item) (is : List Item) :
    stitchesIn (i :: is) = i.stitchName?.toList ++ stitchesIn is := by
  cases h : i.stitchName? with
  | none => simp [stitchesIn, h]
  | some name => simp [stitchesIn, h]

theorem stitchName?_withId (id : Id) (i : Item) : (i.withId id).stitchName? = i.stitchName? := by
  cases i with
  | leaf m l => cases l <;> rfl
  | choice m h c => rfl
  | conditional m bs => rfl

/-- What holds of no list below the root: to have a stitch in it. -/
theorem IsLevel.stitchName?_eq_none (hshape : WellShapedIn true items) {p : Id} {c : List Item}
    (h : IsLevel items (some p) c) : ∀ i ∈ c, i.stitchName? = none := by
  cases h with
  | node hn hc =>
    intro i hi
    obtain ⟨-, hstitch⟩ := (wellShapedIn_iff.mp (wellShapedIn_contentIn hc hshape hn)).2 i hi
    by_contra hsome
    have his : i.isStitch = true := Option.isSome_iff_ne_none.mpr hsome
    exact absurd (hstitch his) (by decide)

/-! ### Changes below the root -/

/-- An item that holds a container is no stitch, and none after a change of the container. -/
theorem stitchName?_edit? {i j : Item} (h : i.edit? id f = some (.ok j)) :
    i.stitchName? = none ∧ j.stitchName? = none := by
  cases i with
  | leaf m l => simp [edit?] at h
  | choice m hd c =>
    rw [edit?] at h
    split at h
    · obtain ⟨d, -, rfl⟩ := exists_of_map_ok (Option.some.inj h)
      exact ⟨rfl, rfl⟩
    · obtain ⟨r, -, hr⟩ := Option.map_eq_some_iff.mp h
      obtain ⟨d, -, rfl⟩ := exists_of_map_ok hr
      exact ⟨rfl, rfl⟩
  | conditional m bs =>
    rw [edit?] at h
    obtain ⟨r, -, hr⟩ := Option.map_eq_some_iff.mp h
    obtain ⟨cs, -, rfl⟩ := exists_of_map_ok hr
    exact ⟨rfl, rfl⟩

theorem stitchesIn_editIn? {is js : List Item} (h : editIn? id f is = some (.ok js)) :
    stitchesIn js = stitchesIn is := by
  induction is generalizing js with
  | nil => simp [editIn?] at h
  | cons i is ih =>
    rw [editIn?] at h
    split at h
    · next r hr =>
      obtain ⟨j, hj, rfl⟩ := exists_of_map_ok (Option.some.inj h)
      rw [hj] at hr
      obtain ⟨hi, hj⟩ := stitchName?_edit? hr
      rw [stitchesIn_cons, stitchesIn_cons, hi, hj]
    · obtain ⟨r, hr, hjs⟩ := Option.map_eq_some_iff.mp h
      obtain ⟨js', hjs', rfl⟩ := exists_of_map_ok hjs
      rw [hjs'] at hr
      rw [stitchesIn_cons, stitchesIn_cons, ih hr]

/-- A change of a container below the root leaves the stitches as they are. -/
theorem stitchesIn_editChildren (h : editChildren items (some id) f = .ok result) :
    stitchesIn result = stitchesIn items := by
  unfold editChildren at h
  split at h
  · next heq => simp at heq
  · split at h
    · next r hr => exact stitchesIn_editIn? (h ▸ hr)
    · simp at h

/-! ### The edits -/

/-- An insertion brings in the stitch that is inserted, if it is one. -/
theorem perm_stitchesIn_insert {caret : Caret} (h : insert items item caret = .ok result) :
    (stitchesIn result).Perm (item.stitchName?.toList ++ stitchesIn items) := by
  obtain ⟨parent, after⟩ := caret
  obtain ⟨hplace, hedit⟩ := insert_eq_ok_iff.mp h
  cases parent with
  | some p =>
    have hnone : item.stitchName? = none := by
      rw [← Option.not_isSome_iff_eq_none]
      exact fun hstitch => Option.some_ne_none p (hplace hstitch)
    rw [stitchesIn_editChildren hedit, hnone]
    exact .refl _
  | none =>
    obtain ⟨n, -, -, rfl⟩ := insertAfter_eq_ok_iff.mp hedit
    have hitems := congrArg stitchesIn (List.take_append_drop n items)
    rw [stitchesIn_append] at hitems
    rw [stitchesIn_append, stitchesIn_cons, ← hitems]
    exact List.perm_append_comm_assoc _ _ _

/-- A deletion brings in no stitch. -/
theorem sublist_stitchesIn_delete (h : delete items id = .ok result) :
    (stitchesIn result).Sublist (stitchesIn items) := by
  unfold delete at h
  split at h
  · simp at h
  · next found hfound =>
    cases hparent : found.parent with
    | some p =>
      rw [hparent] at h
      rw [stitchesIn_editChildren h]
    | none =>
      rw [hparent] at h
      obtain rfl := Except.ok.inj h
      exact (List.eraseIdx_sublist _ _).filterMap _

/-- A move changes the order of the stitches, if none of them stands below the root. -/
theorem perm_stitchesIn_move (hshape : WellShapedIn true items) {caret : Caret}
    (h : move items id caret = .ok result) : (stitchesIn result).Perm (stitchesIn items) := by
  obtain ⟨found, rest, hfound, -, hrest, hinsert⟩ := move_eq_ok_iff.mp h
  refine (perm_stitchesIn_insert hinsert).trans ?_
  -- what the deletion took away is what the insertion brings in
  obtain ⟨level, hlevel, hitem⟩ := exists_isLevel_of_locate? hfound
  rw [delete_eq hfound] at hrest
  cases hparent : found.parent with
  | some p =>
    rw [hparent] at hrest hlevel
    have hnone : found.item.stitchName? = none :=
      hlevel.stitchName?_eq_none hshape _ (List.mem_of_getElem? hitem)
    rw [stitchesIn_editChildren hrest, hnone]
    exact .refl _
  | none =>
    rw [hparent] at hrest hlevel
    cases hlevel
    obtain rfl := Except.ok.inj hrest
    obtain ⟨hlt, hget⟩ := List.getElem?_eq_some_iff.mp hitem
    rw [← stitchesIn_cons, ← hget]
    exact (List.getElem_cons_eraseIdx_perm hlt).filterMap _

/-- A replacement at the root exchanges one item, and one below it changes no stitch. -/
theorem cases_of_replace (h : replace items id item = .ok result) :
    stitchesIn result = stitchesIn items ∨
      ∃ before old after, items = before ++ old :: after ∧ old.id = id ∧
        result = before ++ item.withId id :: after := by
  obtain ⟨found, hfound⟩ := exists_locate?_of_replace h
  obtain ⟨-, hedit⟩ := (replace_eq_ok_iff hfound).mp h
  cases hparent : found.parent with
  | some p =>
    rw [hparent] at hedit
    exact Or.inl (stitchesIn_editChildren hedit)
  | none =>
    obtain ⟨level, hlevel, hitem⟩ := exists_isLevel_of_locate? hfound
    rw [hparent] at hedit hlevel
    cases hlevel
    obtain rfl := Except.ok.inj hedit
    obtain ⟨hlt, hget⟩ := List.getElem?_eq_some_iff.mp hitem
    refine Or.inr ⟨items.take found.index, found.item, items.drop (found.index + 1), ?_,
      id_of_locate? hfound, rfl⟩
    rw [← hget, ← List.drop_eq_getElem_cons hlt, List.take_append_drop]

/-- A replacement brings in no stitch twice, provided that the new one is none of those that stay and
that only one item at the root has the identity. -/
theorem nodup_stitchesIn_replace (h : replace items id item = .ok result)
    (hone : (items.map Item.id).count id ≤ 1)
    (hfree : ∀ name ∈ item.stitchName?, name ∉ stitchesIn (items.filter fun i => some i.id ≠ some id))
    (hitems : (stitchesIn items).Nodup) : (stitchesIn result).Nodup := by
  rcases cases_of_replace h with heq | ⟨before, old, after, rfl, hold, rfl⟩
  · rwa [heq]
  · -- no item that stays has the identity, so all of them are compared with the new name
    have hothers : ∀ i ∈ before ++ after, i.id ≠ id := by
      intro i hi hid
      rw [List.map_append, List.map_cons, List.count_append, List.count_cons, hold,
        if_pos (by simp)] at hone
      have hmem : id ∈ before.map Item.id ++ after.map Item.id := by
        rw [← List.map_append, ← hid]
        exact List.mem_map_of_mem hi
      have hpos := List.count_pos_iff.mpr hmem
      rw [List.count_append] at hpos
      omega
    have hfilter : (before ++ old :: after).filter (fun i => some i.id ≠ some id) =
        before ++ after := by
      rw [List.forall_mem_append] at hothers
      rw [List.filter_append, List.filter_cons_of_neg (by simpa using hold),
        List.filter_eq_self.mpr fun i hi => by simpa using hothers.1 i hi,
        List.filter_eq_self.mpr fun i hi => by simpa using hothers.2 i hi]
    rw [hfilter, stitchesIn_append] at hfree
    have hstay : (stitchesIn before ++ stitchesIn after).Nodup := by
      rw [stitchesIn_append, stitchesIn_cons] at hitems
      exact hitems.sublist ((List.Sublist.refl _).append (List.sublist_append_right _ _))
    rw [stitchesIn_append, stitchesIn_cons, stitchName?_withId,
      (List.perm_append_comm_assoc _ _ _).nodup_iff]
    cases hname : item.stitchName? with
    | none => exact hstay
    | some name => exact List.nodup_cons.mpr ⟨hfree name hname, hstay⟩

end Item

end StoryScript
