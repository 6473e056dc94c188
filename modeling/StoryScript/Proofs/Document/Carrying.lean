import StoryScript.Proofs.Document.Identities
import StoryScript.Proofs.Story.Handing

/-!
# Carrying identities is sound

A tree that takes over the identities of another one stays the tree that it is. Where the identities of both
trees are all different, those of the result are, each node has its own or that of an old node of its kind, in
order, and the identities that changed are told exactly (`Item.CarriedFrom`). A knot notes the lines of its
nodes under their identities; when these change, what is noted goes with them, so that every node is still
found on its lines (`Knot.carriedFrom_and_notedLines`).

That identities are handed on in order is `handed_carriedIds`. That none comes twice follows from how often it
may occur (`Item.count_idsIn_carry_le`).
-/

namespace StoryScript

/-! ### Identities that change -/

/-- The identity that has taken the place of another. -/
def rekeyed (changed : List (Id × Id)) (i : Id) : Id := (changed.lookup i).getD i

theorem mem_changedIds_iff {before after : List Id} {a b : Id} : (a, b) ∈ changedIds before after ↔
    a ≠ b ∧ ∃ j : Nat, before[j]? = some a ∧ after[j]? = some b := by
  rw [changedIds, List.mem_filter, List.mem_iff_getElem?, decide_eq_true_eq, and_comm]
  simp only [List.getElem?_zip_eq_some]

/-- Each identity changes at most once. -/
theorem nodup_changedIds {before after : List Id} (h : before.Nodup)
    (hlength : before.length = after.length) : ((changedIds before after).map Prod.fst).Nodup := by
  have hsublist : ((changedIds before after).map Prod.fst).Sublist before := by
    have hfilter : (changedIds before after).Sublist (before.zip after) := List.filter_sublist
    have hmap := hfilter.map Prod.fst
    rwa [List.map_fst_zip (Nat.le_of_eq hlength)] at hmap
  exact h.sublist hsublist

theorem lookup_changedIds_of_not_mem {before after : List Id} {a : Id} (h : a ∉ before) :
    (changedIds before after).lookup a = none := by
  rw [List.lookup_eq_none_iff]
  rintro ⟨c, d⟩ hmem
  obtain ⟨-, j, hj, -⟩ := mem_changedIds_iff.mp hmem
  have hc : c ∈ before := List.mem_of_getElem? hj
  simpa using fun heq : a = c => h (heq ▸ hc)

/-- What changes leads from the identities before to those after. -/
theorem map_rekeyed {before after : List Id} (h : before.Nodup) (hlength : before.length = after.length) :
    before.map (rekeyed (changedIds before after)) = after := by
  induction before generalizing after with
  | nil => exact (List.eq_nil_of_length_eq_zero hlength.symm).symm
  | cons a before ih =>
    cases after with
    | nil => simp at hlength
    | cons b after =>
      obtain ⟨ha, hrest⟩ := List.nodup_cons.mp h
      have htail := ih hrest (Nat.succ.inj hlength)
      have hnone : (changedIds before after).lookup a = none := lookup_changedIds_of_not_mem ha
      by_cases hab : a = b
      · -- the first identity stays
        have hchanged : changedIds (a :: before) (b :: after) = changedIds before after := by
          simp [changedIds, hab]
        rw [hchanged, List.map_cons, htail, rekeyed, hnone, Option.getD_none, hab]
      · -- it gives way, and is not looked up again, since it does not come later
        have hchanged : changedIds (a :: before) (b :: after) = (a, b) :: changedIds before after := by
          simp [changedIds, hab]
        have hhead : rekeyed ((a, b) :: changedIds before after) a = b := by
          rw [rekeyed, List.lookup_cons_self, Option.getD_some]
        have hothers : ∀ c ∈ before, rekeyed ((a, b) :: changedIds before after) c =
            rekeyed (changedIds before after) c := by
          intro c hc
          have hne : (c == a) = false := by simpa using fun heq : c = a => ha (heq ▸ hc)
          rw [rekeyed, rekeyed, List.lookup_cons, hne]
        rw [hchanged, List.map_cons, hhead, List.map_congr_left hothers, htail]

/-! ### Trees -/

/-- A tree that has come out of another one by taking over identities of `reference`, where `changed` tells
which identities have given way to which. -/
structure Item.CarriedFrom (items reference carried : List Item) (changed : List (Id × Id)) : Prop where
  /-- Nothing but identities is different. -/
  unlabelled : Item.unlabelledIn carried = Item.unlabelledIn items
  same : ∀ other, Item.sameList carried other = Item.sameList items other
  nodup : (Item.idsIn carried).Nodup
  /-- A node has the identity of an old node of its kind, in order, or its own. -/
  handed : ∃ pairs, HandedAt (Item.nodesIn reference) (Item.nodesIn items) (Item.idsIn carried) pairs
  mem_changed : ∀ a b, (a, b) ∈ changed ↔
    a ≠ b ∧ ∃ j : Nat, (Item.idsIn items)[j]? = some a ∧ (Item.idsIn carried)[j]? = some b
  nodup_changed : (changed.map Prod.fst).Nodup

theorem Item.length_idsIn_carry (items reference : List Item) :
    (Item.idsIn items).length = (Item.idsIn (Item.carry items reference).1).length := by
  rw [Item.idsIn_carry_eq, length_carriedIds, Item.idsIn, List.length_map]

/-- The identities that are told to change are those of the tree and of the result, place by place. -/
theorem Item.changed_carry (items reference : List Item) : (Item.carry items reference).2 =
    changedIds (Item.idsIn items) (Item.idsIn (Item.carry items reference).1) := by
  rw [Item.idsIn_carry_eq]
  rfl

section

variable {items reference : List Item} (hnew : (Item.idsIn items).Nodup)
  (hold : (Item.idsIn reference).Nodup) (hapart : ∀ i ∈ Item.idsIn items, i ∉ Item.idsIn reference)
include hnew hold hapart

/-- Of identities that are all different none comes twice. -/
theorem Item.nodup_idsIn_carry : (Item.idsIn (Item.carry items reference).1).Nodup := by
  rw [List.nodup_iff_count_le_one]
  intro i
  have hle := Item.count_idsIn_carry_le items reference i
  have hitems := List.nodup_iff_count_le_one.mp hnew i
  have hreference := List.nodup_iff_count_le_one.mp hold i
  -- an identity is one of the tree or one of the reference, so one of the two bounds is zero
  by_cases hi : i ∈ Item.idsIn items
  · have hnone := List.count_eq_zero_of_not_mem (hapart i hi)
    omega
  · have hnone := List.count_eq_zero_of_not_mem hi
    omega

theorem Item.carriedFrom_carry :
    Item.CarriedFrom items reference (Item.carry items reference).1 (Item.carry items reference).2 where
  unlabelled := Item.unlabelledIn_carry items reference
  same := Item.sameList_congr (Item.unlabelledIn_carry items reference)
  nodup := Item.nodup_idsIn_carry hnew hold hapart
  handed := by
    rw [Item.idsIn_carry_eq]
    exact (handed_carriedIds _ _).exists_pairs
  mem_changed := by
    intro a b
    rw [Item.changed_carry]
    exact mem_changedIds_iff
  nodup_changed := by
    rw [Item.changed_carry]
    exact nodup_changedIds hnew (Item.length_idsIn_carry items reference)

end

/-! ### Knots -/

namespace Knot

/-- The lines of the nodes of a knot, each noted under the identity of the node. -/
def notedLines (k : Knot) : List (Id × Option Span) :=
  (Item.idsIn k.items).map fun i => (i, k.lineRange i)

/-- The nodes of a knot, in document order, are found on the same lines when they have got other identities. -/
theorem map_lineRange_carry {k : Knot} {reference : List Item} (hnew : (Item.idsIn k.items).Nodup)
    (hcarried : (Item.idsIn (k.carry reference).items).Nodup) :
    (Item.idsIn (k.carry reference).items).map (k.carry reference).lineRange =
      (Item.idsIn k.items).map k.lineRange := by
  rw [map_lineRange_idsIn hnew, map_lineRange_idsIn hcarried]
  exact map_linesFrom_congr rfl (Item.unlabelledIn_carry k.items reference)

/-- Lines that are found at the same places are noted under the identities that have changed. -/
theorem notedLines_eq_map {k l : Knot} {f : Id → Id}
    (hids : Item.idsIn l.items = (Item.idsIn k.items).map f)
    (hlines : (Item.idsIn l.items).map l.lineRange = (Item.idsIn k.items).map k.lineRange) :
    l.notedLines = k.notedLines.map fun x => (f x.1, x.2) := by
  -- both lists are zips of identities with the lines that are found
  have hzip : ∀ m : Knot, m.notedLines = (Item.idsIn m.items).zip ((Item.idsIn m.items).map m.lineRange) := by
    intro m
    rw [notedLines]
    induction Item.idsIn m.items with
    | nil => rfl
    | cons i ids ih => rw [List.map_cons, List.map_cons, List.zip_cons_cons, ih]
  rw [hzip, hzip, hlines, hids, List.zip_map_left]
  rfl

end Knot

/-- A tree whose identities are all different and none of those of the reference takes over identities soundly,
and a knot that has this tree notes all lines under the identities that its nodes get. -/
theorem Knot.carriedFrom_and_notedLines {items reference : List Item}
    (hnew : (Item.idsIn items).Nodup) (hold : (Item.idsIn reference).Nodup)
    (hapart : ∀ i ∈ Item.idsIn items, i ∉ Item.idsIn reference) :
    Item.CarriedFrom items reference (Item.carry items reference).1 (Item.carry items reference).2 ∧
    ∀ k : Knot, k.items = items →
      (k.carry reference).items = (Item.carry items reference).1 ∧
      (k.carry reference).notedLines =
        k.notedLines.map (fun x => (rekeyed (Item.carry items reference).2 x.1, x.2)) ∧
      (Item.idsIn (k.carry reference).items).map (k.carry reference).lineRange =
        (Item.idsIn items).map k.lineRange := by
  refine ⟨Item.carriedFrom_carry hnew hold hapart, ?_⟩
  rintro k rfl
  have hlines := Knot.map_lineRange_carry hnew (Item.nodup_idsIn_carry hnew hold hapart)
  refine ⟨rfl, Knot.notedLines_eq_map ?_ hlines, hlines⟩
  rw [Item.changed_carry, map_rekeyed hnew (Item.length_idsIn_carry k.items reference)]
  rfl

/-- A letter that was edited: a line has another text, one is new, and what is chosen leads elsewhere. All nodes
but the new one get the identities of the old ones. -/
theorem Knot.carriedFrom_and_notedLines_letter :
    let text (n : Nat) (content : String) : Item := .leaf ⟨.fresh n, some ⟨n, n⟩⟩ (.text content)
    let letter (n : Nat) (target : String) : List Item :=
      [.choice ⟨.fresh n, none⟩ { text := "Go" }
        [text (n + 1) "Nested", .leaf ⟨.fresh (n + 2), none⟩ (.divert target)],
      .conditional ⟨.fresh (n + 3), none⟩
        [.mk ⟨.fresh (n + 4), none⟩ { flag := some "met" } none [text (n + 5) "In branch"]]]
    let reference := text 0 "Hello" :: letter 1 "b"
    let items := text 10 "Hello, you" :: text 11 "Inserted" :: letter 12 "a"
    Item.idsIn (Item.carry items reference).1 = [0, 11, 1, 2, 3, 4, 5, 6].map Id.fresh ∧
    (Item.idsIn items).Nodup ∧ (Item.idsIn reference).Nodup ∧
    (∀ i ∈ Item.idsIn items, i ∉ Item.idsIn reference) ∧
    Item.CarriedFrom items reference (Item.carry items reference).1 (Item.carry items reference).2 := by
  intro text letter reference items
  have hnew : (Item.idsIn items).Nodup := by decide +kernel
  have hold : (Item.idsIn reference).Nodup := by decide +kernel
  have hapart : ∀ i ∈ Item.idsIn items, i ∉ Item.idsIn reference := by decide +kernel
  exact ⟨by decide +kernel, hnew, hold, hapart, (carriedFrom_and_notedLines hnew hold hapart).1⟩

end StoryScript
