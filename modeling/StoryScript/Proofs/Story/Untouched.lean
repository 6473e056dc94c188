import StoryScript.Proofs.Story.Covering
import StoryScript.Proofs.Story.Handing

/-!
# Nodes that stay when others come or go

When nodes are put into a tree or taken out of it, wherever and however many, the others keep their
identities (`Item.inherits_of_partOf`): every node of the new tree that has a counterpart in the old one gets
the identity of that, and every other node keeps its own. No two nodes of the larger tree may be counterparts,
so that it is clear which node stays.

The larger tree then has counterparts of all nodes of the smaller, in the same order, so the alignment keeps
every node that stays (`Alignment.covered_edits`), and since nothing of the smaller tree is left over there
is no range to be replaced, in which nodes of one kind would take each other for counterparts
(`Alignment.kind_ne_replace`).
-/

namespace StoryScript

/-! ### Agreement of keys -/

theorem KeyValue.agree_symm {a b : KeyValue} (h : a.agree b = true) : b.agree a = true := by
  cases a <;> cases b <;> simp_all [agree, Binary64.equal_symm]

theorem Binary64.equal_trans {x y z : Binary64} (hxy : x.equal y = true) (hyz : y.equal z = true) :
    x.equal z = true := by
  obtain ⟨hx, hplain⟩ := Binary64.equal_iff.mp hxy
  exact Binary64.equal_iff.mpr ⟨hx, hplain.trans (Binary64.equal_iff.mp hyz).2⟩

theorem KeyValue.agree_trans {a b c : KeyValue} (hab : a.agree b = true) (hbc : b.agree c = true) :
    a.agree c = true := by
  cases a <;> cases b <;> cases c <;> simp_all [agree]
  exact Binary64.equal_trans hab hbc

theorem NodeKey.beq_iff {a b : NodeKey} :
    (a == b) = true ↔ a.kind = b.kind ∧ a.value.agree b.value = true := by
  change (decide (a.kind = b.kind) && a.value.agree b.value) = true ↔ _
  rw [Bool.and_eq_true, decide_eq_true_eq]

instance : PartialEquivBEq NodeKey where
  symm := by
    intro a b hab
    obtain ⟨hkind, hvalue⟩ := NodeKey.beq_iff.mp hab
    exact NodeKey.beq_iff.mpr ⟨hkind.symm, KeyValue.agree_symm hvalue⟩
  trans := by
    intro a b c hab hbc
    obtain ⟨hkind, hvalue⟩ := NodeKey.beq_iff.mp hab
    obtain ⟨hkind', hvalue'⟩ := NodeKey.beq_iff.mp hbc
    exact NodeKey.beq_iff.mpr ⟨hkind.trans hkind', KeyValue.agree_trans hvalue hvalue'⟩

instance : DecidableRel Node.Counterparts := fun m n => inferInstanceAs (Decidable ((m.key == n.key) = true))

/-- The identity that a node is given is that of its counterpart among old nodes, or its own if it has none. -/
structure Node.Inherits (olds : List Node) (n : Node) (i : Id) : Prop where
  counterpart : ∀ o ∈ olds, o.Counterparts n → i = o.id
  own : (∀ o ∈ olds, ¬o.Counterparts n) → i = n.id

/-- A tree whose nodes are counterparts of nodes of another tree, in the same order, while no two nodes of
that tree are counterparts. -/
structure Item.PartOf (fewer more : List Item) : Prop where
  found : List.SublistForall₂ Node.Counterparts (Item.nodesIn fewer) (Item.nodesIn more)
  distinct : (Item.nodesIn more).Pairwise fun m n => ¬m.Counterparts n

/-- Every node of the part has its counterparts, and they stand in the same order. -/
theorem Item.PartOf.inOrder {fewer more : List Item} (h : Item.PartOf fewer more) :
    Alignment.InOrder ((Item.nodesIn fewer).map Node.key) ((Item.nodesIn more).map Node.key) ∧
      ∀ i < ((Item.nodesIn fewer).map Node.key).length, ∃ j,
        Alignment.AgreeAt ((Item.nodesIn fewer).map Node.key) ((Item.nodesIn more).map Node.key) i j := by
  have hfound : List.SublistForall₂ (fun x y => (x == y) = true) ((Item.nodesIn fewer).map Node.key)
      ((Item.nodesIn more).map Node.key) := by
    rw [List.sublistForall₂_map_left_iff, List.sublistForall₂_map_right_iff]
    exact h.found
  refine ⟨Alignment.inOrder_of_sublistForall₂ hfound (List.pairwise_map.mpr h.distinct), ?_⟩
  obtain ⟨place, hplace⟩ := Alignment.exists_places hfound
  exact fun i hi => ⟨place i, hplace i hi⟩

/-! ### Along an alignment -/

section

variable {olds news : List Node}

theorem agreeAt_key_iff {i j : Nat} : Alignment.AgreeAt (olds.map Node.key) (news.map Node.key) i j ↔
    ∃ o n, olds[i]? = some o ∧ news[j]? = some n ∧ o.Counterparts n := by
  simp only [Alignment.AgreeAt, List.getElem?_map, Option.map_eq_some_iff]
  constructor
  · rintro ⟨_, _, ⟨o, ho, rfl⟩, ⟨n, hn, rfl⟩, hon⟩
    exact ⟨o, n, ho, hn, hon⟩
  · rintro ⟨o, n, ho, hn, hon⟩
    exact ⟨_, _, ⟨o, ho, rfl⟩, ⟨n, hn, rfl⟩, hon⟩

/-- Steps that tile both sequences do for all new nodes what each of them does for its own. -/
theorem forall₂_flatMap_carryStep {R : Node → Id → Prop} {ss : List EditStep} {i j : Nat}
    (htiles : Alignment.Tiles olds.length news.length i j ss)
    (hsteps : ∀ s ∈ ss, List.Forall₂ R (slice news s.newFrom s.newTo) (carryStep olds news s)) :
    List.Forall₂ R (news.drop j) (ss.flatMap (carryStep olds news)) := by
  induction ss generalizing i j with
  | nil =>
    obtain ⟨-, rfl⟩ := htiles
    rw [List.drop_length]
    exact .nil
  | cons s ss ih =>
    rw [List.forall_mem_cons] at hsteps
    obtain ⟨-, rfl, -, hj, -, -, -, -, hrest⟩ := htiles
    rw [List.flatMap_cons, ← slice_append_drop news hj]
    exact List.rel_append hsteps.1 (ih hrest hsteps.2)

variable (h : Alignment.InOrder (olds.map Node.key) (news.map Node.key))
include h

/-- A node that is kept has one counterpart, and gets its identity. -/
theorem inherits_of_agreeAt {i j : Nat} {o n : Node} (ho : olds[i]? = some o) (hn : news[j]? = some n)
    (hon : o.Counterparts n) : n.Inherits olds o.id where
  counterpart := by
    intro o' ho' hon'
    obtain ⟨i', hi'⟩ := List.mem_iff_getElem?.mp ho'
    have hsame : i = i' := (h.eq_iff (agreeAt_key_iff.mpr ⟨o, n, ho, hn, hon⟩)
      (agreeAt_key_iff.mpr ⟨o', n, hi', hn, hon'⟩)).mpr rfl
    rw [hsame, hi'] at ho
    rw [Option.some.inj ho]
  own := fun hnone => absurd hon (hnone o (List.mem_of_getElem? ho))

theorem inherits_carryStep
    (hreplace : ∀ s ∈ Alignment.edits (olds.map Node.key) (news.map Node.key), s.kind ≠ .replace)
    {s : EditStep} (hs : s ∈ Alignment.edits (olds.map Node.key) (news.map Node.key)) :
    List.Forall₂ (Node.Inherits olds) (slice news s.newFrom s.newTo) (carryStep olds news s) := by
  have htiles := Alignment.tiles_edits (olds.map Node.key) (news.map Node.key)
  obtain ⟨-, ⟨hm, hn⟩, hequal, hdelete⟩ := htiles.of_mem s hs
  rw [List.length_map] at hm hn
  unfold carryStep
  cases hkind : s.kind with
  | equal =>
    have hsize := hequal hkind
    refine List.forall₂_iff_get.mpr ⟨?_, fun l hl hl' => ?_⟩
    · rw [List.length_map, length_slice _ hm, length_slice _ hn, hsize]
    · rw [length_slice _ hn] at hl
      have hagree := Alignment.agrees_edits _ _ s hs hkind l (by dsimp only; omega)
      obtain ⟨o, n, ho, hn', hon⟩ := agreeAt_key_iff.mp hagree
      have hkept := inherits_of_agreeAt h ho hn' hon
      -- the nodes of the ranges at this place are those of the lists
      have hoSlice : (slice olds s.oldFrom s.oldTo)[l]? = some o :=
        (getElem?_slice olds (by omega)).trans ho
      have hnSlice : (slice news s.newFrom s.newTo)[l]? = some n := (getElem?_slice news hl).trans hn'
      obtain ⟨_, hoGet⟩ := List.getElem?_eq_some_iff.mp hoSlice
      obtain ⟨_, hnGet⟩ := List.getElem?_eq_some_iff.mp hnSlice
      rw [List.get_eq_getElem, List.get_eq_getElem, List.getElem_map, hoGet, hnGet]
      exact hkept
  | replace => exact absurd hkind (hreplace s hs)
  | insert =>
    rw [List.forall₂_map_right_iff, List.forall₂_same]
    intro n hmem
    obtain ⟨l, hl⟩ := List.mem_iff_getElem?.mp hmem
    have hlt := (List.getElem?_eq_some_iff.mp hl).1
    rw [length_slice _ hn] at hlt
    rw [getElem?_slice news hlt] at hl
    -- what is inserted has no counterpart: it would be kept instead
    refine ⟨fun o ho hon => ?_, fun _ => rfl⟩
    obtain ⟨i, hi⟩ := List.mem_iff_getElem?.mp ho
    have hagree := agreeAt_key_iff.mpr ⟨o, n, hi, hl, hon⟩
    have hapart := Alignment.not_agreeAt_of_kind_ne h hs (by simp [hkind]) hagree
    exact absurd ⟨by omega, by omega⟩ hapart.2
  | delete =>
    have hnil : slice news s.newFrom s.newTo = [] := by
      refine List.eq_nil_of_length_eq_zero ?_
      rw [length_slice _ hn, hdelete hkind, Nat.sub_self]
    rw [hnil]
    exact .nil

theorem inherits_carriedIds
    (hreplace : ∀ s ∈ Alignment.edits (olds.map Node.key) (news.map Node.key), s.kind ≠ .replace) :
    List.Forall₂ (Node.Inherits olds) news (carriedIds olds news) := by
  have hsteps := fun s hs => inherits_carryStep h hreplace (s := s) hs
  have htiles := Alignment.tiles_edits (olds.map Node.key) (news.map Node.key)
  rw [List.length_map, List.length_map] at htiles
  rw [carriedIds]
  exact forall₂_flatMap_carryStep htiles hsteps

end

/-! ### Trees -/

/-- Where one of two trees is part of the other, nodes come or go and the others stay: each node with a
counterpart in the reference gets the identity of that, each other node keeps its own. Nothing else of the
tree changes. -/
theorem Item.inherits_of_partOf {items reference : List Item}
    (h : Item.PartOf reference items ∨ Item.PartOf items reference) :
    Item.unlabelledIn (Item.carry items reference).1 = Item.unlabelledIn items ∧
      List.Forall₂ (Node.Inherits (Item.nodesIn reference)) (Item.nodesIn items)
        (Item.idsIn (Item.carry items reference).1) := by
  refine ⟨Item.unlabelledIn_carry items reference, ?_⟩
  rw [Item.idsIn_carry_eq]
  rcases h with hpart | hpart
  · obtain ⟨horder, hwhole⟩ := hpart.inOrder
    exact inherits_carriedIds horder (Alignment.kind_ne_replace horder (Or.inl hwhole))
  · obtain ⟨horder, hwhole⟩ := hpart.inOrder
    refine inherits_carriedIds horder.symm (Alignment.kind_ne_replace horder.symm (Or.inr ?_))
    intro j hj
    obtain ⟨i, hij⟩ := hwhole j hj
    exact ⟨i, hij.symm⟩

/-- A letter into which lines are put in front, inside and behind, and from which they are taken again. -/
theorem Item.inherits_of_partOf_letter :
    let text (n : Nat) (content : String) : Item := .leaf ⟨.fresh n, none⟩ (.text content)
    let choice (n : Nat) (content : List Item) : Item := .choice ⟨.fresh n, none⟩ { text := "Go" } content
    let shorter := [text 0 "Dear", choice 1 [text 2 "Inside"], text 3 "Yours"]
    let longer := [text 10 "First", text 11 "Dear", choice 12 [text 13 "New", text 14 "Inside"],
      text 15 "Yours", text 16 "Last"]
    Item.PartOf shorter longer ∧
    Item.idsIn (Item.carry longer shorter).1 = [10, 0, 1, 13, 2, 3, 16].map Id.fresh ∧
    Item.idsIn (Item.carry shorter longer).1 = [11, 12, 14, 15].map Id.fresh ∧
    List.Forall₂ (Node.Inherits (Item.nodesIn shorter)) (Item.nodesIn longer)
      (Item.idsIn (Item.carry longer shorter).1) ∧
    List.Forall₂ (Node.Inherits (Item.nodesIn longer)) (Item.nodesIn shorter)
      (Item.idsIn (Item.carry shorter longer).1) := by
  intro text choice shorter longer
  have hpart : Item.PartOf shorter longer := by
    refine ⟨?_, by decide +kernel⟩
    -- each step keeps a node or passes over one that has come
    refine .cons_right (.cons ?_ (.cons ?_ (.cons_right (.cons ?_ (.cons ?_ .nil)))))
    · decide +kernel
    · decide +kernel
    · decide +kernel
    · decide +kernel
  refine ⟨hpart, by decide +kernel, by decide +kernel, ?_, ?_⟩
  · exact (inherits_of_partOf (Or.inl hpart)).2
  · exact (inherits_of_partOf (Or.inr hpart)).2

end StoryScript
