import StoryScript.Story.Edit
import StoryScript.Proofs.Body.Outline

/-!
# The nodes of an edited tree

An edit changes the list of one container (`Item.IsLevel`). What such a change does to the whole tree
follows from what it does to that list, for every relation that passes from a part to the whole
(`Congruent`, `Item.related_editChildren`). So an edit brings in the leaves of the given item and no others: what
holds of every leaf of the old tree and of the item holds of every leaf of the new one
(`Item.allIn_insert`, `Item.allIn_replace`, `Item.allIn_move`), and a deletion leaves some of the nodes
as they were (`Item.sublist_outlineIn_delete`).
-/

namespace StoryScript

variable {P : Leaf → Prop}

mutual

/-- A property of all leaves of an item. -/
def Item.All (P : Leaf → Prop) : Item → Prop
  | .leaf _ l => P l
  | .choice _ _ c => Item.AllIn P c
  | .conditional _ bs => Branch.AllIn P bs

/-- A property of all leaves of a branch. -/
def Branch.All (P : Leaf → Prop) : Branch → Prop
  | .mk _ _ _ c => Item.AllIn P c

/-- A property of all leaves of a list of items. -/
def Item.AllIn (P : Leaf → Prop) : List Item → Prop
  | [] => True
  | i :: is => i.All P ∧ Item.AllIn P is

/-- A property of all leaves of a list of branches. -/
def Branch.AllIn (P : Leaf → Prop) : List Branch → Prop
  | [] => True
  | b :: bs => b.All P ∧ Branch.AllIn P bs

end

theorem Item.allIn_iff {is : List Item} : Item.AllIn P is ↔ ∀ i ∈ is, i.All P := by
  induction is with
  | nil => simp [Item.AllIn]
  | cons i is ih => rw [Item.AllIn, ih, List.forall_mem_cons]

/-- The leaf that a node is, if it is one. -/
def Node.leaf? : Node → Option Leaf
  | .item (.leaf _ l) => some l
  | _ => none

mutual

theorem Item.all_iff_nodes : ∀ {i : Item}, i.All P ↔ ∀ n ∈ i.nodes, ∀ l ∈ n.leaf?, P l
  | .leaf _ l => by simp [Item.All, Item.nodes, Node.leaf?]
  | .choice _ _ c => by simp [Item.All, Item.nodes, Node.leaf?, Item.allIn_iff_nodesIn]
  | .conditional _ bs => by simp [Item.All, Item.nodes, Node.leaf?, Branch.allIn_iff_nodesIn]

theorem Branch.all_iff_nodes : ∀ {b : Branch}, b.All P ↔ ∀ n ∈ b.nodes, ∀ l ∈ n.leaf?, P l
  | .mk _ _ _ c => by simp [Branch.All, Branch.nodes, Node.leaf?, Item.allIn_iff_nodesIn]

/-- The leaves of a tree are found among its nodes. -/
theorem Item.allIn_iff_nodesIn : ∀ {is : List Item},
    Item.AllIn P is ↔ ∀ n ∈ Item.nodesIn is, ∀ l ∈ n.leaf?, P l
  | [] => by simp [Item.AllIn, Item.nodesIn]
  | i :: is => by
    rw [Item.AllIn, Item.nodesIn, List.forall_mem_append, Item.all_iff_nodes, Item.allIn_iff_nodesIn]

theorem Branch.allIn_iff_nodesIn : ∀ {bs : List Branch},
    Branch.AllIn P bs ↔ ∀ n ∈ Branch.nodesIn bs, ∀ l ∈ n.leaf?, P l
  | [] => by simp [Branch.AllIn, Branch.nodesIn]
  | b :: bs => by
    rw [Branch.AllIn, Branch.nodesIn, List.forall_mem_append, Branch.all_iff_nodes,
      Branch.allIn_iff_nodesIn]

end

instance [DecidablePred P] (is : List Item) : Decidable (Item.AllIn P is) :=
  decidable_of_iff _ Item.allIn_iff_nodesIn.symm

theorem Item.all_withId (id : Id) {i : Item} (h : i.All P) : (i.withId id).All P := by
  cases i <;> exact h

/-! ### Leaves and outlines -/

mutual

theorem Item.all_of_outline {k : Nat} : ∀ {i : Item},
    (∀ e ∈ i.outline k, ∀ l, e.piece = .leaf l → P l) → i.All P
  | .leaf _ l, h => h _ (List.mem_singleton.mpr rfl) l rfl
  | .choice _ _ _, h =>
    Item.allIn_of_outlineIn fun e he => h e (List.mem_cons_of_mem _ (List.mem_append_left _ he))
  | .conditional _ _, h =>
    Branch.allIn_of_outlineIn fun e he => h e (List.mem_cons_of_mem _ he)

theorem Branch.all_of_outline {k : Nat} : ∀ {b : Branch},
    (∀ e ∈ b.outline k, ∀ l, e.piece = .leaf l → P l) → b.All P
  | .mk _ _ _ _, h =>
    Item.allIn_of_outlineIn fun e he => h e (List.mem_cons_of_mem _ (List.mem_append_left _ he))

/-- What holds of the leaves that are listed holds of the leaves. -/
theorem Item.allIn_of_outlineIn {k : Nat} : ∀ {is : List Item},
    (∀ e ∈ Item.outlineIn k is, ∀ l, e.piece = .leaf l → P l) → Item.AllIn P is
  | [], _ => trivial
  | _ :: _, h =>
    ⟨Item.all_of_outline fun e he => h e (List.mem_append_left _ he),
      Item.allIn_of_outlineIn fun e he => h e (List.mem_append_right _ he)⟩

theorem Branch.allIn_of_outlineIn {k : Nat} : ∀ {bs : List Branch},
    (∀ e ∈ Branch.outlineIn k bs, ∀ l, e.piece = .leaf l → P l) → Branch.AllIn P bs
  | [], _ => trivial
  | _ :: _, h =>
    ⟨Branch.all_of_outline fun e he => h e (List.mem_append_left _ he),
      Branch.allIn_of_outlineIn fun e he => h e (List.mem_append_right _ he)⟩

end

theorem Entry.leaf_of_mem_own {k : Nat} {d : Option String} {e : Entry} (h : e ∈ Entry.own k d) :
    ∃ t, e.piece = .leaf (.divert t) := by
  cases d with
  | none => simp at h
  | some t => exact ⟨t, by rw [List.mem_singleton.mp h]⟩

theorem Entry.leaf_of_own (hdivert : ∀ t, P (.divert t)) {k : Nat} {d : Option String} {e : Entry}
    (he : e ∈ Entry.own k d) {l : Leaf} (hl : e.piece = .leaf l) : P l := by
  obtain ⟨t, ht⟩ := Entry.leaf_of_mem_own he
  obtain rfl : Leaf.divert t = l := by simpa [ht] using hl
  exact hdivert t

mutual

theorem Item.all_outline (hdivert : ∀ t, P (.divert t)) {k : Nat} : ∀ {i : Item}, i.All P →
    ∀ e ∈ i.outline k, ∀ l, e.piece = .leaf l → P l
  | .leaf _ l, h, e, he, l', hl => by
    rw [Item.outline, List.mem_singleton] at he
    subst he
    obtain rfl : l = l' := by simpa using hl
    exact h
  | .choice _ hd c, h, e, he, l, hl => by
    rw [Item.outline] at he
    rcases List.mem_cons.mp he with rfl | he
    · simp [ChoiceHead.piece] at hl
    · rcases List.mem_append.mp he with he | he
      · exact Item.allIn_outlineIn hdivert h e he l hl
      · exact Entry.leaf_of_own hdivert he hl
  | .conditional _ bs, h, e, he, l, hl => by
    rw [Item.outline] at he
    rcases List.mem_cons.mp he with rfl | he
    · simp at hl
    · exact Branch.allIn_outlineIn hdivert h e he l hl

theorem Branch.all_outline (hdivert : ∀ t, P (.divert t)) {k : Nat} : ∀ {b : Branch}, b.All P →
    ∀ e ∈ b.outline k, ∀ l, e.piece = .leaf l → P l
  | .mk _ g d c, h, e, he, l, hl => by
    rw [Branch.outline] at he
    rcases List.mem_cons.mp he with rfl | he
    · simp at hl
    · rcases List.mem_append.mp he with he | he
      · exact Item.allIn_outlineIn hdivert h e he l hl
      · exact Entry.leaf_of_own hdivert he hl

/-- What holds of the leaves, and of every divert, holds of the leaves that are listed. -/
theorem Item.allIn_outlineIn (hdivert : ∀ t, P (.divert t)) {k : Nat} : ∀ {is : List Item},
    Item.AllIn P is → ∀ e ∈ Item.outlineIn k is, ∀ l, e.piece = .leaf l → P l
  | [], _, e, he, _, _ => by simp [Item.outlineIn] at he
  | i :: is, h, e, he, l, hl => by
    rw [Item.outlineIn] at he
    rcases List.mem_append.mp he with he | he
    · exact Item.all_outline hdivert h.1 e he l hl
    · exact Item.allIn_outlineIn hdivert h.2 e he l hl

theorem Branch.allIn_outlineIn (hdivert : ∀ t, P (.divert t)) {k : Nat} : ∀ {bs : List Branch},
    Branch.AllIn P bs → ∀ e ∈ Branch.outlineIn k bs, ∀ l, e.piece = .leaf l → P l
  | [], _, e, he, _, _ => by simp [Branch.outlineIn] at he
  | b :: bs, h, e, he, l, hl => by
    rw [Branch.outlineIn] at he
    rcases List.mem_append.mp he with he | he
    · exact Branch.all_outline hdivert h.1 e he l hl
    · exact Branch.allIn_outlineIn hdivert h.2 e he l hl

end

/-! ### Changing one container -/

theorem exists_of_map_ok {ε α β : Type} {f : α → β} {r : Except ε α} {b : β}
    (h : r.map f = .ok b) : ∃ a, r = .ok a ∧ f a = b := by
  cases r with
  | error e => simp [Except.map] at h
  | ok a => exact ⟨a, rfl, by simpa [Except.map] using h⟩

/-- Relations of lists that hold if they hold of a part in which alone the lists differ. -/
structure Congruent (R : List Item → List Item → Prop) (Q : List Branch → List Branch → Prop) :
    Prop where
  choice : ∀ {m h c d}, R c d → R [.choice m h c] [.choice m h d]
  conditional : ∀ {m bs cs}, Q bs cs → R [.conditional m bs] [.conditional m cs]
  branch : ∀ {m g e c d}, R c d → Q [.mk m g e c] [.mk m g e d]
  head : ∀ {i j is}, R [i] [j] → R (i :: is) (j :: is)
  tail : ∀ {i is js}, R is js → R (i :: is) (i :: js)
  branchHead : ∀ {b c bs}, Q [b] [c] → Q (b :: bs) (c :: bs)
  branchTail : ∀ {b bs cs}, Q bs cs → Q (b :: bs) (b :: cs)

/-- The list that a node holds, if it is a container. -/
def Node.content? : Node → Option (List Item)
  | item (.choice _ _ c) => some c
  | branch (.mk _ _ _ c) => some c
  | item _ => none

/-- The list of a container of a tree: of the root or of a node. -/
inductive Item.IsLevel (items : List Item) : Option Id → List Item → Prop
  | root : IsLevel items none items
  | node {n : Node} {c : List Item} (hn : n ∈ Item.nodesIn items) (hc : n.content? = some c) :
      IsLevel items (some n.id) c

/-- A change that leads from the lists of some nodes to related lists only. -/
def ListEdit.Within (R : List Item → List Item → Prop) (f : ListEdit) (id : Id) (ns : List Node) :
    Prop :=
  ∀ n ∈ ns, n.id = id → ∀ c, n.content? = some c → ∀ d, f c = .ok d → R c d

theorem ListEdit.Within.mono {R : List Item → List Item → Prop} {f : ListEdit} {id : Id}
    {ns ms : List Node} (h : f.Within R id ns) (hms : ms ⊆ ns) : f.Within R id ms :=
  fun n hn => h n (hms hn)

section

variable {R : List Item → List Item → Prop} {Q : List Branch → List Branch → Prop}
  {id : Id} {f : ListEdit}

mutual

theorem Item.related_edit? (hR : Congruent R Q) : ∀ {i : Item} {r : Except EditError Item} {j : Item},
    f.Within R id i.nodes → i.edit? id f = some r → r = .ok j → R [i] [j]
  | .leaf _ _, _, _, _, h, _ => by simp [Item.edit?] at h
  | .choice m hd c, r, j, hf, h, hr => by
    rw [Item.nodes] at hf
    rw [Item.edit?] at h
    split at h
    · next hid =>
      obtain rfl : (f c).map (.choice m hd) = r := by simpa using h
      obtain ⟨d, hd', rfl⟩ := exists_of_map_ok hr
      exact hR.choice (hf _ List.mem_cons_self hid c rfl d hd')
    · obtain ⟨r', hr', rfl⟩ := Option.map_eq_some_iff.mp h
      obtain ⟨d, hd', rfl⟩ := exists_of_map_ok hr
      exact hR.choice (Item.related_editIn? hR (hf.mono (List.subset_cons_self _ _)) hr' hd')
  | .conditional m bs, r, j, hf, h, hr => by
    rw [Item.nodes] at hf
    rw [Item.edit?] at h
    obtain ⟨r', hr', rfl⟩ := Option.map_eq_some_iff.mp h
    obtain ⟨cs, hcs, rfl⟩ := exists_of_map_ok hr
    exact hR.conditional (Branch.related_editIn? hR (hf.mono (List.subset_cons_self _ _)) hr' hcs)

theorem Branch.related_edit? (hR : Congruent R Q) : ∀ {b : Branch} {r : Except EditError Branch}
    {c : Branch}, f.Within R id b.nodes → b.edit? id f = some r → r = .ok c → Q [b] [c]
  | .mk m g d c, r, j, hf, h, hr => by
    rw [Branch.nodes] at hf
    rw [Branch.edit?] at h
    split at h
    · next hid =>
      obtain rfl : (f c).map (.mk m g d) = r := by simpa using h
      obtain ⟨k, hk, rfl⟩ := exists_of_map_ok hr
      exact hR.branch (hf _ List.mem_cons_self hid c rfl k hk)
    · obtain ⟨r', hr', rfl⟩ := Option.map_eq_some_iff.mp h
      obtain ⟨k, hk, rfl⟩ := exists_of_map_ok hr
      exact hR.branch (Item.related_editIn? hR (hf.mono (List.subset_cons_self _ _)) hr' hk)

/-- A change of one container relates the trees as it relates the lists of the container. -/
theorem Item.related_editIn? (hR : Congruent R Q) : ∀ {is : List Item}
    {r : Except EditError (List Item)} {js : List Item}, f.Within R id (Item.nodesIn is) →
      Item.editIn? id f is = some r → r = .ok js → R is js
  | [], _, _, _, h, _ => by simp [Item.editIn?] at h
  | i :: is, r, js, hf, h, hr => by
    rw [Item.nodesIn] at hf
    rw [Item.editIn?] at h
    split at h
    · next r' hr' =>
      obtain rfl : r'.map (· :: is) = r := by simpa using h
      obtain ⟨j, hj, rfl⟩ := exists_of_map_ok hr
      exact hR.head (Item.related_edit? hR (hf.mono (List.subset_append_left _ _)) hr' hj)
    · obtain ⟨r', hr', rfl⟩ := Option.map_eq_some_iff.mp h
      obtain ⟨js', hjs, rfl⟩ := exists_of_map_ok hr
      exact hR.tail (Item.related_editIn? hR (hf.mono (List.subset_append_right _ _)) hr' hjs)

theorem Branch.related_editIn? (hR : Congruent R Q) : ∀ {bs : List Branch}
    {r : Except EditError (List Branch)} {cs : List Branch}, f.Within R id (Branch.nodesIn bs) →
      Branch.editIn? id f bs = some r → r = .ok cs → Q bs cs
  | [], _, _, _, h, _ => by simp [Branch.editIn?] at h
  | b :: bs, r, cs, hf, h, hr => by
    rw [Branch.nodesIn] at hf
    rw [Branch.editIn?] at h
    split at h
    · next r' hr' =>
      obtain rfl : r'.map (· :: bs) = r := by simpa using h
      obtain ⟨c, hc, rfl⟩ := exists_of_map_ok hr
      exact hR.branchHead (Branch.related_edit? hR (hf.mono (List.subset_append_left _ _)) hr' hc)
    · obtain ⟨r', hr', rfl⟩ := Option.map_eq_some_iff.mp h
      obtain ⟨cs', hcs, rfl⟩ := exists_of_map_ok hr
      exact hR.branchTail (Branch.related_editIn? hR (hf.mono (List.subset_append_right _ _)) hr' hcs)

end

theorem Item.related_editChildren (hR : Congruent R Q) {items result : List Item}
    {parent : Option Id} (hf : ∀ c, Item.IsLevel items parent c → ∀ d, f c = .ok d → R c d)
    (h : Item.editChildren items parent f = .ok result) : R items result := by
  unfold Item.editChildren at h
  split at h
  · exact hf _ .root _ h
  · split at h
    · next r hr =>
      refine Item.related_editIn? hR (fun n hn hid c hc => hf c ?_) hr h
      exact hid ▸ .node hn hc
    · simp at h

end

/-- Keeping some of the nodes. -/
theorem congruent_outlineIn :
    Congruent (fun is js => ∀ k, (Item.outlineIn k js).Sublist (Item.outlineIn k is))
      (fun bs cs => ∀ k, (Branch.outlineIn k cs).Sublist (Branch.outlineIn k bs)) where
  choice h k := by
    simpa [Item.outlineIn, Item.outline] using h (k + 1)
  conditional h k := by simpa [Item.outlineIn, Item.outline] using h k
  branch h k := by
    simpa [Branch.outlineIn, Branch.outline] using h (k + 2)
  head h k := by
    have hi := h k
    simp only [Item.outlineIn, List.append_nil] at hi
    exact hi.append (List.Sublist.refl _)
  tail h k := (List.Sublist.refl _).append (h k)
  branchHead h k := by
    have hb := h k
    simp only [Branch.outlineIn, List.append_nil] at hb
    exact hb.append (List.Sublist.refl _)
  branchTail h k := (List.Sublist.refl _).append (h k)

/-- Keeping a property of all leaves. -/
theorem congruent_allIn (P : Leaf → Prop) :
    Congruent (fun is js => Item.AllIn P is → Item.AllIn P js)
      (fun bs cs => Branch.AllIn P bs → Branch.AllIn P cs) where
  choice h hc := ⟨h hc.1, trivial⟩
  conditional h hb := ⟨h hb.1, trivial⟩
  branch h hc := ⟨h hc.1, trivial⟩
  head h hi := ⟨(h ⟨hi.1, trivial⟩).1, hi.2⟩
  tail h hi := ⟨hi.1, h hi.2⟩
  branchHead h hb := ⟨(h ⟨hb.1, trivial⟩).1, hb.2⟩
  branchTail h hb := ⟨hb.1, h hb.2⟩

namespace Item

variable {items result : List Item} {item : Item}

/-! ### Where items are -/

mutual

theorem all_of_mem_locations {parent : Option Id} {index depth : Nat} : ∀ {i : Item}, i.All P →
    ∀ loc ∈ i.locations parent index depth, loc.item.All P
  | .leaf m l, h, loc, hloc => by
    rw [Item.locations, List.mem_singleton] at hloc
    rw [hloc]
    exact h
  | .choice m hd c, h, loc, hloc => by
    rw [Item.locations] at hloc
    rcases List.mem_cons.mp hloc with rfl | hloc
    · exact h
    · exact all_of_mem_locationsIn h loc hloc
  | .conditional m bs, h, loc, hloc => by
    rw [Item.locations] at hloc
    rcases List.mem_cons.mp hloc with rfl | hloc
    · exact h
    · exact branch_of_mem_locationsIn h loc hloc

theorem branch_of_mem_locations {depth : Nat} : ∀ {b : Branch}, b.All P →
    ∀ loc ∈ b.locations depth, loc.item.All P
  | .mk m g d c, h, loc, hloc => by
    rw [Branch.locations] at hloc
    exact all_of_mem_locationsIn h loc hloc

/-- Whatever is found in a tree has the leaves of the tree. -/
theorem all_of_mem_locationsIn {parent : Option Id} {index depth : Nat} : ∀ {is : List Item},
    AllIn P is → ∀ loc ∈ locationsIn parent index depth is, loc.item.All P
  | [], _, loc, hloc => by simp [Item.locationsIn] at hloc
  | i :: is, h, loc, hloc => by
    rw [Item.locationsIn] at hloc
    rcases List.mem_append.mp hloc with hloc | hloc
    · exact all_of_mem_locations h.1 loc hloc
    · exact all_of_mem_locationsIn h.2 loc hloc

theorem branch_of_mem_locationsIn {depth : Nat} : ∀ {bs : List Branch}, Branch.AllIn P bs →
    ∀ loc ∈ Branch.locationsIn depth bs, loc.item.All P
  | [], _, loc, hloc => by simp [Branch.locationsIn] at hloc
  | b :: bs, h, loc, hloc => by
    rw [Branch.locationsIn] at hloc
    rcases List.mem_append.mp hloc with hloc | hloc
    · exact branch_of_mem_locations h.1 loc hloc
    · exact branch_of_mem_locationsIn h.2 loc hloc

end

theorem all_of_locate? {id : Id} {found : Location} (h : locate? items id = some found)
    (hitems : AllIn P items) : found.item.All P :=
  all_of_mem_locationsIn hitems found (List.mem_of_find?_eq_some h)

/-! ### What the edits are made of -/

theorem andThen_eq_ok_iff {ε α : Type} {check : Except ε Unit} {act : Except ε α} {a : α} :
    (check >>= fun _ => act) = .ok a ↔ check = .ok () ∧ act = .ok a := by
  cases check <;> simp [bind, Except.bind]

/-- A stitch has its place in the root list, any other item everywhere. -/
theorem checkPlacement_eq_ok_iff {parent : Option Id} :
    checkPlacement item parent = .ok () ↔ (item.isStitch = true → parent = none) := by
  unfold checkPlacement isStitch
  cases item.stitchName? <;> cases parent <;> simp

theorem insert_eq_editChildren {caret : Caret} (h : item.isStitch = true → caret.parent = none) :
    insert items item caret = editChildren items caret.parent (insertAfter item caret.after) := by
  rw [insert, checkPlacement_eq_ok_iff.mpr h]
  rfl

theorem insert_eq_ok_iff {caret : Caret} : insert items item caret = .ok result ↔
    (item.isStitch = true → caret.parent = none) ∧
      editChildren items caret.parent (insertAfter item caret.after) = .ok result := by
  rw [insert, andThen_eq_ok_iff, checkPlacement_eq_ok_iff]

theorem insertAfter_eq_ok_iff {after : Int} {level level' : List Item} :
    insertAfter item after level = .ok level' ↔ ∃ n : Nat, after + 1 = n ∧ n ≤ level.length ∧
      level' = level.take n ++ item :: level.drop n := by
  unfold insertAfter
  constructor
  · intro h
    split at h
    · next hin =>
      rw [Bool.and_eq_true, decide_eq_true_eq, decide_eq_true_eq] at hin
      obtain ⟨n, hn⟩ := Int.eq_ofNat_of_zero_le hin.1
      refine ⟨n, hn, by omega, ?_⟩
      rw [← Except.ok.inj h, hn, Int.toNat_natCast]
    · cases h
  · rintro ⟨n, hn, hle, rfl⟩
    rw [hn, if_pos (by simpa using hle), Int.toNat_natCast]

theorem delete_eq {id : Id} {found : Location} (hfound : locate? items id = some found) :
    delete items id = editChildren items found.parent fun level => .ok (level.eraseIdx found.index) := by
  rw [delete, hfound]

theorem exists_locate?_of_replace {id : Id} (h : replace items id item = .ok result) :
    ∃ found, locate? items id = some found := by
  cases hfound : locate? items id with
  | none => simp [replace, hfound] at h
  | some found => exact ⟨found, rfl⟩

theorem replace_eq_ok_iff {id : Id} {found : Location} (hfound : locate? items id = some found) :
    replace items id item = .ok result ↔ (item.isStitch = true → found.parent = none) ∧
      editChildren items found.parent (fun level => .ok (level.take found.index ++
        item.withId id :: level.drop (found.index + 1))) = .ok result := by
  rw [replace, hfound]
  dsimp only
  rw [andThen_eq_ok_iff, checkPlacement_eq_ok_iff]

/-- A move is a deletion and an insertion of the item, unless it leads into the item. -/
theorem move_eq_ok_iff {id : Id} {caret : Caret} : move items id caret = .ok result ↔
    ∃ found rest, locate? items id = some found ∧
      (∀ parent ∈ caret.parent, parent ∉ idsIn [found.item]) ∧ delete items id = .ok rest ∧
        insert rest found.item caret = .ok result := by
  unfold move
  cases hfound : locate? items id with
  | none => simp
  | some found =>
    have hinside : (caret.parent.any fun parent => (idsIn [found.item]).contains parent) = true ↔
        ¬ ∀ parent ∈ caret.parent, parent ∉ idsIn [found.item] := by
      cases caret.parent <;> simp
    dsimp only
    constructor
    · intro h
      split at h
      · cases h
      · next hout =>
        cases hrest : delete items id with
        | error e => simp [hrest, bind, Except.bind] at h
        | ok rest =>
          rw [hrest] at h
          exact ⟨found, rest, rfl, not_not.mp (hinside.not.mp hout), rfl, h⟩
    · rintro ⟨found', rest, hsame, hout, hrest, hinsert⟩
      obtain rfl := Option.some.inj hsame
      rw [if_neg (hinside.not.mpr (not_not.mpr hout)), hrest]
      exact hinsert

/-! ### The edits -/

theorem sublist_outlineIn (k : Nat) {is js : List Item} (h : is.Sublist js) :
    (outlineIn k is).Sublist (outlineIn k js) := by
  induction h with
  | slnil => exact List.Sublist.refl _
  | cons j _ ih => exact ih.trans (List.sublist_append_right _ _)
  | cons_cons i _ ih => exact (List.Sublist.refl _).append ih

/-- Putting an item among others. -/
theorem allIn_between {before after : List Item} (hbefore : AllIn P before) (hitem : item.All P)
    (hafter : AllIn P after) : AllIn P (before ++ item :: after) := by
  rw [allIn_iff] at hbefore hafter ⊢
  rw [List.forall_mem_append, List.forall_mem_cons]
  exact ⟨hbefore, hitem, hafter⟩

theorem allIn_take (n : Nat) (h : AllIn P items) : AllIn P (items.take n) :=
  allIn_iff.mpr fun i hi => allIn_iff.mp h i (List.mem_of_mem_take hi)

theorem allIn_drop (n : Nat) (h : AllIn P items) : AllIn P (items.drop n) :=
  allIn_iff.mpr fun i hi => allIn_iff.mp h i (List.mem_of_mem_drop hi)

/-- An insertion brings in the leaves of the item. -/
theorem allIn_insert {caret : Caret} (h : insert items item caret = .ok result)
    (hitem : item.All P) (hitems : AllIn P items) : AllIn P result := by
  obtain ⟨-, hedit⟩ := insert_eq_ok_iff.mp h
  refine related_editChildren (congruent_allIn P) (fun is _ js hjs his => ?_) hedit hitems
  obtain ⟨n, -, -, rfl⟩ := insertAfter_eq_ok_iff.mp hjs
  exact allIn_between (allIn_take _ his) hitem (allIn_drop _ his)

theorem allIn_delete {id : Id} (h : delete items id = .ok result) (hitems : AllIn P items) :
    AllIn P result := by
  unfold delete at h
  split at h
  · simp at h
  · refine related_editChildren (congruent_allIn P) (fun is _ js hjs his => ?_) h hitems
    obtain rfl := Except.ok.inj hjs
    exact allIn_iff.mpr fun i hi => allIn_iff.mp his i (List.mem_of_mem_eraseIdx hi)

/-- What is left after a deletion are nodes of the old tree, in the same order. -/
theorem sublist_outlineIn_delete {id : Id} (h : delete items id = .ok result) (k : Nat) :
    (outlineIn k result).Sublist (outlineIn k items) := by
  unfold delete at h
  split at h
  · simp at h
  · refine related_editChildren congruent_outlineIn (fun is _ js hjs k => ?_) h k
    obtain rfl := Except.ok.inj hjs
    exact sublist_outlineIn k (List.eraseIdx_sublist _ _)

/-- A replacement brings in the leaves of the item. -/
theorem allIn_replace {id : Id} (h : replace items id item = .ok result)
    (hitem : item.All P) (hitems : AllIn P items) : AllIn P result := by
  obtain ⟨found, hfound⟩ := exists_locate?_of_replace h
  obtain ⟨-, hedit⟩ := (replace_eq_ok_iff hfound).mp h
  refine related_editChildren (congruent_allIn P) (fun is _ js hjs his => ?_) hedit hitems
  obtain rfl := Except.ok.inj hjs
  exact allIn_between (allIn_take _ his) (all_withId id hitem) (allIn_drop _ his)

/-- A move brings in no leaf. -/
theorem allIn_move {id : Id} {caret : Caret} (h : move items id caret = .ok result)
    (hitems : AllIn P items) : AllIn P result := by
  obtain ⟨found, rest, hfound, -, hrest, hinsert⟩ := move_eq_ok_iff.mp h
  exact allIn_insert hinsert (all_of_locate? hfound hitems) (allIn_delete hrest hitems)

end Item

end StoryScript
