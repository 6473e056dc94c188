import StoryScript.Proofs.Story.Edit
import Mathlib.Data.List.Nodup
import Mathlib.Data.List.Count

/-!
# How often an identity occurs in a tree

Trees are compared by how often each identity occurs in them, which passes over the order that an edit
changes. An edit keeps the account exactly: what an insertion brings in is the identities of the item
(`Item.count_idsIn_insert`), what a deletion takes away is those of the item that was found
(`Item.count_idsIn_delete`), and a replacement and a move do both (`Item.count_idsIn_replace`,
`Item.count_idsIn_move`). For the last three no two nodes of the tree may share an identity, since what is
taken away is found by its place in a container that is found by its identity.

Carrying identities over from another tree gives a node an identity of that tree or leaves it its own,
so an identity occurs no more often than in both trees together (`Item.count_idsIn_carry_le`).

Identities are handed out by a supply. `Id.drawn` and `Id.known` say how often an identity may occur that
was handed out between two states of the supply, or before one.
-/

namespace StoryScript

namespace Id

/-- How often an identity is handed out while the supply goes from `a` to `b`. -/
def drawn (a b : Nat) : Id → Nat
  | fresh n => if a ≤ n ∧ n < b then 1 else 0
  | named _ => 0

/-- How often an identity may have been handed out before the supply comes to `a`. Who gives an identity
by name answers for it. -/
def known (a : Nat) : Id → Nat
  | fresh n => if n < a then 1 else 0
  | named _ => 1

variable {a b c : Nat}

theorem drawn_add_drawn (hab : a ≤ b) (hbc : b ≤ c) (i : Id) :
    drawn a b i + drawn b c i = drawn a c i := by
  cases i with
  | fresh n =>
    simp only [drawn]
    split_ifs <;> omega
  | named _ => rfl

theorem drawn_succ (a : Nat) (i : Id) : drawn a (a + 1) i = [fresh a].count i := by
  cases i with
  | fresh n =>
    rw [drawn, List.count_singleton]
    by_cases h : a = n
    · subst h
      rw [if_pos (by omega), if_pos (by simp)]
    · rw [if_neg (by omega), if_neg (by simpa using h)]
  | named s =>
    rw [drawn, List.count_singleton, if_neg (by simp)]

theorem known_add_drawn (hab : a ≤ b) (i : Id) : known a i + drawn a b i = known b i := by
  cases i with
  | fresh n =>
    simp only [known, drawn]
    split_ifs <;> omega
  | named _ => rfl

theorem known_le_one (a : Nat) (i : Id) : known a i ≤ 1 := by
  cases i with
  | fresh n =>
    rw [known]
    split <;> omega
  | named _ => exact Nat.le_refl 1

theorem known_mono (hab : a ≤ b) (i : Id) : known a i ≤ known b i := by
  have h := known_add_drawn hab i
  omega

theorem drawn_le_known (a b : Nat) (i : Id) : drawn a b i ≤ known b i := by
  cases i with
  | fresh n =>
    simp only [known, drawn]
    split_ifs <;> omega
  | named _ => exact Nat.zero_le 1

end Id

/-- A tree in which no two nodes share an identity, and every identity that was drawn was handed out before
the supply came to `supply`. -/
def Item.Numbered (supply : Nat) (items : List Item) : Prop :=
  ∀ i, (Item.idsIn items).count i ≤ Id.known supply i

theorem Item.numbered_iff {supply : Nat} {items : List Item} : Item.Numbered supply items ↔
    (Item.idsIn items).Nodup ∧ ∀ n, Id.fresh n ∈ Item.idsIn items → n < supply := by
  rw [List.nodup_iff_count_le_one]
  constructor
  · refine fun h => ⟨fun i => Nat.le_trans (h i) (Id.known_le_one supply i), fun n hn => ?_⟩
    have hle := Nat.le_trans (List.count_pos_iff.mpr hn) (h (.fresh n))
    rw [Id.known] at hle
    split at hle
    · assumption
    · omega
  · rintro ⟨hnodup, hbound⟩ i
    by_cases hi : i ∈ Item.idsIn items
    · cases i with
      | fresh n =>
        rw [Id.known, if_pos (hbound n hi)]
        exact hnodup _
      | named s => exact hnodup _
    · rw [List.count_eq_zero_of_not_mem hi]
      exact Nat.zero_le _

theorem Item.Numbered.nodup {supply : Nat} {items : List Item} (h : Item.Numbered supply items) :
    (Item.idsIn items).Nodup := (Item.numbered_iff.mp h).1

theorem Item.Numbered.mono {supply supply' : Nat} {items : List Item} (h : Item.Numbered supply items)
    (hle : supply ≤ supply') : Item.Numbered supply' items :=
  fun i => Nat.le_trans (h i) (Id.known_mono hle i)

/-! ### Parts of a tree -/

theorem Item.idsIn_append (is js : List Item) :
    Item.idsIn (is ++ js) = Item.idsIn is ++ Item.idsIn js := by
  induction is with
  | nil => rfl
  | cons i is ih =>
    have hcons : ∀ ks, Item.idsIn (i :: ks) = i.nodes.map Node.id ++ Item.idsIn ks := fun ks => by
      simp [Item.idsIn, Item.nodesIn]
    rw [List.cons_append, hcons, hcons, ih, List.append_assoc]

theorem Branch.idsIn_append (bs cs : List Branch) :
    Branch.idsIn (bs ++ cs) = Branch.idsIn bs ++ Branch.idsIn cs := by
  induction bs with
  | nil => rfl
  | cons b bs ih =>
    obtain ⟨m, g, d, c⟩ := b
    rw [List.cons_append, Branch.idsIn_cons, Branch.idsIn_cons, ih, List.cons_append, List.append_assoc]

theorem Item.count_idsIn_cons (i : Item) (is : List Item) (a : Id) :
    (Item.idsIn (i :: is)).count a = (Item.idsIn [i]).count a + (Item.idsIn is).count a := by
  rw [← List.count_append, ← Item.idsIn_append, List.singleton_append]

theorem Branch.count_idsIn_cons (b : Branch) (bs : List Branch) (a : Id) :
    (Branch.idsIn (b :: bs)).count a = (Branch.idsIn [b]).count a + (Branch.idsIn bs).count a := by
  rw [← List.count_append, ← Branch.idsIn_append, List.singleton_append]

theorem Item.count_idsIn_reverse (is : List Item) (a : Id) :
    (Item.idsIn is.reverse).count a = (Item.idsIn is).count a := by
  induction is with
  | nil => rfl
  | cons i is ih =>
    rw [List.reverse_cons, Item.idsIn_append, List.count_append, ih, Item.count_idsIn_cons i is]
    omega

theorem Branch.count_idsIn_reverse (bs : List Branch) (a : Id) :
    (Branch.idsIn bs.reverse).count a = (Branch.idsIn bs).count a := by
  induction bs with
  | nil => rfl
  | cons b bs ih =>
    rw [List.reverse_cons, Branch.idsIn_append, List.count_append, ih, Branch.count_idsIn_cons b bs]
    omega

/-! ### Carrying identities over -/

theorem slice_append_drop {α : Type} (xs : List α) {m n : Nat} (h : m ≤ n) :
    slice xs m n ++ xs.drop n = xs.drop m := by
  have hdrop : xs.drop n = (xs.drop m).drop (n - m) := by
    rw [List.drop_drop, Nat.add_sub_cancel' h]
  rw [slice, List.drop_take, hdrop, List.take_append_drop]

theorem length_slice {α : Type} (xs : List α) {m n : Nat} (hn : n ≤ xs.length) :
    (slice xs m n).length = n - m := by
  rw [slice, List.length_drop, List.length_take, Nat.min_eq_left hn]

theorem length_carryReplaced (olds news : List Node) :
    (carryReplaced olds news).length = news.length := by
  induction olds generalizing news with
  | nil => rw [carryReplaced, List.length_map]; simp
  | cons o olds ih =>
    cases news with
    | nil => rfl
    | cons n news => rw [carryReplaced, List.length_cons, ih, List.length_cons]

theorem count_carryReplaced_le (olds news : List Node) (i : Id) :
    (carryReplaced olds news).count i ≤
      (olds.map Node.id).count i + (news.map Node.id).count i := by
  induction olds generalizing news with
  | nil =>
    rw [carryReplaced]
    · exact Nat.le_add_left _ _
    · simp
  | cons o olds ih =>
    cases news with
    | nil => simp [carryReplaced]
    | cons n news =>
      have hrest := ih news
      rw [carryReplaced, List.map_cons, List.map_cons, List.count_cons, List.count_cons,
        List.count_cons]
      split <;> omega

/-- One step gives each node of its range an identity, of an old node of the range or its own. -/
theorem carryStep_of_tiles {olds news : List Node} {s : EditStep} {ss : List EditStep} {i j : Nat}
    (h : Alignment.Tiles olds.length news.length i j (s :: ss)) (a : Id) :
    (carryStep olds news s).length = s.newTo - j ∧
      (carryStep olds news s).count a ≤ ((slice olds i s.oldTo).map Node.id).count a +
        ((slice news j s.newTo).map Node.id).count a := by
  obtain ⟨rfl, rfl, -, -, hm, hn, hequal, hdelete, -⟩ := h
  unfold carryStep
  cases hkind : s.kind with
  | equal =>
    simp only
    rw [List.length_map, length_slice _ hm]
    exact ⟨hequal hkind, Nat.le_add_right _ _⟩
  | replace =>
    simp only
    rw [length_carryReplaced, length_slice _ hn]
    exact ⟨rfl, count_carryReplaced_le _ _ a⟩
  | delete =>
    simp only
    rw [hdelete hkind, Nat.sub_self]
    exact ⟨rfl, Nat.zero_le _⟩
  | insert =>
    simp only
    rw [List.length_map, length_slice _ hn]
    exact ⟨rfl, Nat.le_add_left _ _⟩

theorem flatMap_carryStep_of_tiles {olds news : List Node} {ss : List EditStep} {i j : Nat}
    (h : Alignment.Tiles olds.length news.length i j ss) (a : Id) :
    (ss.flatMap (carryStep olds news)).length = news.length - j ∧
      (ss.flatMap (carryStep olds news)).count a ≤
        ((olds.drop i).map Node.id).count a + ((news.drop j).map Node.id).count a := by
  induction ss generalizing i j with
  | nil =>
    obtain ⟨rfl, rfl⟩ := h
    rw [Nat.sub_self]
    exact ⟨rfl, Nat.zero_le _⟩
  | cons s ss ih =>
    obtain ⟨hlength, hcount⟩ := carryStep_of_tiles h a
    obtain ⟨-, -, hi, hj, -, hn, -, -, hrest⟩ := h
    obtain ⟨hlength', hcount'⟩ := ih hrest
    rw [List.flatMap_cons, List.length_append, List.count_append, ← slice_append_drop olds hi,
      ← slice_append_drop news hj, List.map_append, List.map_append, List.count_append,
      List.count_append]
    exact ⟨by omega, by omega⟩

/-- Every new node gets an identity, of an old node or its own. -/
theorem length_carriedIds (olds news : List Node) : (carriedIds olds news).length = news.length := by
  have h := Alignment.tiles_edits (olds.map Node.key) (news.map Node.key)
  rw [List.length_map, List.length_map] at h
  exact (flatMap_carryStep_of_tiles h default).1

theorem count_carriedIds_le (olds news : List Node) (i : Id) :
    (carriedIds olds news).count i ≤ (olds.map Node.id).count i + (news.map Node.id).count i := by
  have h := Alignment.tiles_edits (olds.map Node.key) (news.map Node.key)
  rw [List.length_map, List.length_map] at h
  exact (flatMap_carryStep_of_tiles h i).2

/-- The identities of a tree that carries those of another, in document order. -/
theorem Item.idsIn_carry_eq (items reference : List Item) :
    Item.idsIn (Item.carry items reference).1 =
      carriedIds (Item.nodesIn reference) (Item.nodesIn items) := by
  refine Item.idsIn_relabelIn ?_
  rw [length_carriedIds, Item.idsIn, List.length_map]

/-- A tree that carries the identities of another has no others than its own and those. -/
theorem Item.count_idsIn_carry_le (items reference : List Item) (i : Id) :
    (Item.idsIn (Item.carry items reference).1).count i ≤
      (Item.idsIn reference).count i + (Item.idsIn items).count i := by
  rw [Item.idsIn_carry_eq]
  exact count_carriedIds_le _ _ i

/-! ### Where an item is found -/

mutual

theorem Item.exists_of_mem_locations {parent : Option Id} {index depth : Nat} :
    ∀ {i : Item} {loc : Location}, loc ∈ i.locations parent index depth →
      (loc.parent = parent ∧ loc.index = index ∧ loc.item = i) ∨
        ∃ n ∈ i.nodes, ∃ level, loc.parent = some n.id ∧ n.content? = some level ∧
          level[loc.index]? = some loc.item
  | .leaf m l, loc, h => by
    rw [Item.locations, List.mem_singleton] at h
    subst h
    exact Or.inl ⟨rfl, rfl, rfl⟩
  | .choice m hd c, loc, h => by
    rw [Item.locations] at h
    rcases List.mem_cons.mp h with rfl | h
    · exact Or.inl ⟨rfl, rfl, rfl⟩
    · refine Or.inr ?_
      rcases Item.exists_of_mem_locationsIn h with ⟨hparent, hitem⟩ | ⟨n, hn, hrest⟩
      · exact ⟨_, List.mem_cons_self, c, hparent, rfl, by simpa using hitem⟩
      · exact ⟨n, List.mem_cons_of_mem _ hn, hrest⟩
  | .conditional m bs, loc, h => by
    rw [Item.locations] at h
    rcases List.mem_cons.mp h with rfl | h
    · exact Or.inl ⟨rfl, rfl, rfl⟩
    · obtain ⟨n, hn, hrest⟩ := Branch.exists_of_mem_locationsIn h
      exact Or.inr ⟨n, List.mem_cons_of_mem _ hn, hrest⟩

theorem Branch.exists_of_mem_locations {depth : Nat} : ∀ {b : Branch} {loc : Location},
    loc ∈ b.locations depth → ∃ n ∈ b.nodes, ∃ level, loc.parent = some n.id ∧
      n.content? = some level ∧ level[loc.index]? = some loc.item
  | .mk m g d c, loc, h => by
    rw [Branch.locations] at h
    rcases Item.exists_of_mem_locationsIn h with ⟨hparent, hitem⟩ | ⟨n, hn, hrest⟩
    · exact ⟨_, List.mem_cons_self, c, hparent, rfl, by simpa using hitem⟩
    · exact ⟨n, List.mem_cons_of_mem _ hn, hrest⟩

/-- An item is found in the list itself or in that of a node. -/
theorem Item.exists_of_mem_locationsIn {parent : Option Id} {index depth : Nat} :
    ∀ {is : List Item} {loc : Location}, loc ∈ Item.locationsIn parent index depth is →
      (loc.parent = parent ∧ is[loc.index - index]? = some loc.item ∧ index ≤ loc.index) ∨
        ∃ n ∈ Item.nodesIn is, ∃ level, loc.parent = some n.id ∧ n.content? = some level ∧
          level[loc.index]? = some loc.item
  | [], loc, h => by simp [Item.locationsIn] at h
  | i :: is, loc, h => by
    rw [Item.locationsIn] at h
    rcases List.mem_append.mp h with h | h
    · rcases Item.exists_of_mem_locations h with ⟨hparent, rfl, rfl⟩ | ⟨n, hn, hrest⟩
      · exact Or.inl ⟨hparent, by simp, Nat.le_refl _⟩
      · exact Or.inr ⟨n, List.mem_append_left _ hn, hrest⟩
    · rcases Item.exists_of_mem_locationsIn h with ⟨hparent, hitem, hle⟩ | ⟨n, hn, hrest⟩
      · have hindex : loc.index - index = loc.index - (index + 1) + 1 := by omega
        exact Or.inl ⟨hparent, by rw [hindex, List.getElem?_cons_succ, hitem], by omega⟩
      · exact Or.inr ⟨n, List.mem_append_right _ hn, hrest⟩

theorem Branch.exists_of_mem_locationsIn {depth : Nat} : ∀ {bs : List Branch} {loc : Location},
    loc ∈ Branch.locationsIn depth bs → ∃ n ∈ Branch.nodesIn bs, ∃ level, loc.parent = some n.id ∧
      n.content? = some level ∧ level[loc.index]? = some loc.item
  | [], loc, h => by simp [Branch.locationsIn] at h
  | b :: bs, loc, h => by
    rw [Branch.locationsIn] at h
    rcases List.mem_append.mp h with h | h
    · obtain ⟨n, hn, hrest⟩ := Branch.exists_of_mem_locations h
      exact ⟨n, List.mem_append_left _ hn, hrest⟩
    · obtain ⟨n, hn, hrest⟩ := Branch.exists_of_mem_locationsIn h
      exact ⟨n, List.mem_append_right _ hn, hrest⟩

end

namespace Item

variable {items result : List Item} {item : Item} {id : Id} {found : Location}

/-- The container that a location tells of holds the item at the place that is told. -/
theorem exists_isLevel_of_mem_walk (h : found ∈ walk items) :
    ∃ level, IsLevel items found.parent level ∧ level[found.index]? = some found.item := by
  rcases exists_of_mem_locationsIn h with ⟨hparent, hitem, -⟩ | ⟨n, hn, c, hparent, hc, hitem⟩
  · exact ⟨items, hparent ▸ .root, hitem⟩
  · exact ⟨c, hparent ▸ .node hn hc, hitem⟩

theorem exists_isLevel_of_locate? (h : locate? items id = some found) :
    ∃ level, IsLevel items found.parent level ∧ level[found.index]? = some found.item :=
  exists_isLevel_of_mem_walk (List.mem_of_find?_eq_some h)

theorem id_of_locate? (h : locate? items id = some found) : found.item.id = id := by
  simpa using List.find?_some h

/-- Where no two nodes share an identity, a container is found by its identity. -/
theorem IsLevel.unique (hnodup : (idsIn items).Nodup) {parent : Option Id} {c d : List Item}
    (hc : IsLevel items parent c) (hd : IsLevel items parent d) : c = d := by
  cases hc with
  | root =>
    cases hd
    rfl
  | node hn hnc =>
    generalize hid : some (Node.id _) = p at hd
    cases hd with
    | root => simp at hid
    | node hm hmd =>
      obtain rfl := List.inj_on_of_nodup_map hnodup hn hm (Option.some.inj hid)
      exact Option.some.inj (hnc.symm.trans hmd)

/-! ### The account of an edit -/

/-- The account is changed in the whole as it is in a part. -/
theorem congruent_count (lost won : Id → Nat) :
    Congruent
      (fun is js => ∀ i, (idsIn js).count i + lost i = (idsIn is).count i + won i)
      (fun bs cs => ∀ i, (Branch.idsIn cs).count i + lost i = (Branch.idsIn bs).count i + won i) where
  choice h i := by
    have hi := h i
    simp only [idsIn_choice, idsIn_nil, List.append_nil, List.count_cons]
    omega
  conditional h i := by
    have hi := h i
    simp only [idsIn_conditional, idsIn_nil, List.append_nil, List.count_cons]
    omega
  branch h i := by
    have hi := h i
    simp only [Branch.idsIn_cons, Branch.idsIn_nil, List.append_nil, List.count_cons]
    omega
  head {i j is} h a := by
    have ha := h a
    rw [count_idsIn_cons i, count_idsIn_cons j]
    omega
  tail {i is js} h a := by
    have ha := h a
    rw [count_idsIn_cons i is, count_idsIn_cons i js]
    omega
  branchHead {b c bs} h a := by
    have ha := h a
    rw [Branch.count_idsIn_cons b, Branch.count_idsIn_cons c]
    omega
  branchTail {b bs cs} h a := by
    have ha := h a
    rw [Branch.count_idsIn_cons b bs, Branch.count_idsIn_cons b cs]
    omega

/-- An insertion brings in the identities of the item. -/
theorem count_idsIn_insert {caret : Caret} (h : insert items item caret = .ok result) (i : Id) :
    (idsIn result).count i = (idsIn items).count i + (idsIn [item]).count i := by
  obtain ⟨-, hedit⟩ := insert_eq_ok_iff.mp h
  refine related_editChildren (congruent_count (fun _ => 0) fun i => (idsIn [item]).count i)
    (fun is _ js hjs a => ?_) hedit i
  obtain ⟨n, -, -, rfl⟩ := insertAfter_eq_ok_iff.mp hjs
  have hsplit := congrArg (fun ks => (idsIn ks).count a) (List.take_append_drop n is)
  simp only [idsIn_append, List.count_append] at hsplit
  rw [idsIn_append, List.count_append, count_idsIn_cons item]
  omega

/-- A list without the item at one place. -/
theorem count_idsIn_eraseIdx {is : List Item} {n : Nat} (h : is[n]? = some item) (i : Id) :
    (idsIn (is.eraseIdx n)).count i + (idsIn [item]).count i = (idsIn is).count i := by
  obtain ⟨hn, hitem⟩ := List.getElem?_eq_some_iff.mp h
  have hsplit : is = is.take n ++ item :: is.drop (n + 1) := by
    rw [← hitem, ← List.drop_eq_getElem_cons hn, List.take_append_drop]
  have hcount := congrArg (fun js => (idsIn js).count i) hsplit
  rw [idsIn_append, List.count_append, count_idsIn_cons item] at hcount
  rw [List.eraseIdx_eq_take_drop_succ, idsIn_append, List.count_append]
  omega

/-- A deletion takes away the identities of the item. -/
theorem count_idsIn_delete (hnodup : (idsIn items).Nodup) (hfound : locate? items id = some found)
    (h : delete items id = .ok result) (i : Id) :
    (idsIn result).count i + (idsIn [found.item]).count i = (idsIn items).count i := by
  obtain ⟨level, hlevel, hitem⟩ := exists_isLevel_of_locate? hfound
  rw [delete_eq hfound] at h
  refine related_editChildren (congruent_count (fun i => (idsIn [found.item]).count i) fun _ => 0)
    (fun is his js hjs a => ?_) h i
  obtain rfl := hlevel.unique hnodup his
  obtain rfl := Except.ok.inj hjs
  exact count_idsIn_eraseIdx hitem a

/-- A replacement does both. -/
theorem count_idsIn_replace (hnodup : (idsIn items).Nodup) (hfound : locate? items id = some found)
    (h : replace items id item = .ok result) (i : Id) :
    (idsIn result).count i + (idsIn [found.item]).count i =
      (idsIn items).count i + (idsIn [item.withId id]).count i := by
  obtain ⟨level, hlevel, hitem⟩ := exists_isLevel_of_locate? hfound
  obtain ⟨-, hedit⟩ := (replace_eq_ok_iff hfound).mp h
  refine related_editChildren (congruent_count (fun i => (idsIn [found.item]).count i)
    fun i => (idsIn [item.withId id]).count i) (fun is his js hjs a => ?_) hedit i
  obtain rfl := hlevel.unique hnodup his
  obtain rfl := Except.ok.inj hjs
  have herase := count_idsIn_eraseIdx hitem a
  rw [List.eraseIdx_eq_take_drop_succ, idsIn_append, List.count_append] at herase
  rw [idsIn_append, List.count_append, count_idsIn_cons (item.withId id)]
  omega

/-- A move changes nothing in the account. -/
theorem count_idsIn_move (hnodup : (idsIn items).Nodup) {caret : Caret}
    (h : move items id caret = .ok result) (i : Id) :
    (idsIn result).count i = (idsIn items).count i := by
  obtain ⟨found, rest, hfound, -, hrest, hinsert⟩ := move_eq_ok_iff.mp h
  have hlost := count_idsIn_delete hnodup hfound hrest i
  have hwon := count_idsIn_insert hinsert i
  omega

end Item

end StoryScript
