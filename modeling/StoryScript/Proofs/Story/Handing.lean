import StoryScript.Proofs.Story.Identities
import StoryScript.Proofs.Story.Matching

/-!
# Handing identities on

When identities are carried over, old nodes hand their identities on to new nodes in order (`Handed`): an old
node hands its own to one node of its kind or keeps it to itself, and a new node that is handed none keeps its
own. Each step of an alignment hands identities on in this way, a step that keeps nodes because nodes that
agree are of one kind (`handed_carryStep`), and steps that tile both sequences do so together
(`handed_carriedIds`).

What was handed on can be told by pairs of places that increase in both sequences (`Handed.exists_pairs`).
-/

namespace StoryScript

/-- Identities for new nodes, handed on from old nodes in order. -/
inductive Handed : List Node → List Node → List Id → Prop
  | nil : Handed [] [] []
  /-- An old node hands nothing on. -/
  | pass {o : Node} {olds news : List Node} {ids : List Id} (h : Handed olds news ids) :
      Handed (o :: olds) news ids
  /-- A new node keeps its own. -/
  | keep {n : Node} {olds news : List Node} {ids : List Id} (h : Handed olds news ids) :
      Handed olds (n :: news) (n.id :: ids)
  | hand {o n : Node} {olds news : List Node} {ids : List Id} (hkind : o.kindName = n.kindName)
      (h : Handed olds news ids) : Handed (o :: olds) (n :: news) (o.id :: ids)

namespace Handed

variable {olds news olds' news' : List Node} {ids ids' : List Id}

theorem append (h : Handed olds news ids) (h' : Handed olds' news' ids') :
    Handed (olds ++ olds') (news ++ news') (ids ++ ids') := by
  induction h with
  | nil => exact h'
  | pass _ ih => exact .pass ih
  | keep _ ih => exact .keep ih
  | hand hkind _ ih => exact .hand hkind ih

/-- Nothing is handed on. -/
theorem own (olds news : List Node) : Handed olds news (news.map Node.id) := by
  induction news with
  | cons n news ih => exact .keep ih
  | nil =>
    induction olds with
    | nil => exact .nil
    | cons o olds ih => exact .pass ih

/-- Everything is handed on to nodes of the same kinds. -/
theorem all (h : List.Forall₂ (fun o n : Node => o.kindName = n.kindName) olds news) :
    Handed olds news (olds.map Node.id) := by
  induction h with
  | nil => exact .nil
  | cons hkind _ ih => exact .hand hkind ih

/-- In a range that is replaced it is the kinds at each place that count. -/
theorem replaced (olds news : List Node) : Handed olds news (carryReplaced olds news) := by
  -- the ranges may differ in length: what one of them has more hands nothing on or keeps its own
  induction olds generalizing news with
  | nil =>
    rw [carryReplaced]
    · exact own [] news
    · simp
  | cons o olds ih =>
    cases news with
    | nil => exact own (o :: olds) []
    | cons n news =>
      rw [carryReplaced]
      split
      · next hkind => exact .hand hkind (ih news)
      · exact .pass (.keep (ih news))

end Handed

/-! ### Along an alignment -/

variable {olds news : List Node}

theorem getElem?_slice {α : Type} (xs : List α) {m n l : Nat} (hl : l < n - m) :
    (slice xs m n)[l]? = xs[m + l]? := by
  rw [slice, List.getElem?_drop, List.getElem?_take_of_lt (by omega)]

/-- Where the keys of two ranges agree, the nodes are of one kind place by place. -/
theorem forall₂_kindName_slice {i j m n : Nat} (hm : m ≤ olds.length) (hn : n ≤ news.length)
    (hsize : m - i = n - j)
    (h : (⟨i, j, m - i⟩ : Block).Agrees (olds.map Node.key) (news.map Node.key)) :
    List.Forall₂ (fun o n : Node => o.kindName = n.kindName) (slice olds i m) (slice news j n) := by
  have hold : (slice olds i m).length = m - i := length_slice olds hm
  have hnew : (slice news j n).length = n - j := length_slice news hn
  refine List.forall₂_iff_get.mpr ⟨by rw [hold, hnew, hsize], fun l hl hl' => ?_⟩
  rw [hold] at hl
  obtain ⟨x, y, hx, hy, hxy⟩ := h l hl
  rw [List.getElem?_map, Option.map_eq_some_iff] at hx hy
  obtain ⟨o, ho, rfl⟩ := hx
  obtain ⟨p, hp, rfl⟩ := hy
  -- the nodes of the ranges at this place are those of the lists
  have hoSlice : (slice olds i m)[l]? = some o := (getElem?_slice olds hl).trans ho
  have hpSlice : (slice news j n)[l]? = some p := (getElem?_slice news (hsize ▸ hl)).trans hp
  obtain ⟨_, hoGet⟩ := List.getElem?_eq_some_iff.mp hoSlice
  obtain ⟨_, hpGet⟩ := List.getElem?_eq_some_iff.mp hpSlice
  rw [List.get_eq_getElem, List.get_eq_getElem, hoGet, hpGet]
  exact Node.Counterparts.kindName hxy

/-- One step hands identities on within its ranges. -/
theorem handed_carryStep {s : EditStep} {ss : List EditStep} {i j : Nat}
    (htiles : Alignment.Tiles olds.length news.length i j (s :: ss))
    (hagrees : s.kind = .equal → (⟨s.oldFrom, s.newFrom, s.oldTo - s.oldFrom⟩ : Block).Agrees
      (olds.map Node.key) (news.map Node.key)) :
    Handed (slice olds i s.oldTo) (slice news j s.newTo) (carryStep olds news s) := by
  obtain ⟨rfl, rfl, -, -, hm, hn, hequal, hdelete, -⟩ := htiles
  unfold carryStep
  cases hkind : s.kind with
  | equal =>
    exact .all (forall₂_kindName_slice hm hn (hequal hkind) (hagrees hkind))
  | replace => exact .replaced _ _
  | delete =>
    -- there are no new nodes
    have hnil : slice news s.newFrom s.newTo = [] := by
      rw [hdelete hkind]
      exact List.eq_nil_of_length_eq_zero (by rw [length_slice _ (hdelete hkind ▸ hn), Nat.sub_self])
    rw [hnil]
    exact .own _ []
  | insert => exact .own _ _

theorem handed_flatMap_carryStep {ss : List EditStep} {i j : Nat}
    (htiles : Alignment.Tiles olds.length news.length i j ss)
    (hagrees : ∀ s ∈ ss, s.kind = .equal →
      (⟨s.oldFrom, s.newFrom, s.oldTo - s.oldFrom⟩ : Block).Agrees (olds.map Node.key)
        (news.map Node.key)) :
    Handed (olds.drop i) (news.drop j) (ss.flatMap (carryStep olds news)) := by
  induction ss generalizing i j with
  | nil =>
    obtain ⟨rfl, rfl⟩ := htiles
    rw [List.drop_length, List.drop_length]
    exact .nil
  | cons s ss ih =>
    rw [List.forall_mem_cons] at hagrees
    have hstep := handed_carryStep htiles hagrees.1
    obtain ⟨-, -, hi, hj, -, -, -, -, hrest⟩ := htiles
    rw [List.flatMap_cons, ← slice_append_drop olds hi, ← slice_append_drop news hj]
    exact hstep.append (ih hrest hagrees.2)

/-- Carrying identities over hands them on in order. -/
theorem handed_carriedIds (olds news : List Node) : Handed olds news (carriedIds olds news) := by
  have htiles := Alignment.tiles_edits (olds.map Node.key) (news.map Node.key)
  rw [List.length_map, List.length_map] at htiles
  exact handed_flatMap_carryStep htiles (Alignment.agrees_edits _ _)

/-! ### Pairs of places -/

/-- Places of old and of new nodes, in pairs: the identity at the second is that of the old node at the first. -/
structure HandedAt (olds news : List Node) (ids : List Id) (pairs : List (Nat × Nat)) : Prop where
  /-- Both increase, so no old node hands its identity on twice. -/
  increasing : pairs.Pairwise fun p q => p.1 < q.1 ∧ p.2 < q.2
  handed : ∀ p ∈ pairs, ∃ o n, olds[p.1]? = some o ∧ news[p.2]? = some n ∧
    o.kindName = n.kindName ∧ ids[p.2]? = some o.id
  kept : ∀ j n, news[j]? = some n → (∀ p ∈ pairs, p.2 ≠ j) → ids[j]? = some n.id

namespace HandedAt

variable {ids : List Id} {pairs : List (Nat × Nat)} {o n : Node}

theorem pass (h : HandedAt olds news ids pairs) (o : Node) :
    HandedAt (o :: olds) news ids (pairs.map fun p => (p.1 + 1, p.2)) where
  increasing := List.pairwise_map.mpr (h.increasing.imp fun hpq => ⟨Nat.succ_lt_succ hpq.1, hpq.2⟩)
  handed := List.forall_mem_map.mpr h.handed
  kept := fun j m hm hfree => h.kept j m hm fun p hp =>
    hfree (p.1 + 1, p.2) (List.mem_map.mpr ⟨p, hp, rfl⟩)

theorem keep (h : HandedAt olds news ids pairs) (n : Node) :
    HandedAt olds (n :: news) (n.id :: ids) (pairs.map fun p => (p.1, p.2 + 1)) where
  increasing := List.pairwise_map.mpr (h.increasing.imp fun hpq => ⟨hpq.1, Nat.succ_lt_succ hpq.2⟩)
  handed := List.forall_mem_map.mpr h.handed
  kept := by
    intro j m hm hfree
    cases j with
    | zero =>
      obtain rfl : n = m := Option.some.inj hm
      rfl
    | succ j =>
      refine h.kept j m hm fun p hp heq => hfree _ (List.mem_map_of_mem hp) ?_
      rw [heq]

theorem hand (h : HandedAt olds news ids pairs) (hkind : o.kindName = n.kindName) :
    HandedAt (o :: olds) (n :: news) (o.id :: ids)
      ((0, 0) :: pairs.map fun p => (p.1 + 1, p.2 + 1)) where
  increasing := by
    refine List.pairwise_cons.mpr ⟨?_, List.pairwise_map.mpr ?_⟩
    · exact List.forall_mem_map.mpr fun p _ => ⟨Nat.succ_pos p.1, Nat.succ_pos p.2⟩
    · exact h.increasing.imp fun hpq => ⟨Nat.succ_lt_succ hpq.1, Nat.succ_lt_succ hpq.2⟩
  handed := List.forall_mem_cons.mpr ⟨⟨o, n, rfl, rfl, hkind, rfl⟩, List.forall_mem_map.mpr h.handed⟩
  kept := by
    intro j m hm hfree
    rw [List.forall_mem_cons] at hfree
    cases j with
    | zero => exact absurd rfl hfree.1
    | succ j =>
      refine h.kept j m hm fun p hp heq => hfree.2 _ (List.mem_map_of_mem hp) ?_
      rw [heq]

end HandedAt

/-- What was handed on, told by places. -/
theorem Handed.exists_pairs {ids : List Id} (h : Handed olds news ids) :
    ∃ pairs, HandedAt olds news ids pairs := by
  induction h with
  | nil => exact ⟨[], .nil, by simp, by simp⟩
  | @pass o _ _ _ _ ih =>
    obtain ⟨pairs, hpairs⟩ := ih
    exact ⟨_, hpairs.pass o⟩
  | @keep n _ _ _ _ ih =>
    obtain ⟨pairs, hpairs⟩ := ih
    exact ⟨_, hpairs.keep n⟩
  | hand hkind _ ih =>
    obtain ⟨pairs, hpairs⟩ := ih
    exact ⟨_, hpairs.hand hkind⟩

end StoryScript
