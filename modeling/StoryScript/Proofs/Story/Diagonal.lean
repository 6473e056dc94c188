import StoryScript.Proofs.Story.Identities

/-!
# Sequences that differ place by place

Two sequences of one length are *paired* if at each place either both elements agree, or the old element
is found nowhere in the new sequence and the new one nowhere in the old (`Alignment.Paired`). Such
sequences are aligned place by place: every step keeps a range or replaces it by the same range
(`Alignment.diagonal_edits`). The search for the longest block could go wrong only by taking a block off
the diagonal, and it does not: whatever matches off the diagonal matches on it as well, no later
(`Alignment.Row`), so the diagonal is never behind (`Alignment.diagonal_bestInRow`).

Carried over to trees whose nodes are paired and of one kind place by place, every new node gets the
identity of the old node at its place (`carriedIds_of_paired`).
-/

namespace StoryScript

/-- A block at the same place of both sequences. -/
def Block.Diagonal (b : Block) : Prop := b.old = b.new

/-- A step that keeps a range or replaces it by the same range. -/
structure EditStep.Diagonal (s : EditStep) : Prop where
  first : s.oldFrom = s.newFrom
  last : s.oldTo = s.newTo
  kind : s.kind = .equal ∨ s.kind = .replace

namespace Alignment

variable {α : Type} [BEq α] {old new : List α}

/-- Sequences whose elements agree place by place or are found nowhere in the other sequence. -/
def Paired (old new : List α) : Prop :=
  List.Forall₂ (fun x y => (x == y) = true ∨
    (∀ z ∈ new, (x == z) = false) ∧ ∀ z ∈ old, (z == y) = false) old new

namespace Paired

theorem take (h : Paired old new) (n : Nat) : Paired (old.take n) (new.take n) := by
  refine (List.forall₂_take n h).imp fun x y hxy => hxy.imp_right fun ⟨hx, hy⟩ => ?_
  exact ⟨fun z hz => hx z (List.mem_of_mem_take hz), fun z hz => hy z (List.mem_of_mem_take hz)⟩

theorem drop (h : Paired old new) (n : Nat) : Paired (old.drop n) (new.drop n) := by
  refine (List.forall₂_drop n h).imp fun x y hxy => hxy.imp_right fun ⟨hx, hy⟩ => ?_
  exact ⟨fun z hz => hx z (List.mem_of_mem_drop hz), fun z hz => hy z (List.mem_of_mem_drop hz)⟩

/-- An element that is found in the other sequence agrees with the one at its place. -/
theorem agree (h : Paired old new) {i : Nat} {x y : α} (hx : old[i]? = some x) (hy : new[i]? = some y)
    (hfound : (∃ z ∈ new, (x == z) = true) ∨ ∃ z ∈ old, (z == y) = true) : (x == y) = true := by
  obtain ⟨hi, rfl⟩ := List.getElem?_eq_some_iff.mp hx
  obtain ⟨hj, rfl⟩ := List.getElem?_eq_some_iff.mp hy
  rcases (List.forall₂_iff_get.mp h).2 i hi hj with hagree | ⟨hold, hnew⟩
  · exact hagree
  · rcases hfound with ⟨z, hz, hxz⟩ | ⟨z, hz, hzy⟩
    · have hne := hold z hz
      rw [List.get_eq_getElem, hxz] at hne
      exact absurd hne (by simp)
    · have hne := hnew z hz
      rw [List.get_eq_getElem, hzy] at hne
      exact absurd hne (by simp)

end Paired

/-! ### Rows -/

/-- How many elements agree place by place in front of a place. -/
def diagonalRun (old new : List α) (i : Nat) : Nat :=
  agreeing (old.take i).reverse (new.take i).reverse

theorem diagonalRun_succ {i : Nat} {x y : α} (hx : old[i]? = some x) (hy : new[i]? = some y) :
    diagonalRun old new (i + 1) = if x == y then diagonalRun old new i + 1 else 0 := by
  rw [diagonalRun, List.take_add_one, List.take_add_one, hx, hy]
  simp [agreeing, diagonalRun]

/-- The lengths of the runs behind `i` elements: none is longer than the runs on the diagonal that end
where it ends in the one and in the other sequence, and that on the diagonal is the run there. -/
structure Row (old new : List α) (i : Nat) (row : List Nat) : Prop where
  diagonal : (0 :: row).getD i 0 = diagonalRun old new i
  le_old : ∀ j, (0 :: row).getD j 0 ≤ diagonalRun old new i
  le_new : ∀ j, (0 :: row).getD j 0 ≤ diagonalRun old new j

theorem row_nil (old new : List α) : Row old new 0 [] := by
  have hzero : ∀ j, ([0] : List Nat).getD j 0 = 0 := fun j => by
    cases j <;> rfl
  exact ⟨rfl, fun j => by rw [hzero]; exact Nat.zero_le _, fun j => by rw [hzero]; exact Nat.zero_le _⟩

theorem Row.nextRow {i : Nat} {row : List Nat} (h : Row old new i row) (hpaired : Paired old new) {x : α}
    (hx : old[i]? = some x) : Row old new (i + 1) (nextRow (fun _ => true) x 0 row new) := by
  have hi : i < new.length := by
    rw [← hpaired.length_eq]
    exact (List.getElem?_eq_some_iff.mp hx).1
  obtain ⟨y, hy⟩ : ∃ y, new[i]? = some y := ⟨_, List.getElem?_eq_getElem hi⟩
  have hrun := diagonalRun_succ hx hy
  -- an entry of the new row is one more than the entry before it, or nothing
  have hentry : ∀ {j : Nat} {z : α}, new[j]? = some z →
      (0 :: Alignment.nextRow (fun _ => true) x 0 row new).getD (j + 1) 0 =
        if x == z then (0 :: row).getD j 0 + 1 else 0 := by
    intro j z hz
    rw [List.getD_cons_succ, List.getD_eq_getElem?_getD, getElem?_nextRow, hz]
    rfl
  have hbeyond : ∀ {j : Nat}, new[j]? = none →
      (0 :: Alignment.nextRow (fun _ => true) x 0 row new).getD (j + 1) 0 = 0 := by
    intro j hz
    rw [List.getD_cons_succ, List.getD_eq_getElem?_getD, getElem?_nextRow, hz]
    rfl
  refine ⟨?_, fun j => ?_, fun j => ?_⟩
  · rw [hentry hy, hrun, h.diagonal]
  · cases j with
    | zero => exact Nat.zero_le _
    | succ j =>
      cases hz : new[j]? with
      | none =>
        rw [hbeyond hz]
        exact Nat.zero_le _
      | some z =>
        rw [hentry hz]
        split
        · next hxz =>
          rw [hrun, if_pos (hpaired.agree hx hy (Or.inl ⟨z, List.mem_of_getElem? hz, hxz⟩))]
          exact Nat.succ_le_succ (h.le_old j)
        · exact Nat.zero_le _
  · cases j with
    | zero => exact Nat.zero_le _
    | succ j =>
      cases hz : new[j]? with
      | none =>
        rw [hbeyond hz]
        exact Nat.zero_le _
      | some z =>
        rw [hentry hz]
        split
        · next hxz =>
          have hj : j < old.length := by
            rw [hpaired.length_eq]
            exact (List.getElem?_eq_some_iff.mp hz).1
          have hw : old[j]? = some old[j] := List.getElem?_eq_getElem hj
          rw [diagonalRun_succ hw hz,
            if_pos (hpaired.agree hw hz (Or.inr ⟨x, List.mem_of_getElem? hx, hxz⟩))]
          exact Nat.succ_le_succ (h.le_new j)
        · exact Nat.zero_le _

/-! ### The best block -/

/-- A row gives no better block off the diagonal: what it has in front of the diagonal was there before, and
what it has behind is no longer than what it has on it. -/
theorem diagonal_bestInRow {i j : Nat} {row : List Nat} {best : Block} (hbest : best.Diagonal)
    (hbefore : ∀ n ≤ i, diagonalRun old new n ≤ best.size)
    (hpast : i < j → diagonalRun old new (i + 1) ≤ best.size)
    (hrow : ∀ l k, row[l]? = some k → k ≤ diagonalRun old new (i + 1) ∧
      k ≤ diagonalRun old new (j + l + 1) ∧ (j + l = i → k = diagonalRun old new (i + 1))) :
    (bestInRow i j row best).Diagonal := by
  induction row generalizing j best with
  | nil => exact hbest
  | cons k row ih =>
    obtain ⟨hold, hnew, hdiagonal⟩ := hrow 0 k rfl
    have hrest : ∀ l k', row[l]? = some k' → k' ≤ diagonalRun old new (i + 1) ∧
        k' ≤ diagonalRun old new (j + 1 + l + 1) ∧
        (j + 1 + l = i → k' = diagonalRun old new (i + 1)) := by
      intro l k' hk'
      have h := hrow (l + 1) k' (by rw [List.getElem?_cons_succ]; exact hk')
      have hplace : j + (l + 1) = j + 1 + l := by omega
      rwa [hplace] at h
    rw [bestInRow]
    split
    · next hlt =>
      -- a longer block is on the diagonal
      have hle : i ≤ j := by
        by_contra hgt
        have := hbefore (j + 1) (by omega)
        rw [Nat.add_zero] at hnew
        omega
      have hge : j ≤ i := by
        by_contra hgt
        have := hpast (by omega)
        omega
      obtain rfl : i = j := by omega
      refine ih rfl (fun n hn => ?_) (fun _ => (hdiagonal (Nat.add_zero i)).symm.le) hrest
      exact (hbefore n hn).trans hlt.le
    · next hle =>
      refine ih hbest hbefore (fun hij => ?_) hrest
      rcases Nat.lt_or_ge i j with hlt | hge
      · exact hpast hlt
      · have hk := hdiagonal (by omega)
        omega

theorem diagonal_bestInRows (hpaired : Paired old new) {i : Nat} {row : List Nat} {rest : List α}
    {best : Block} (hrest : old.drop i = rest) (hrow : Row old new i row) (hbest : best.Diagonal)
    (hbefore : ∀ n ≤ i, diagonalRun old new n ≤ best.size) :
    (bestInRows (fun _ => true) new i row rest best).Diagonal := by
  induction rest generalizing i row best with
  | nil => exact hbest
  | cons x rest ih =>
    obtain ⟨hx, hdrop⟩ := of_drop_eq_cons hrest
    have hnext := hrow.nextRow hpaired hx
    have hlength : i < (nextRow (fun _ => true) x 0 row new).length := by
      rw [length_nextRow, ← hpaired.length_eq]
      exact (List.getElem?_eq_some_iff.mp hx).1
    have hentry : ∀ l k, (nextRow (fun _ => true) x 0 row new)[l]? = some k →
        (0 :: nextRow (fun _ => true) x 0 row new).getD (l + 1) 0 = k := by
      intro l k hk
      rw [List.getD_cons_succ, List.getD_eq_getElem?_getD, hk, Option.getD_some]
    rw [bestInRows]
    obtain ⟨hsize, hsizes⟩ := size_le_bestInRow i 0 (nextRow (fun _ => true) x 0 row new) best
    refine ih hdrop hnext ?_ fun n hn => ?_
    · refine diagonal_bestInRow hbest hbefore (fun h => absurd h (Nat.not_lt_zero i)) fun l k hk => ?_
      rw [Nat.zero_add, ← hentry l k hk]
      refine ⟨hnext.le_old _, hnext.le_new _, ?_⟩
      rintro rfl
      exact hnext.diagonal
    · rcases Nat.lt_or_ge i n with hlt | hle
      · obtain rfl : n = i + 1 := by omega
        refine hsizes _ (List.mem_of_getElem? (i := i) ?_)
        rw [← hnext.diagonal, List.getD_cons_succ, List.getD_eq_getElem?_getD,
          List.getElem?_eq_getElem hlength, Option.getD_some]
      · exact (hbefore n hle).trans hsize

/-- The longest block of paired sequences is on the diagonal. -/
theorem diagonal_longest (h : Paired old new) : (longest (fun _ => true) old new).Diagonal := by
  have hbest : (bestInRows (fun _ => true) new 0 [] old ⟨0, 0, 0⟩).Diagonal := by
    refine diagonal_bestInRows h (List.drop_zero) (row_nil old new) rfl fun n hn => ?_
    obtain rfl : n = 0 := by omega
    exact Nat.le_refl _
  rw [longest]
  generalize bestInRows (fun _ => true) new 0 [] old ⟨0, 0, 0⟩ = b at hbest
  rw [Block.Diagonal] at hbest ⊢
  simp only [hbest]

/-! ### Blocks and steps -/

theorem diagonal_blocksFrom (fuel i : Nat) (h : Paired old new) :
    ∀ b ∈ blocksFrom (fun _ => true) fuel i i old new, b.Diagonal := by
  induction fuel generalizing i old new with
  | zero => simp [blocksFrom]
  | succ fuel ih =>
    have hlongest := diagonal_longest h
    rw [blocksFrom]
    generalize longest (fun _ => true) old new = b at hlongest
    obtain ⟨m, n, size⟩ := b
    obtain rfl : m = n := hlongest
    split
    · simp
    · rw [List.forall_mem_append, List.forall_mem_cons]
      exact ⟨ih i (h.take m), rfl, ih _ (h.drop _)⟩

theorem diagonal_joinBlocks {bs : List Block} (h : ∀ b ∈ bs, b.Diagonal) :
    ∀ b ∈ joinBlocks bs, b.Diagonal := by
  induction bs with
  | nil => simp [joinBlocks]
  | cons b bs ih =>
    rw [List.forall_mem_cons] at h
    have hrest := ih h.2
    rw [joinBlocks]
    split
    · next c cs hjoined =>
      rw [hjoined, List.forall_mem_cons] at hrest
      split
      · exact List.forall_mem_cons.mpr ⟨h.1, hrest.2⟩
      · exact List.forall_mem_cons.mpr ⟨h.1, List.forall_mem_cons.mpr hrest⟩
    · exact List.forall_mem_singleton.mpr h.1

theorem diagonal_gap (i p : Nat) : ∀ s ∈ gap i p i p, s.Diagonal := by
  unfold gap
  rw [Bool.and_self]
  split
  · simp only [List.forall_mem_singleton]
    exact ⟨rfl, rfl, Or.inr rfl⟩
  · next hle =>
    rw [decide_eq_true_eq] at hle
    rw [if_neg hle, if_neg hle]
    simp

theorem diagonal_stepsAlong (m i : Nat) {bs : List Block} (h : ∀ b ∈ bs, b.Diagonal) :
    ∀ s ∈ stepsAlong m m i i bs, s.Diagonal := by
  induction bs generalizing i with
  | nil => exact diagonal_gap i m
  | cons b bs ih =>
    obtain ⟨p, q, size⟩ := b
    rw [List.forall_mem_cons] at h
    obtain rfl : p = q := h.1
    rw [stepsAlong, List.forall_mem_append, List.forall_mem_cons]
    exact ⟨diagonal_gap i p, ⟨rfl, rfl, Or.inl rfl⟩, ih _ h.2⟩

/-- Paired sequences are aligned place by place. -/
theorem diagonal_edits (h : Paired old new) : ∀ s ∈ edits old new, s.Diagonal := by
  rw [edits, editsWith, ← h.length_eq, blocks]
  exact diagonal_stepsAlong _ 0 (diagonal_joinBlocks (diagonal_blocksFrom old.length 0 h))

end Alignment

/-! ### Nodes -/

/-- Nodes of one kind place by place all have counterparts. -/
theorem carryReplaced_of_kindName {olds news : List Node}
    (h : List.Forall₂ (fun o n => o.kindName = n.kindName) olds news) :
    carryReplaced olds news = olds.map Node.id := by
  induction h with
  | nil => rfl
  | cons hon _ ih => rw [carryReplaced, if_pos hon, ih, List.map_cons]

theorem carryStep_of_diagonal {olds news : List Node}
    (h : List.Forall₂ (fun o n => o.kindName = n.kindName) olds news) {s : EditStep} (hs : s.Diagonal) :
    carryStep olds news s = (slice olds s.oldFrom s.oldTo).map Node.id := by
  rw [carryStep]
  rcases hs.kind with hkind | hkind
  · rw [hkind]
  · rw [hkind, ← hs.first, ← hs.last]
    exact carryReplaced_of_kindName (List.forall₂_drop _ (List.forall₂_take _ h))

theorem flatMap_carryStep_of_diagonal {olds news : List Node}
    (h : List.Forall₂ (fun o n => o.kindName = n.kindName) olds news) {ss : List EditStep} {i j : Nat}
    (htiles : Alignment.Tiles olds.length news.length i j ss) (hss : ∀ s ∈ ss, s.Diagonal) :
    ss.flatMap (carryStep olds news) = (olds.drop i).map Node.id := by
  induction ss generalizing i j with
  | nil =>
    obtain ⟨rfl, -⟩ := htiles
    rw [List.drop_length]
    rfl
  | cons s ss ih =>
    rw [List.forall_mem_cons] at hss
    obtain ⟨rfl, -, hle, -, -, -, -, -, hrest⟩ := htiles
    rw [List.flatMap_cons, carryStep_of_diagonal h hss.1, ih hrest hss.2, ← List.map_append,
      slice_append_drop olds hle]

/-- Where nodes are paired and of one kind place by place, the new nodes get the identities of the old. -/
theorem carriedIds_of_paired {olds news : List Node}
    (hkeys : Alignment.Paired (olds.map Node.key) (news.map Node.key))
    (hkinds : List.Forall₂ (fun o n => o.kindName = n.kindName) olds news) :
    carriedIds olds news = olds.map Node.id := by
  have htiles := Alignment.tiles_edits (olds.map Node.key) (news.map Node.key)
  rw [List.length_map, List.length_map] at htiles
  exact flatMap_carryStep_of_diagonal hkinds htiles (Alignment.diagonal_edits hkeys)

end StoryScript
