import StoryScript.Story.Alignment
import Mathlib.Data.List.Forall2

/-!
# Aligning two sequences

The steps of an alignment tile both sequences (`Alignment.tiles_edits`): they follow each other without
gap or overlap, a step that keeps elements keeps as many as there are, and a step that deletes some
puts none in their place. This rests on the matched blocks being in order and within both sequences
(`Alignment.ascending_blocks`).

Two sequences of one length that agree place by place are aligned as a whole: there is one step, and
it keeps everything (`Alignment.edits_of_agree`). The search for the longest block finds the whole
sequence because the run along the diagonal grows with every row (`Alignment.length_le_bestInRows`),
and it places that block at the front because no block reaches beyond its sequence
(`Alignment.within_bestInRows`). Agreement need not be transitive for this.
-/

namespace StoryScript

/-- A block that lies within sequences of the given lengths. -/
def Block.Within (m n : Nat) (b : Block) : Prop := b.old + b.size ≤ m ∧ b.new + b.size ≤ n

namespace Alignment

/-- The first of the elements that are left, and what is left behind it. -/
theorem of_drop_eq_cons {α : Type} {xs rest : List α} {i : Nat} {x : α} (h : xs.drop i = x :: rest) :
    xs[i]? = some x ∧ xs.drop (i + 1) = rest := by
  rw [← List.head?_drop, ← List.tail_drop, h]
  exact ⟨rfl, rfl⟩

variable {α : Type} [BEq α] {fit : α → Bool}

/-- A run that ends at two elements that agree is one longer than the run before both. -/
theorem getElem?_nextRow (x : α) (diagonal : Nat) (row : List Nat) (ys : List α) (j : Nat) :
    (nextRow fit x diagonal row ys)[j]? =
      ys[j]?.map fun y => if fit y && x == y then (diagonal :: row).getD j 0 + 1 else 0 := by
  induction ys generalizing diagonal row j with
  | nil => simp [nextRow]
  | cons y ys ih =>
    rw [nextRow]
    cases j with
    | zero => simp
    | succ j =>
      have hhead : (row.headD 0 :: row.tail).getD j 0 = (diagonal :: row).getD (j + 1) 0 := by
        cases row with
        | nil => cases j <;> simp
        | cons k row => simp
      rw [List.getElem?_cons_succ, List.getElem?_cons_succ, ih, hhead]

/-! ### The best block of a row -/

/-- The best block of a row is no shorter than any run of the row, nor than the block before. -/
theorem size_le_bestInRow (i j : Nat) (row : List Nat) (best : Block) :
    best.size ≤ (bestInRow i j row best).size ∧ ∀ k ∈ row, k ≤ (bestInRow i j row best).size := by
  induction row generalizing j best with
  | nil => simp [bestInRow]
  | cons k row ih =>
    rw [bestInRow, List.forall_mem_cons]
    split
    · next hlt =>
      obtain ⟨hbest, hrow⟩ := ih (j + 1) ⟨i + 1 - k, j + 1 - k, k⟩
      change k ≤ _ at hbest
      exact ⟨by omega, hbest, hrow⟩
    · next hle =>
      obtain ⟨hbest, hrow⟩ := ih (j + 1) best
      exact ⟨hbest, by omega, hrow⟩

/-- Runs that fit into both sequences give a block that does. -/
theorem within_bestInRow {m n i j : Nat} {row : List Nat} {best : Block} (hbest : best.Within m n)
    (hi : i < m) (hj : j + row.length ≤ n)
    (hrow : ∀ (l k : Nat), row[l]? = some k → k ≤ i + 1 ∧ k ≤ j + l + 1) :
    (bestInRow i j row best).Within m n := by
  induction row generalizing j best with
  | nil => exact hbest
  | cons k row ih =>
    obtain ⟨hki, hkj⟩ := hrow 0 k rfl
    rw [List.length_cons] at hj
    rw [bestInRow]
    refine ih ?_ (by omega) fun l k' hk' => ?_
    · split
      · exact ⟨by change i + 1 - k + k ≤ m; omega, by change j + 1 - k + k ≤ n; omega⟩
      · exact hbest
    · obtain ⟨hi', hj'⟩ := hrow (l + 1) k' (by rw [List.getElem?_cons_succ]; exact hk')
      exact ⟨hi', by omega⟩

/-! ### The best block of all rows -/

/-- The runs of row `i` are no longer than the parts of both sequences that they end in. -/
def Short (i : Nat) (row : List Nat) : Prop :=
  ∀ (l k : Nat), row[l]? = some k → k ≤ i ∧ k ≤ l + 1

theorem Short.nextRow {i : Nat} {row : List Nat} (h : Short i row) (x : α) (ys : List α) :
    Short (i + 1) (nextRow fit x 0 row ys) := by
  intro l k hk
  rw [getElem?_nextRow, Option.map_eq_some_iff] at hk
  obtain ⟨y, -, rfl⟩ := hk
  have hbefore : (0 :: row).getD l 0 ≤ i ∧ (0 :: row).getD l 0 ≤ l := by
    cases l with
    | zero => simp
    | succ l =>
      rw [List.getD_cons_succ, List.getD_eq_getElem?_getD]
      cases hrow : row[l]? with
      | none => simp
      | some k => exact h l k hrow
  split
  · exact ⟨by omega, by omega⟩
  · exact ⟨by omega, by omega⟩

theorem length_nextRow (x : α) (diagonal : Nat) (row : List Nat) (ys : List α) :
    (nextRow fit x diagonal row ys).length = ys.length := by
  induction ys generalizing diagonal row with
  | nil => rfl
  | cons y ys ih => rw [nextRow, List.length_cons, ih, List.length_cons]

/-- No block reaches beyond its sequence. -/
theorem within_bestInRows {m i : Nat} {row : List Nat} {old new : List α} {best : Block}
    (hbest : best.Within m new.length) (hi : i + old.length ≤ m) (hrow : Short i row) :
    (bestInRows fit new i row old best).Within m new.length := by
  induction old generalizing i row best with
  | nil => exact hbest
  | cons x old ih =>
    rw [List.length_cons] at hi
    have hnext : Short (i + 1) (nextRow fit x 0 row new) := hrow.nextRow x new
    rw [bestInRows]
    refine ih (within_bestInRow hbest (by omega) ?_ fun l k hk => ?_) (by omega) hnext
    · rw [length_nextRow]
      omega
    · obtain ⟨hki, hkl⟩ := hnext l k hk
      exact ⟨hki, by omega⟩

/-- Along elements that agree the best block grows with every row: if the run along the diagonal has
come to `i` after `i` rows, it comes to the whole length in the end. -/
theorem length_le_bestInRows (hfit : ∀ x, fit x = true) {i : Nat} {row : List Nat}
    {before after old : List α} {best : Block} (hi : before.length = i)
    (hdiagonal : i ≤ (0 :: row).getD i 0) (hbest : i ≤ best.size)
    (hagree : List.Forall₂ (fun x y => (x == y) = true) old after) :
    i + old.length ≤ (bestInRows fit (before ++ after) i row old best).size := by
  induction hagree generalizing i row before best with
  | nil => exact hbest
  | @cons x y old after hxy _ ih =>
    have hrun : (nextRow fit x 0 row (before ++ y :: after))[i]? =
        some ((0 :: row).getD i 0 + 1) := by
      rw [getElem?_nextRow, List.getElem?_append_right (by omega), hi, Nat.sub_self,
        List.getElem?_cons_zero, Option.map_some, hfit, hxy]
      rfl
    have hbefore : (before ++ [y]).length = i + 1 := by rw [List.length_append, hi]; rfl
    have happend : before ++ y :: after = before ++ [y] ++ after := by simp
    have hle := (size_le_bestInRow i 0 (nextRow fit x 0 row (before ++ y :: after)) best).2 _
      (List.mem_of_getElem? hrun)
    have hnext : i + 1 + old.length ≤
        (bestInRows fit (before ++ [y] ++ after) (i + 1) (nextRow fit x 0 row (before ++ y :: after))
          old (bestInRow i 0 (nextRow fit x 0 row (before ++ y :: after)) best)).size := by
      refine ih hbefore ?_ (by omega)
      rw [List.getD_cons_succ, List.getD_eq_getElem?_getD, hrun, Option.getD_some]
      omega
    rw [bestInRows, List.length_cons]
    rw [← happend] at hnext
    omega

/-! ### Blocks in order -/

theorem agreeing_le (xs ys : List α) : agreeing xs ys ≤ xs.length ∧ agreeing xs ys ≤ ys.length := by
  induction xs generalizing ys with
  | nil => simp [agreeing]
  | cons x xs ih =>
    cases ys with
    | nil => simp [agreeing]
    | cons y ys =>
      obtain ⟨hx, hy⟩ := ih ys
      rw [agreeing, List.length_cons, List.length_cons]
      split
      · exact ⟨by omega, by omega⟩
      · exact ⟨by omega, by omega⟩

/-- Neither does the longest block, when it is extended. -/
theorem within_longest (fit : α → Bool) (old new : List α) :
    (longest fit old new).Within old.length new.length := by
  obtain ⟨hold, hnew⟩ : (bestInRows fit new 0 [] old ⟨0, 0, 0⟩).Within old.length new.length :=
    within_bestInRows ⟨Nat.zero_le _, Nat.zero_le _⟩ (by omega) (by intro l k hk; simp at hk)
  rw [longest]
  generalize bestInRows fit new 0 [] old ⟨0, 0, 0⟩ = b at hold hnew
  have hfront := agreeing_le (old.take b.old).reverse (new.take b.new).reverse
  have hback := agreeing_le (old.drop (b.old + b.size)) (new.drop (b.new + b.size))
  simp only [List.length_reverse, List.length_take, List.length_drop] at hfront hback
  exact ⟨by dsimp only; omega, by dsimp only; omega⟩

/-- Blocks that follow each other in both sequences, from `i` and `j` on and up to `m` and `n`. -/
def Ascending (m n : Nat) : Nat → Nat → List Block → Prop
  | i, j, [] => i ≤ m ∧ j ≤ n
  | i, j, b :: bs => i ≤ b.old ∧ j ≤ b.new ∧ Ascending m n (b.old + b.size) (b.new + b.size) bs

theorem Ascending.append_cons {m n m' n' i j : Nat} {bs cs : List Block} {c : Block}
    (hbs : Ascending m' n' i j bs) (hm : m' ≤ c.old) (hn : n' ≤ c.new)
    (hcs : Ascending m n (c.old + c.size) (c.new + c.size) cs) :
    Ascending m n i j (bs ++ c :: cs) := by
  induction bs generalizing i j with
  | nil => exact ⟨Nat.le_trans hbs.1 hm, Nat.le_trans hbs.2 hn, hcs⟩
  | cons b bs ih => exact ⟨hbs.1, hbs.2.1, ih hbs.2.2⟩

theorem ascending_blocksFrom (fit : α → Bool) (fuel i j : Nat) (old new : List α) :
    Ascending (i + old.length) (j + new.length) i j (blocksFrom fit fuel i j old new) := by
  induction fuel generalizing i j old new with
  | zero => exact ⟨Nat.le_add_right _ _, Nat.le_add_right _ _⟩
  | succ fuel ih =>
    obtain ⟨hold, hnew⟩ := within_longest fit old new
    rw [blocksFrom]
    generalize longest fit old new = b at hold hnew
    split
    · exact ⟨Nat.le_add_right _ _, Nat.le_add_right _ _⟩
    · -- what is left of the block, the block, and what is right of it
      have hleft := ih i j (old.take b.old) (new.take b.new)
      have hright := ih (i + b.old + b.size) (j + b.new + b.size) (old.drop (b.old + b.size))
        (new.drop (b.new + b.size))
      rw [List.length_take, List.length_take] at hleft
      rw [List.length_drop, List.length_drop] at hright
      have hm : i + b.old + b.size + (old.length - (b.old + b.size)) = i + old.length := by omega
      have hn : j + b.new + b.size + (new.length - (b.new + b.size)) = j + new.length := by omega
      rw [hm, hn] at hright
      exact hleft.append_cons (by dsimp only; omega) (by dsimp only; omega) hright

theorem Ascending.joinBlocks {m n i j : Nat} {bs : List Block} (h : Ascending m n i j bs) :
    Ascending m n i j (joinBlocks bs) := by
  induction bs generalizing i j with
  | nil => exact h
  | cons b bs ih =>
    have hrest := ih h.2.2
    rw [Alignment.joinBlocks]
    generalize Alignment.joinBlocks bs = cs at hrest
    cases cs with
    | nil => exact ⟨h.1, h.2.1, hrest⟩
    | cons c cs =>
      dsimp only
      split
      · next htouch =>
        rw [Bool.and_eq_true, decide_eq_true_eq, decide_eq_true_eq] at htouch
        refine ⟨h.1, h.2.1, ?_⟩
        dsimp only
        rw [← Nat.add_assoc, ← Nat.add_assoc, htouch.1, htouch.2]
        exact hrest.2.2
      · exact ⟨h.1, h.2.1, hrest⟩

/-- The matched blocks follow each other and lie within both sequences. -/
theorem ascending_blocks (fit : α → Bool) (old new : List α) :
    Ascending old.length new.length 0 0 (blocks fit old new) := by
  have h := ascending_blocksFrom fit old.length 0 0 old new
  rw [Nat.zero_add, Nat.zero_add] at h
  exact h.joinBlocks

/-! ### Steps that tile both sequences -/

/-- Steps that follow each other from `i` and `j` on and come to `m` and `n`. -/
def Tiles (m n : Nat) : Nat → Nat → List EditStep → Prop
  | i, j, [] => i = m ∧ j = n
  | i, j, s :: ss => s.oldFrom = i ∧ s.newFrom = j ∧ i ≤ s.oldTo ∧ j ≤ s.newTo ∧
      s.oldTo ≤ m ∧ s.newTo ≤ n ∧
      (s.kind = .equal → s.oldTo - s.oldFrom = s.newTo - s.newFrom) ∧
      (s.kind = .delete → s.newTo = s.newFrom) ∧ Tiles m n s.oldTo s.newTo ss

/-- The step between two blocks leads from the end of the one to the beginning of the other. -/
theorem Tiles.gap_append {m n i j p q : Nat} {ss : List EditStep} (h : Tiles m n p q ss)
    (hi : i ≤ p) (hj : j ≤ q) (hm : p ≤ m) (hn : q ≤ n) :
    Tiles m n i j (gap i p j q ++ ss) := by
  unfold gap
  split
  · exact ⟨rfl, rfl, hi, hj, hm, hn, by simp, by simp, h⟩
  · next hboth =>
    rw [Bool.and_eq_true, decide_eq_true_eq, decide_eq_true_eq] at hboth
    split
    · exact ⟨rfl, rfl, hi, hj, hm, hn, by simp, fun _ => by dsimp only; omega, h⟩
    · split
      · exact ⟨rfl, rfl, hi, hj, hm, hn, by simp, by simp, h⟩
      · obtain ⟨rfl, rfl⟩ : i = p ∧ j = q := ⟨by omega, by omega⟩
        exact h

theorem Ascending.le {m n i j : Nat} {bs : List Block} (h : Ascending m n i j bs) :
    i ≤ m ∧ j ≤ n := by
  induction bs generalizing i j with
  | nil => exact h
  | cons b bs ih =>
    obtain ⟨hi, hj, hrest⟩ := h
    have hle := ih hrest
    exact ⟨by omega, by omega⟩

theorem tiles_stepsAlong {m n i j : Nat} {bs : List Block} (h : Ascending m n i j bs) :
    Tiles m n i j (stepsAlong m n i j bs) := by
  induction bs generalizing i j with
  | nil =>
    rw [stepsAlong, ← List.append_nil (gap i m j n)]
    exact Tiles.gap_append ⟨rfl, rfl⟩ h.1 h.2 (Nat.le_refl _) (Nat.le_refl _)
  | cons b bs ih =>
    obtain ⟨hi, hj, hrest⟩ := h
    have hle := hrest.le
    rw [stepsAlong]
    refine Tiles.gap_append ⟨rfl, rfl, by dsimp only; omega, by dsimp only; omega, hle.1, hle.2,
      fun _ => ?_, by simp, ih hrest⟩ hi hj (by omega) (by omega)
    dsimp only
    omega

/-- The steps of an alignment tile both sequences. -/
theorem tiles_edits (old new : List α) : Tiles old.length new.length 0 0 (edits old new) :=
  tiles_stepsAlong (ascending_blocks _ old new)

/-! ### The steps -/

variable {old new : List α}

/-- The longest block of sequences that agree is all of both. -/
theorem longest_of_agree (h : List.Forall₂ (fun x y => (x == y) = true) old new) :
    longest (fun _ => true) old new = ⟨0, 0, old.length⟩ := by
  have hlength := h.length_eq
  obtain ⟨hold, hnew⟩ : (bestInRows (fun _ => true) new 0 [] old ⟨0, 0, 0⟩).Within
      old.length new.length :=
    within_bestInRows ⟨Nat.zero_le _, Nat.zero_le _⟩ (by omega) (by intro l k hk; simp at hk)
  have hsize : 0 + old.length ≤ (bestInRows (fun _ => true) ([] ++ new) 0 [] old ⟨0, 0, 0⟩).size :=
    length_le_bestInRows (fun _ => rfl) rfl (by simp) (Nat.zero_le _) h
  rw [List.nil_append] at hsize
  rw [longest]
  generalize bestInRows (fun _ => true) new 0 [] old ⟨0, 0, 0⟩ = b at hold hnew hsize
  obtain ⟨i, j, k⟩ := b
  simp only at hold hnew hsize ⊢
  obtain ⟨rfl, rfl, rfl⟩ : i = 0 ∧ j = 0 ∧ k = old.length := ⟨by omega, by omega, by omega⟩
  have hdrop : old.drop (0 + old.length) = [] := by rw [Nat.zero_add, List.drop_length]
  rw [hdrop]
  simp [agreeing]

theorem blocksFrom_nil (fuel i j : Nat) :
    blocksFrom (fun _ => true) fuel i j ([] : List α) [] = [] := by
  cases fuel with
  | zero => rfl
  | succ fuel => rw [blocksFrom, longest_of_agree List.Forall₂.nil, List.length_nil, if_pos rfl]

/-- Sequences that agree place by place are aligned in one step. -/
theorem edits_of_agree (h : List.Forall₂ (fun x y => (x == y) = true) old new) :
    edits old new =
      if old = [] then [] else [⟨.equal, 0, old.length, 0, new.length⟩] := by
  have hlength := h.length_eq
  rw [edits, editsWith, blocks]
  cases hold : old with
  | nil =>
    rw [hold] at hlength
    rw [← hlength]
    rfl
  | cons x xs =>
    have hpos : (⟨0, 0, old.length⟩ : Block).size ≠ 0 := by rw [hold]; simp
    have hfuel : (x :: xs).length = xs.length + 1 := rfl
    rw [if_neg (by simp), hfuel, blocksFrom, ← hold, longest_of_agree h, if_neg hpos]
    have hdrop : new.drop (0 + old.length) = [] := by
      rw [Nat.zero_add, hlength, List.drop_length]
    have hdrop' : old.drop (0 + old.length) = [] := by rw [Nat.zero_add, List.drop_length]
    simp only [List.take_zero, hdrop, hdrop', blocksFrom_nil, List.nil_append]
    rw [← hfuel, ← hold, ← hlength]
    simp [joinBlocks, stepsAlong, gap]

end Alignment

end StoryScript
