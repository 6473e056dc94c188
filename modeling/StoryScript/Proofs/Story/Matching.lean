import StoryScript.Proofs.Story.Alignment
import Mathlib.Data.List.Infix

/-!
# What an alignment keeps

A step of an alignment that keeps a range keeps elements that agree: at each place of the range the element of
the old sequence agrees with that of the new one (`Alignment.agrees_edits`).

This holds of the runs whose lengths the search writes down (`Alignment.Runs`), each counted back from where it
ends, hence of the best run in any row, of that run extended on both sides (`Alignment.agrees_longest`), of
the blocks that are found on either side of it, and of blocks that are joined because they touch.
-/

namespace StoryScript

variable {α : Type} [BEq α]

/-- The elements of a block agree in the two sequences. -/
def Block.Agrees (old new : List α) (b : Block) : Prop :=
  ∀ l < b.size, ∃ x y, old[b.old + l]? = some x ∧ new[b.new + l]? = some y ∧ (x == y) = true

/-- Blocks that touch agree as one. -/
theorem Block.Agrees.join {old new : List α} {b c : Block} (hb : b.Agrees old new) (hc : c.Agrees old new)
    (hold : b.old + b.size = c.old) (hnew : b.new + b.size = c.new) :
    (⟨b.old, b.new, b.size + c.size⟩ : Block).Agrees old new := by
  intro l hl
  change l < b.size + c.size at hl
  rcases Nat.lt_or_ge l b.size with hlt | hge
  · exact hb l hlt
  · have hlast := hc (l - b.size) (by omega)
    rwa [show c.old + (l - b.size) = b.old + l by omega,
      show c.new + (l - b.size) = b.new + l by omega] at hlast

/-- A block of parts of two sequences is one of the sequences. -/
theorem Block.Agrees.of_prefix {old new part part' : List α} {b : Block} {i j : Nat}
    (h : b.Agrees part part') (hold : part <+: old.drop i) (hnew : part' <+: new.drop j) :
    (⟨i + b.old, j + b.new, b.size⟩ : Block).Agrees old new := by
  have hwhole : ∀ {whole part : List α} {i n : Nat} {x : α}, part <+: whole.drop i →
      part[n]? = some x → whole[i + n]? = some x := by
    intro whole part i n x hpart hx
    obtain ⟨rest, hrest⟩ := hpart
    have hn : n < part.length := (List.getElem?_eq_some_iff.mp hx).1
    rw [← List.getElem?_drop, ← hrest, List.getElem?_append_left hn, hx]
  intro l hl
  obtain ⟨x, y, hx, hy, hxy⟩ := h l hl
  have hx' := hwhole hold hx
  have hy' := hwhole hnew hy
  rw [← Nat.add_assoc] at hx' hy'
  exact ⟨x, y, hx', hy', hxy⟩

namespace Alignment

variable {fit : α → Bool} {old new : List α}

/-! ### Runs -/

/-- Behind `i` old elements, each number of a row is the length of a run of elements that agree, counted back
from the last old element and from the place of the number. -/
def Runs (old new : List α) (i : Nat) (row : List Nat) : Prop :=
  ∀ (j k : Nat), row[j]? = some k → ∀ l < k,
    ∃ x y, old[i - 1 - l]? = some x ∧ new[j - l]? = some y ∧ (x == y) = true

theorem Runs.nextRow {i : Nat} {row : List Nat} (h : Runs old new i row) {x : α} (hx : old[i]? = some x) :
    Runs old new (i + 1) (nextRow fit x 0 row new) := by
  intro j k hk l hl
  rw [getElem?_nextRow, Option.map_eq_some_iff] at hk
  obtain ⟨y, hy, rfl⟩ := hk
  split at hl
  · next hfits =>
    rw [Bool.and_eq_true] at hfits
    cases l with
    | zero => exact ⟨x, y, hx, hy, hfits.2⟩
    | succ l =>
      -- all but the last element are in the run that ends before both
      cases j with
      | zero =>
        rw [List.getD_cons_zero] at hl
        omega
      | succ j =>
        rw [List.getD_cons_succ, List.getD_eq_getElem?_getD] at hl
        cases hbefore : row[j]? with
        | none =>
          rw [hbefore, Option.getD_none] at hl
          omega
        | some k =>
          rw [hbefore, Option.getD_some] at hl
          have hrun := h j k hbefore l (by omega)
          rwa [show i - 1 - l = i + 1 - 1 - (l + 1) by omega, show j - l = j + 1 - (l + 1) by omega] at hrun
  · omega

/-- The block of a run agrees. -/
theorem Runs.agrees {i j k : Nat} {row : List Nat} (h : Runs old new i row) (hshort : Short i row)
    (hk : row[j]? = some k) : (⟨i - k, j + 1 - k, k⟩ : Block).Agrees old new := by
  obtain ⟨hki, hkj⟩ := hshort j k hk
  intro l hl
  change l < k at hl
  have hback := h j k hk (k - 1 - l) (by omega)
  rwa [show i - 1 - (k - 1 - l) = i - k + l by omega,
    show j - (k - 1 - l) = j + 1 - k + l by omega] at hback

/-! ### The longest block -/

/-- The best block of a row is the one before or that of a run of the row. -/
theorem bestInRow_cases (i j : Nat) (row : List Nat) (best : Block) :
    bestInRow i j row best = best ∨
      ∃ l k, row[l]? = some k ∧ bestInRow i j row best = ⟨i + 1 - k, j + l + 1 - k, k⟩ := by
  induction row generalizing j best with
  | nil => exact Or.inl rfl
  | cons k row ih =>
    rw [bestInRow]
    rcases ih (j + 1) (if best.size < k then ⟨i + 1 - k, j + 1 - k, k⟩ else best) with hbest | hrun
    · rw [hbest]
      split
      · exact Or.inr ⟨0, k, rfl, rfl⟩
      · exact Or.inl rfl
    · obtain ⟨l, k', hk', hrun⟩ := hrun
      refine Or.inr ⟨l + 1, k', hk', ?_⟩
      rw [hrun, show j + 1 + l + 1 = j + (l + 1) + 1 by omega]

theorem agrees_bestInRows {i : Nat} {row : List Nat} {rest : List α} {best : Block}
    (hrest : old.drop i = rest) (hruns : Runs old new i row) (hshort : Short i row)
    (hbest : best.Agrees old new) : (bestInRows fit new i row rest best).Agrees old new := by
  induction rest generalizing i row best with
  | nil => exact hbest
  | cons x rest ih =>
    obtain ⟨hx, hdrop⟩ := of_drop_eq_cons hrest
    have hnext : Runs old new (i + 1) (nextRow fit x 0 row new) := hruns.nextRow hx
    have hnextShort : Short (i + 1) (nextRow fit x 0 row new) := hshort.nextRow x new
    rw [bestInRows]
    refine ih hdrop hnext hnextShort ?_
    rcases bestInRow_cases i 0 (nextRow fit x 0 row new) best with heq | ⟨l, k, hk, heq⟩
    · rw [heq]
      exact hbest
    · rw [heq, Nat.zero_add]
      exact hnext.agrees hnextShort hk

theorem getElem?_of_lt_agreeing {xs ys : List α} {l : Nat} (hl : l < agreeing xs ys) :
    ∃ x y, xs[l]? = some x ∧ ys[l]? = some y ∧ (x == y) = true := by
  induction xs generalizing ys l with
  | nil => simp [agreeing] at hl
  | cons x xs ih =>
    cases ys with
    | nil => simp [agreeing] at hl
    | cons y ys =>
      rw [agreeing] at hl
      split at hl
      · next hxy =>
        cases l with
        | zero => exact ⟨x, y, rfl, rfl, hxy⟩
        | succ l =>
          have htail : l < agreeing xs ys := by omega
          obtain ⟨x', y', hx', hy', hxy'⟩ := ih htail
          exact ⟨x', y', by rw [List.getElem?_cons_succ, hx'], by rw [List.getElem?_cons_succ, hy'], hxy'⟩
      · omega

/-- The elements that agree in front of two places make a block that ends there. -/
theorem agrees_front {m n : Nat} (hm : m ≤ old.length) (hn : n ≤ new.length) {front : Nat}
    (hfront : front = agreeing (old.take m).reverse (new.take n).reverse) :
    front ≤ m ∧ front ≤ n ∧ (⟨m - front, n - front, front⟩ : Block).Agrees old new := by
  have hle := agreeing_le (old.take m).reverse (new.take n).reverse
  rw [← hfront, List.length_reverse, List.length_reverse, List.length_take, List.length_take] at hle
  have hback : ∀ {xs : List α} {m l : Nat} {x : α}, m ≤ xs.length → l < m →
      (xs.take m).reverse[l]? = some x → xs[m - 1 - l]? = some x := by
    intro xs m l x hm hl hx
    rw [List.getElem?_reverse (by rw [List.length_take]; omega), List.length_take, Nat.min_eq_left hm,
      List.getElem?_take_of_lt (by omega)] at hx
    exact hx
  refine ⟨by omega, by omega, fun l hl => ?_⟩
  change l < front at hl
  have hlt : front - 1 - l < agreeing (old.take m).reverse (new.take n).reverse := by omega
  obtain ⟨x, y, hx, hy, hxy⟩ := getElem?_of_lt_agreeing hlt
  refine ⟨x, y, ?_, ?_, hxy⟩
  · rw [← hback hm (by omega) hx]
    exact congrArg (old[·]?) (by dsimp only; omega)
  · rw [← hback hn (by omega) hy]
    exact congrArg (new[·]?) (by dsimp only; omega)

/-- The longest block agrees. -/
theorem agrees_longest (fit : α → Bool) (old new : List α) : (longest fit old new).Agrees old new := by
  have hbest : (bestInRows fit new 0 [] old ⟨0, 0, 0⟩).Agrees old new :=
    agrees_bestInRows List.drop_zero (by intro j k hk; simp at hk) (by intro l k hk; simp at hk)
      fun l hl => absurd hl (Nat.not_lt_zero l)
  obtain ⟨hold, hnew⟩ : (bestInRows fit new 0 [] old ⟨0, 0, 0⟩).Within old.length new.length :=
    within_bestInRows ⟨Nat.zero_le _, Nat.zero_le _⟩ (by omega) (by intro l k hk; simp at hk)
  rw [longest]
  generalize bestInRows fit new 0 [] old ⟨0, 0, 0⟩ = b at hbest hold hnew
  -- what agrees in front of the block, the block itself, and what agrees behind it
  have hbeginOld : b.old ≤ old.length := by omega
  have hbeginNew : b.new ≤ new.length := by omega
  obtain ⟨hfrontOld, hfrontNew, hfront⟩ := agrees_front hbeginOld hbeginNew rfl
  have hback : (⟨b.old + b.size, b.new + b.size, agreeing (old.drop (b.old + b.size))
      (new.drop (b.new + b.size))⟩ : Block).Agrees old new := by
    intro l hl
    obtain ⟨x, y, hx, hy, hxy⟩ := getElem?_of_lt_agreeing hl
    rw [List.getElem?_drop] at hx hy
    exact ⟨x, y, hx, hy, hxy⟩
  have hjoined := hfront.join hbest (by dsimp only; omega) (by dsimp only; omega)
  exact hjoined.join hback (by dsimp only; omega) (by dsimp only; omega)

/-! ### Blocks and steps -/

/-- All blocks agree that are found in parts of two sequences. -/
theorem agrees_blocksFrom (fuel i j : Nat) {part part' : List α} (hold : part <+: old.drop i)
    (hnew : part' <+: new.drop j) : ∀ b ∈ blocksFrom fit fuel i j part part', b.Agrees old new := by
  induction fuel generalizing i j part part' with
  | zero => simp [blocksFrom]
  | succ fuel ih =>
    have hlongest := agrees_longest fit part part'
    rw [blocksFrom]
    generalize longest fit part part' = b at hlongest
    have hdrop : ∀ {whole part : List α} {i : Nat} (n : Nat), part <+: whole.drop i →
        part.drop n <+: whole.drop (i + n) := by
      intro whole part i n hpart
      rw [← List.drop_drop]
      exact hpart.drop n
    split
    · simp
    · rw [List.forall_mem_append, List.forall_mem_cons]
      refine ⟨?_, hlongest.of_prefix hold hnew, ?_⟩
      · exact ih i j ((List.take_prefix _ _).trans hold) ((List.take_prefix _ _).trans hnew)
      · rw [Nat.add_assoc, Nat.add_assoc]
        exact ih _ _ (hdrop _ hold) (hdrop _ hnew)

theorem agrees_joinBlocks {bs : List Block} (h : ∀ b ∈ bs, b.Agrees old new) :
    ∀ b ∈ joinBlocks bs, b.Agrees old new := by
  induction bs with
  | nil => simp [joinBlocks]
  | cons b bs ih =>
    rw [List.forall_mem_cons] at h
    have hrest := ih h.2
    rw [joinBlocks]
    split
    · next c cs hjoined =>
      rw [hjoined, List.forall_mem_cons] at hrest
      split
      · next htouch =>
        rw [Bool.and_eq_true, decide_eq_true_eq, decide_eq_true_eq] at htouch
        exact List.forall_mem_cons.mpr ⟨h.1.join hrest.1 htouch.1 htouch.2, hrest.2⟩
      · exact List.forall_mem_cons.mpr ⟨h.1, List.forall_mem_cons.mpr hrest⟩
    · exact List.forall_mem_singleton.mpr h.1

/-- Between blocks nothing is kept. -/
theorem kind_ne_equal_of_mem_gap {i m j n : Nat} {s : EditStep} (hs : s ∈ gap i m j n) :
    s.kind ≠ .equal := by
  unfold gap at hs
  split at hs
  · rw [List.mem_singleton.mp hs]
    simp
  · split at hs
    · rw [List.mem_singleton.mp hs]
      simp
    · split at hs
      · rw [List.mem_singleton.mp hs]
        simp
      · simp at hs

theorem agrees_stepsAlong {m n i j : Nat} {bs : List Block} (h : ∀ b ∈ bs, b.Agrees old new) :
    ∀ s ∈ stepsAlong m n i j bs, s.kind = .equal →
      (⟨s.oldFrom, s.newFrom, s.oldTo - s.oldFrom⟩ : Block).Agrees old new := by
  induction bs generalizing i j with
  | nil => exact fun s hs hkind => absurd hkind (kind_ne_equal_of_mem_gap hs)
  | cons b bs ih =>
    rw [List.forall_mem_cons] at h
    rw [stepsAlong, List.forall_mem_append, List.forall_mem_cons]
    refine ⟨fun s hs hkind => absurd hkind (kind_ne_equal_of_mem_gap hs), fun _ => ?_, ih h.2⟩
    dsimp only
    rw [Nat.add_sub_cancel_left]
    exact h.1

/-- What a step of an alignment keeps agrees. -/
theorem agrees_edits (old new : List α) : ∀ s ∈ edits old new, s.kind = .equal →
    (⟨s.oldFrom, s.newFrom, s.oldTo - s.oldFrom⟩ : Block).Agrees old new :=
  agrees_stepsAlong (agrees_joinBlocks (agrees_blocksFrom old.length 0 0
    List.prefix_rfl List.prefix_rfl))

end Alignment

end StoryScript
