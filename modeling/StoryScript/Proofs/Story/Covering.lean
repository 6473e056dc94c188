import StoryScript.Proofs.Story.Matching
import Mathlib.Order.RelIso.Basic
import Mathlib.Data.List.NodupEquivFin

/-!
# What an alignment finds

The search for blocks takes the longest one first and may pass over agreeing elements for it: an element to the
left of the block is never aligned with one to its right. It loses nothing where elements that agree occur in
one order (`Alignment.InOrder`), for then whatever agrees with something in front of a block agrees with
something in front of it in the other sequence as well. Every agreement is inside a block then
(`Alignment.covered_blocksFrom`), hence inside a range that is kept (`Alignment.covered_edits`).

Two sequences are so related when one of them is found in the other, in order and with other elements between,
and no two elements of the other agree (`Alignment.inOrder_of_sublistForall₂`).
-/

namespace StoryScript

/-- A block that aligns these two places. -/
def Block.Aligns (b : Block) (i j : Nat) : Prop := ∃ l < b.size, b.old + l = i ∧ b.new + l = j

namespace Alignment

variable {α : Type} [BEq α]

/-- The elements at two places agree. -/
def AgreeAt (old new : List α) (i j : Nat) : Prop :=
  ∃ x y, old[i]? = some x ∧ new[j]? = some y ∧ (x == y) = true

/-- What agrees occurs in the same order in both sequences. -/
def InOrder (old new : List α) : Prop :=
  ∀ i j i' j', AgreeAt old new i j → AgreeAt old new i' j' → (i < i' ↔ j < j')

variable {old new : List α}

theorem AgreeAt.lt {i j : Nat} (h : AgreeAt old new i j) : i < old.length ∧ j < new.length := by
  obtain ⟨x, y, hx, hy, -⟩ := h
  exact ⟨(List.getElem?_eq_some_iff.mp hx).1, (List.getElem?_eq_some_iff.mp hy).1⟩

theorem agreeAt_take {m n i j : Nat} :
    AgreeAt (old.take m) (new.take n) i j ↔ i < m ∧ j < n ∧ AgreeAt old new i j := by
  simp only [AgreeAt, List.getElem?_take]
  split_ifs with hi hj hj
  · simp [hi, hj]
  · simp [hj]
  · simp [hi]
  · simp [hi]

theorem agreeAt_drop {m n i j : Nat} :
    AgreeAt (old.drop m) (new.drop n) i j ↔ AgreeAt old new (m + i) (n + j) := by
  simp only [AgreeAt, List.getElem?_drop]

namespace InOrder

theorem take (h : InOrder old new) (m n : Nat) : InOrder (old.take m) (new.take n) :=
  fun i j i' j' hij hij' => h i j i' j' (agreeAt_take.mp hij).2.2 (agreeAt_take.mp hij').2.2

theorem drop (h : InOrder old new) (m n : Nat) : InOrder (old.drop m) (new.drop n) := by
  intro i j i' j' hij hij'
  have hlt := h _ _ _ _ (agreeAt_drop.mp hij) (agreeAt_drop.mp hij')
  rwa [Nat.add_lt_add_iff_left, Nat.add_lt_add_iff_left] at hlt

/-- Nothing agrees with two elements. -/
theorem eq_iff (h : InOrder old new) {i j i' j' : Nat} (hij : AgreeAt old new i j)
    (hij' : AgreeAt old new i' j') : i = i' ↔ j = j' := by
  have hbefore := h _ _ _ _ hij hij'
  have hbehind := h _ _ _ _ hij' hij
  omega

end InOrder

/-- What agrees is in front of a block in both sequences, inside it, or behind it in both. -/
theorem InOrder.cases_of_agrees (h : InOrder old new) {b : Block} (hb : b.Agrees old new)
    (hpos : 0 < b.size) {i j : Nat} (hij : AgreeAt old new i j) :
    (i < b.old ∧ j < b.new) ∨ b.Aligns i j ∨ (b.old + b.size ≤ i ∧ b.new + b.size ≤ j) := by
  have hfirst : AgreeAt old new b.old b.new := hb 0 hpos
  have hlast : AgreeAt old new (b.old + (b.size - 1)) (b.new + (b.size - 1)) := hb _ (by omega)
  have hfront := h _ _ _ _ hij hfirst
  have hback := h _ _ _ _ hlast hij
  rcases Nat.lt_or_ge i b.old with hlt | hge
  · exact Or.inl ⟨hlt, hfront.mp hlt⟩
  · rcases Nat.lt_or_ge i (b.old + b.size) with hinside | hbehind
    · have hplace : AgreeAt old new (b.old + (i - b.old)) (b.new + (i - b.old)) := hb _ (by omega)
      have hj := (h.eq_iff hij hplace).mp (by omega)
      exact Or.inr (Or.inl ⟨i - b.old, by omega, by omega, hj.symm⟩)
    · exact Or.inr (Or.inr ⟨hbehind, by omega⟩)

/-! ### The search -/

section

variable {fit : α → Bool} (hfit : ∀ x, fit x = true)
include hfit

/-- Where something agrees, a run of the row is not empty. -/
theorem exists_mem_nextRow {x y : α} {j : Nat} (row : List Nat) (hy : new[j]? = some y)
    (hxy : (x == y) = true) : ∃ k ∈ nextRow fit x 0 row new, 0 < k := by
  refine ⟨_, List.mem_of_getElem? (i := j) ?_, Nat.succ_pos ((0 :: row).getD j 0)⟩
  rw [getElem?_nextRow, hy, Option.map_some, hfit, hxy]
  rfl

theorem size_bestInRows_pos {i : Nat} {row : List Nat} {best : Block}
    (h : 0 < best.size ∨ ∃ p q, AgreeAt old new p q) :
    0 < (bestInRows fit new i row old best).size := by
  induction old generalizing i row best with
  | nil =>
    rcases h with hbest | ⟨p, q, hpq⟩
    · exact hbest
    · exact absurd hpq.lt.1 (Nat.not_lt_zero p)
  | cons x old ih =>
    obtain ⟨hkept, hrow⟩ := size_le_bestInRow i 0 (nextRow fit x 0 row new) best
    rw [bestInRows]
    refine ih ?_
    rcases h with hbest | ⟨p, q, a, y, ha, hy, hay⟩
    · exact Or.inl (Nat.lt_of_lt_of_le hbest hkept)
    · cases p with
      | zero =>
        -- it is in this row
        obtain rfl : x = a := Option.some.inj ha
        obtain ⟨k, hk, hpos⟩ := exists_mem_nextRow hfit row hy hay
        exact Or.inl (Nat.lt_of_lt_of_le hpos (hrow k hk))
      | succ p => exact Or.inr ⟨p, q, a, y, ha, hy, hay⟩

/-- The longest block is empty only if nothing agrees. -/
theorem size_longest_pos {i j : Nat} (h : AgreeAt old new i j) : 0 < (longest fit old new).size := by
  have hpos : 0 < (bestInRows fit new 0 [] old ⟨0, 0, 0⟩).size :=
    size_bestInRows_pos hfit (Or.inr ⟨i, j, h⟩)
  rw [longest]
  dsimp only
  omega

/-- Everything that agrees is found. The induction is on the fuel, as in the search: what is in front of the
longest block and what is behind it are searched in turn, and both are shorter. -/
theorem covered_blocksFrom (h : InOrder old new) {fuel p q i j : Nat} (hfuel : old.length ≤ fuel)
    (hij : AgreeAt old new i j) : ∃ b ∈ blocksFrom fit fuel p q old new, b.Aligns (p + i) (q + j) := by
  induction fuel generalizing p q i j old new with
  | zero => exact absurd hij.lt.1 (by omega)
  | succ fuel ih =>
    have hpos := size_longest_pos hfit hij
    have hagrees := agrees_longest fit old new
    obtain ⟨hold, hnew⟩ := within_longest fit old new
    rw [blocksFrom]
    generalize longest fit old new = b at hpos hagrees hold hnew
    rw [if_neg (by omega)]
    -- what agrees stands in front of the longest block, in it or behind it
    rcases h.cases_of_agrees hagrees hpos hij with ⟨hi, hj⟩ | ⟨l, hl, rfl, rfl⟩ | ⟨hi, hj⟩
    · have hshort : (old.take b.old).length ≤ fuel := by
        rw [List.length_take]
        omega
      obtain ⟨c, hc, haligns⟩ := ih (h.take b.old b.new) hshort (agreeAt_take.mpr ⟨hi, hj, hij⟩)
      exact ⟨c, List.mem_append_left _ hc, haligns⟩
    · refine ⟨⟨p + b.old, q + b.new, b.size⟩, by simp, l, hl, ?_, ?_⟩
      · dsimp only
        omega
      · dsimp only
        omega
    · have hshort : (old.drop (b.old + b.size)).length ≤ fuel := by
        rw [List.length_drop]
        omega
      have hij' : AgreeAt (old.drop (b.old + b.size)) (new.drop (b.new + b.size))
          (i - (b.old + b.size)) (j - (b.new + b.size)) := by
        rw [agreeAt_drop, Nat.add_sub_cancel' hi, Nat.add_sub_cancel' hj]
        exact hij
      obtain ⟨c, hc, haligns⟩ := ih (h.drop _ _) hshort hij'
        (p := p + b.old + b.size) (q := q + b.new + b.size)
      refine ⟨c, List.mem_append_right _ (List.mem_cons_of_mem _ hc), ?_⟩
      rwa [Nat.add_assoc p, Nat.add_assoc q, Nat.add_assoc p, Nat.add_assoc q,
        Nat.add_sub_cancel' hi, Nat.add_sub_cancel' hj] at haligns

end

/-! ### The steps -/

theorem covered_joinBlocks {bs : List Block} {i j : Nat} (h : ∃ b ∈ bs, b.Aligns i j) :
    ∃ b ∈ joinBlocks bs, b.Aligns i j := by
  induction bs with
  | nil => exact h
  | cons b bs ih =>
    have hcovered : b.Aligns i j ∨ ∃ c ∈ joinBlocks bs, c.Aligns i j := by
      obtain ⟨c, hc, haligns⟩ := h
      rcases List.mem_cons.mp hc with rfl | hmem
      · exact Or.inl haligns
      · exact Or.inr (ih ⟨c, hmem, haligns⟩)
    rw [joinBlocks]
    split
    · next c cs hjoined =>
      rw [hjoined] at hcovered
      split
      · next htouch =>
        -- the joined block aligns what either of the two does
        rw [Bool.and_eq_true, decide_eq_true_eq, decide_eq_true_eq] at htouch
        rcases hcovered with ⟨l, hl, hi, hj⟩ | ⟨d, hd, haligns⟩
        · exact ⟨_, List.mem_cons_self, l, Nat.lt_add_right _ hl, hi, hj⟩
        · rcases List.mem_cons.mp hd with rfl | hmem
          · obtain ⟨l, hl, hi, hj⟩ := haligns
            exact ⟨_, List.mem_cons_self, b.size + l, Nat.add_lt_add_left hl _, by dsimp only; omega,
              by dsimp only; omega⟩
          · exact ⟨d, List.mem_cons_of_mem _ hmem, haligns⟩
      · rcases hcovered with haligns | ⟨d, hd, haligns⟩
        · exact ⟨b, List.mem_cons_self, haligns⟩
        · exact ⟨d, List.mem_cons_of_mem _ hd, haligns⟩
    · next hjoined =>
      rw [hjoined] at hcovered
      rcases hcovered with haligns | ⟨d, hd, -⟩
      · exact ⟨b, List.mem_cons_self, haligns⟩
      · exact absurd hd List.not_mem_nil

theorem covered_stepsAlong {m n p q i j : Nat} {bs : List Block} (h : ∃ b ∈ bs, b.Aligns i j) :
    ∃ s ∈ stepsAlong m n p q bs, s.kind = .equal ∧
      (⟨s.oldFrom, s.newFrom, s.oldTo - s.oldFrom⟩ : Block).Aligns i j := by
  induction bs generalizing p q with
  | nil =>
    obtain ⟨b, hb, -⟩ := h
    exact absurd hb List.not_mem_nil
  | cons b bs ih =>
    rw [stepsAlong]
    obtain ⟨c, hc, haligns⟩ := h
    rcases List.mem_cons.mp hc with rfl | hmem
    · refine ⟨_, List.mem_append_right _ List.mem_cons_self, rfl, ?_⟩
      dsimp only
      rwa [Nat.add_sub_cancel_left]
    · obtain ⟨s, hs, hkept⟩ := ih ⟨c, hmem, haligns⟩
      exact ⟨s, List.mem_append_right _ (List.mem_cons_of_mem _ hs), hkept⟩

/-- Where what agrees occurs in one order, an alignment keeps all of it. -/
theorem covered_edits (h : InOrder old new) {i j : Nat} (hij : AgreeAt old new i j) :
    ∃ s ∈ edits old new, s.kind = .equal ∧
      (⟨s.oldFrom, s.newFrom, s.oldTo - s.oldFrom⟩ : Block).Aligns i j := by
  have hcovered := covered_blocksFrom (fun _ => rfl) h (Nat.le_refl _) hij (p := 0) (q := 0)
  rw [Nat.zero_add, Nat.zero_add] at hcovered
  exact covered_stepsAlong (covered_joinBlocks hcovered)

/-! ### What is not kept -/

theorem Tiles.of_mem {m n i j : Nat} {ss : List EditStep} (h : Tiles m n i j ss) :
    ∀ s ∈ ss, (i ≤ s.oldFrom ∧ j ≤ s.newFrom) ∧ (s.oldTo ≤ m ∧ s.newTo ≤ n) ∧
      (s.kind = .equal → s.oldTo - s.oldFrom = s.newTo - s.newFrom) ∧
      (s.kind = .delete → s.newTo = s.newFrom) := by
  induction ss generalizing i j with
  | nil => simp
  | cons s ss ih =>
    obtain ⟨rfl, rfl, hi, hj, hm, hn, hequal, hdelete, hrest⟩ := h
    refine List.forall_mem_cons.mpr
      ⟨⟨⟨Nat.le_refl _, Nat.le_refl _⟩, ⟨hm, hn⟩, hequal, hdelete⟩, fun t ht => ?_⟩
    obtain ⟨⟨hold, hnew⟩, hends⟩ := ih hrest t ht
    exact ⟨⟨Nat.le_trans hi hold, Nat.le_trans hj hnew⟩, hends⟩

/-- Steps that tile two sequences do not overlap in either. -/
theorem Tiles.pairwise {m n i j : Nat} {ss : List EditStep} (h : Tiles m n i j ss) :
    ss.Pairwise fun s t => s.oldTo ≤ t.oldFrom ∧ s.newTo ≤ t.newFrom := by
  induction ss generalizing i j with
  | nil => exact .nil
  | cons s ss ih =>
    have hrest := h.2.2.2.2.2.2.2.2
    exact .cons (fun t ht => (hrest.of_mem t ht).1) (ih hrest)

/-- Two steps that have a place of either sequence in common are one. -/
theorem Tiles.eq_of_common {m n i j : Nat} {ss : List EditStep} (h : Tiles m n i j ss) {s t : EditStep}
    (hs : s ∈ ss) (ht : t ∈ ss)
    (hcommon : (∃ p, (s.oldFrom ≤ p ∧ p < s.oldTo) ∧ t.oldFrom ≤ p ∧ p < t.oldTo) ∨
      ∃ p, (s.newFrom ≤ p ∧ p < s.newTo) ∧ t.newFrom ≤ p ∧ p < t.newTo) : s = t := by
  obtain ⟨a, ha, rfl⟩ := List.mem_iff_getElem.mp hs
  obtain ⟨b, hb, rfl⟩ := List.mem_iff_getElem.mp ht
  have hapart := List.pairwise_iff_getElem.mp h.pairwise
  rcases Nat.lt_trichotomy a b with hlt | rfl | hgt
  · have hends := hapart a b ha hb hlt
    rcases hcommon with ⟨p, hp⟩ | ⟨p, hp⟩
    · omega
    · omega
  · rfl
  · have hends := hapart b a hb ha hgt
    rcases hcommon with ⟨p, hp⟩ | ⟨p, hp⟩
    · omega
    · omega

/-- Where what agrees occurs in one order, a step that does not keep its ranges has nothing in them that
agrees with anything. -/
theorem not_agreeAt_of_kind_ne (h : InOrder old new) {s : EditStep} (hs : s ∈ edits old new)
    (hkind : s.kind ≠ .equal) {i j : Nat} (hij : AgreeAt old new i j) :
    ¬(s.oldFrom ≤ i ∧ i < s.oldTo) ∧ ¬(s.newFrom ≤ j ∧ j < s.newTo) := by
  obtain ⟨t, ht, htkind, l, hl, rfl, rfl⟩ := covered_edits h hij
  have htiles := tiles_edits old new
  have hne : s ≠ t := fun heq => hkind (heq ▸ htkind)
  have hsize := (htiles.of_mem t ht).2.2.1 htkind
  dsimp only at hl ⊢
  refine ⟨fun hs' => hne (htiles.eq_of_common hs ht (Or.inl ⟨_, hs', ?_⟩)),
    fun hs' => hne (htiles.eq_of_common hs ht (Or.inr ⟨_, hs', ?_⟩))⟩
  · omega
  · omega

/-- A step that replaces a range has something in both of its ranges. -/
theorem lt_of_kind_replace {m n p q : Nat} {bs : List Block} : ∀ s ∈ stepsAlong m n p q bs,
    s.kind = .replace → s.oldFrom < s.oldTo ∧ s.newFrom < s.newTo := by
  have hgap : ∀ {i k j l : Nat}, ∀ s ∈ gap i k j l,
      s.kind = .replace → s.oldFrom < s.oldTo ∧ s.newFrom < s.newTo := by
    intro i k j l s hs hkind
    unfold gap at hs
    split at hs
    · next hboth =>
      rw [Bool.and_eq_true, decide_eq_true_eq, decide_eq_true_eq] at hboth
      rw [List.mem_singleton.mp hs]
      exact hboth
    · split at hs
      · rw [List.mem_singleton.mp hs] at hkind
        simp at hkind
      · split at hs
        · rw [List.mem_singleton.mp hs] at hkind
          simp at hkind
        · exact absurd hs List.not_mem_nil
  induction bs generalizing p q with
  | nil => exact hgap
  | cons b bs ih =>
    rw [stepsAlong, List.forall_mem_append, List.forall_mem_cons]
    exact ⟨hgap, by simp, ih⟩

/-- Nothing is replaced where all elements of one of the sequences agree with some of the other. -/
theorem kind_ne_replace (h : InOrder old new)
    (hwhole : (∀ i < old.length, ∃ j, AgreeAt old new i j) ∨ ∀ j < new.length, ∃ i, AgreeAt old new i j) :
    ∀ s ∈ edits old new, s.kind ≠ .replace := by
  intro s hs hkind
  have hne : s.kind ≠ .equal := by simp [hkind]
  obtain ⟨hold, hnew⟩ := lt_of_kind_replace s hs hkind
  obtain ⟨-, ⟨hm, hn⟩, -⟩ := (tiles_edits old new).of_mem s hs
  rcases hwhole with hwhole | hwhole
  · obtain ⟨j, hij⟩ := hwhole s.oldFrom (Nat.lt_of_lt_of_le hold hm)
    exact (not_agreeAt_of_kind_ne h hs hne hij).1 ⟨Nat.le_refl _, hold⟩
  · obtain ⟨i, hij⟩ := hwhole s.newFrom (Nat.lt_of_lt_of_le hnew hn)
    exact (not_agreeAt_of_kind_ne h hs hne hij).2 ⟨Nat.le_refl _, hnew⟩

/-! ### Sequences found in others -/

variable {fewer more : List α}

/-- A sequence that is found in another one, with other elements between, is found at places that increase. -/
theorem exists_places (h : List.SublistForall₂ (fun x y => (x == y) = true) fewer more) :
    ∃ place : Nat ↪o Nat, ∀ i < fewer.length, AgreeAt fewer more i (place i) := by
  obtain ⟨found, hagree, hsublist⟩ := List.sublistForall₂_iff.mp h
  obtain ⟨place, hplace⟩ := List.sublist_iff_exists_orderEmbedding_getElem?_eq.mp hsublist
  refine ⟨place, fun i hi => ?_⟩
  obtain ⟨hlength, hget⟩ := List.forall₂_iff_get.mp hagree
  have hi' : i < found.length := hlength ▸ hi
  refine ⟨fewer[i], found[i], List.getElem?_eq_getElem hi, ?_, hget i hi hi'⟩
  rw [← hplace, List.getElem?_eq_getElem hi']

section

variable [PartialEquivBEq α]

theorem AgreeAt.symm {i j : Nat} (h : AgreeAt old new i j) : AgreeAt new old j i := by
  obtain ⟨x, y, hx, hy, hxy⟩ := h
  exact ⟨y, x, hy, hx, BEq.symm hxy⟩

theorem InOrder.symm (h : InOrder old new) : InOrder new old :=
  fun i j i' j' hij hij' => (h j i j' i' hij.symm hij'.symm).symm

/-- If no two elements of the other one agree, each of its elements agrees with one at most. -/
theorem inOrder_of_sublistForall₂ (h : List.SublistForall₂ (fun x y => (x == y) = true) fewer more)
    (hdistinct : more.Pairwise fun x y => ¬(x == y) = true) : InOrder fewer more := by
  obtain ⟨place, hplace⟩ := exists_places h
  have honly : ∀ {i j : Nat}, AgreeAt fewer more i j → j = place i := by
    intro i j hij
    obtain ⟨x, y, hx, hy, hxy⟩ := hij
    obtain ⟨x', y', hx', hy', hxy'⟩ := hplace i (AgreeAt.lt ⟨x, y, hx, hy, hxy⟩).1
    obtain rfl : x = x' := Option.some.inj (hx.symm.trans hx')
    obtain ⟨hj, rfl⟩ := List.getElem?_eq_some_iff.mp hy
    obtain ⟨hj', rfl⟩ := List.getElem?_eq_some_iff.mp hy'
    have hapart := List.pairwise_iff_getElem.mp hdistinct
    rcases Nat.lt_trichotomy j (place i) with hlt | heq | hgt
    · exact absurd (BEq.trans (BEq.symm hxy) hxy') (hapart _ _ hj hj' hlt)
    · exact heq
    · exact absurd (BEq.trans (BEq.symm hxy') hxy) (hapart _ _ hj' hj hgt)
  intro i j i' j' hij hij'
  rw [honly hij, honly hij', place.lt_iff_lt]

end

end Alignment

end StoryScript
