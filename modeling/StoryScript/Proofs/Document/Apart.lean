import StoryScript.Proofs.Document.Identities
import Mathlib.Data.List.Flatten
import Mathlib.Data.List.Perm.Subperm

/-!
# Identities across the knots of a document

A document that carries identities over aligns each of its knots with a tree, and no tree serves two knots:
knots are told apart by name and occurrence (`nodup_occurrences`), so the knots that others are aligned
with are a part of the earlier ones, each taken once (`counterparts_subperm`). An identity therefore occurs
in the new document no more often than in the earlier one and among those just drawn together
(`Document.count_ids_carry_le`).

This speaks of the trees of one list of knots. A tree that an editor supplies for a knot makes such a list
as well, with the tree in the place of the one it came from (`Document.reference?_exchange`): under the same
name if the knot was edited, under another if it was renamed.
-/

namespace StoryScript

/-! ### Knots by name and occurrence -/

/-- The names of knots, each with its occurrence. -/
def occurrences (ks : List Knot) : List (String × Nat) :=
  (withOccurrence [] ks).map fun x => (x.1.name, x.2)

/-- The knot of a name and an occurrence. -/
def atOccurrence? (es : List Knot) (o : String × Nat) : Option (Knot × Nat) :=
  (withOccurrence [] es).find? fun x => x.1.name = o.1 && x.2 = o.2

theorem count_le_of_mem_withOccurrence {seen : List String} {ks : List Knot} {x : Knot × Nat}
    (h : x ∈ withOccurrence seen ks) : seen.count x.1.name ≤ x.2 := by
  induction ks generalizing seen with
  | nil => simp [withOccurrence] at h
  | cons k ks ih =>
    rw [withOccurrence, List.mem_cons] at h
    rcases h with rfl | h
    · exact Nat.le_refl _
    · exact Nat.le_trans List.count_le_count_cons (ih h)

/-- No two knots share both name and occurrence. -/
theorem nodup_occurrences (ks : List Knot) : (occurrences ks).Nodup := by
  have hall : ∀ seen : List String,
      ((withOccurrence seen ks).map fun x => (x.1.name, x.2)).Nodup := by
    induction ks with
    | nil => exact fun _ => List.nodup_nil
    | cons k ks ih =>
      intro seen
      rw [withOccurrence, List.map_cons, List.nodup_cons]
      refine ⟨fun hmem => ?_, ih _⟩
      -- a later knot of the name has a greater occurrence
      obtain ⟨x, hx, heq⟩ := List.mem_map.mp hmem
      obtain ⟨hname, hcount⟩ := Prod.mk.inj heq
      have hle := count_le_of_mem_withOccurrence hx
      rw [hname, List.count_cons_self, hcount] at hle
      exact absurd hle (Nat.not_succ_le_self _)
  exact hall []

theorem occurrences_congr {ks ls : List Knot} (h : ks.map Knot.name = ls.map Knot.name) :
    occurrences ks = occurrences ls := by
  have hall : ∀ seen : List String, (withOccurrence seen ks).map (fun x => (x.1.name, x.2)) =
      (withOccurrence seen ls).map fun x => (x.1.name, x.2) := by
    induction ks generalizing ls with
    | nil =>
      intro seen
      rw [List.map_nil, eq_comm, List.map_eq_nil_iff] at h
      rw [h]
    | cons k ks ih =>
      intro seen
      cases ls with
      | nil => simp at h
      | cons l ls =>
        obtain ⟨hname, hnames⟩ := List.cons.inj h
        rw [withOccurrence, withOccurrence, List.map_cons, List.map_cons, hname, ih hnames]
  exact hall []

theorem withOccurrence_congr {seen seen' : List String} {ks : List Knot}
    (h : ∀ k ∈ ks, seen.count k.name = seen'.count k.name) :
    withOccurrence seen ks = withOccurrence seen' ks := by
  induction ks generalizing seen seen' with
  | nil => rfl
  | cons k ks ih =>
    rw [withOccurrence, withOccurrence, h k List.mem_cons_self]
    refine congrArg _ (ih fun l hl => ?_)
    rw [List.count_cons, List.count_cons, h l (List.mem_cons_of_mem _ hl)]

/-- The knots that others are aligned with, and the occurrence of each. -/
def counterparts (es : List Knot) (os : List (String × Nat)) : List (Knot × Nat) :=
  os.filterMap (atOccurrence? es)

/-- Each knot is the counterpart of one knot at most. -/
theorem counterparts_subperm (es : List Knot) {os : List (String × Nat)} (h : os.Nodup) :
    (counterparts es os).Subperm (withOccurrence [] es) := by
  refine List.subperm_of_subset (h.filterMap fun o o' x hx hx' => ?_) fun x hx => ?_
  · have hkey : ∀ {o : String × Nat}, x ∈ atOccurrence? es o → (x.1.name, x.2) = o := by
      intro o ho
      have hfound := List.find?_some ho
      rw [Bool.and_eq_true, decide_eq_true_eq, decide_eq_true_eq] at hfound
      exact Prod.ext hfound.1 hfound.2
    exact (hkey hx).symm.trans (hkey hx')
  · obtain ⟨o, -, ho⟩ := List.mem_filterMap.mp hx
    exact List.mem_of_find?_eq_some ho

theorem count_idsIn_counterparts_le (es : List Knot) {os : List (String × Nat)} (h : os.Nodup) (i : Id) :
    (Knot.idsIn ((counterparts es os).map Prod.fst)).count i ≤ (Knot.idsIn es).count i := by
  obtain ⟨xs, hperm, hsub⟩ := counterparts_subperm es h
  have hids : ∀ ys : List (Knot × Nat), Knot.idsIn (ys.map Prod.fst) =
      ys.flatMap fun y => Item.idsIn y.1.items := by
    intro ys
    rw [Knot.idsIn, List.flatMap_map]
  calc (Knot.idsIn ((counterparts es os).map Prod.fst)).count i
      = (xs.flatMap fun y => Item.idsIn y.1.items).count i := by
        rw [hids]
        exact (hperm.symm.flatMap_right _).count_eq i
    _ ≤ ((withOccurrence [] es).flatMap fun y => Item.idsIn y.1.items).count i :=
        (hsub.flatMap _).count_le i
    _ = (Knot.idsIn es).count i := by rw [← hids, map_fst_withOccurrence]

/-! ### Documents that carry identities -/

namespace Document

/-- Of every list of knots by which the trees for a document can be told, the document has no more
identities than that list and the document before. -/
theorem count_ids_carry_le {new old : Document} {c : Counterpart} (es : List Knot)
    (h : ∀ o ∈ occurrences new.knots,
      old.reference? c o.1 o.2 = (atOccurrence? es o).map fun x => x.1.items) (i : Id) :
    (new.carry old c).ids.count i ≤ (Knot.idsIn es).count i + new.ids.count i := by
  have hall : ∀ xs : List (Knot × Nat), (∀ x ∈ xs, old.reference? c x.1.name x.2 =
      (atOccurrence? es (x.1.name, x.2)).map fun x => x.1.items) →
      (Knot.idsIn (xs.map (old.carryKnot c))).count i ≤
        (Knot.idsIn ((counterparts es (xs.map fun x => (x.1.name, x.2))).map Prod.fst)).count i +
          (Knot.idsIn (xs.map Prod.fst)).count i := by
    intro xs hxs
    -- a knot takes identities of its counterpart, where it has one, or keeps its own
    induction xs with
    | nil => exact Nat.zero_le _
    | cons x xs ih =>
      rw [List.forall_mem_cons] at hxs
      have hrest := ih hxs.2
      have hreference := hxs.1
      simp only [List.map_cons, Knot.idsIn_cons, List.count_append]
      cases hfound : atOccurrence? es (x.1.name, x.2) with
      | none =>
        have hknot : old.carryKnot c x = x.1 := by
          rw [carryKnot, hreference, hfound]
          rfl
        rw [counterparts, List.filterMap_cons_none hfound, hknot]
        unfold counterparts at hrest
        omega
      | some y =>
        have hknot : old.carryKnot c x = x.1.carry y.1.items := by
          rw [carryKnot, hreference, hfound]
          rfl
        have hcarried := Item.count_idsIn_carry_le x.1.items y.1.items i
        rw [counterparts, List.filterMap_cons_some hfound, hknot, List.map_cons, Knot.idsIn_cons,
          List.count_append]
        unfold counterparts at hrest
        change (Item.idsIn (Item.carry x.1.items y.1.items).1).count i + _ ≤ _
        omega
  have hknots := hall (withOccurrence [] new.knots) fun x hx => h _ (List.mem_map_of_mem hx)
  have hparts := count_idsIn_counterparts_le es (nodup_occurrences new.knots) i
  rw [map_fst_withOccurrence] at hknots
  calc (new.carry old c).ids.count i
      ≤ (Knot.idsIn ((counterparts es (occurrences new.knots)).map Prod.fst)).count i +
          (Knot.idsIn new.knots).count i := hknots
    _ ≤ (Knot.idsIn es).count i + new.ids.count i := Nat.add_le_add_right hparts _

/-! ### Trees that are supplied -/

theorem reference?_none (old : Document) (o : String × Nat) :
    old.reference? none o.1 o.2 = (atOccurrence? old.knots o).map fun x => x.1.items := rfl

/-- A tree for another name does not matter. -/
theorem reference?_of_ne (old : Document) {x : String × List Item} {o : String × Nat} (h : x.1 ≠ o.1) :
    old.reference? (some x) o.1 o.2 = (atOccurrence? old.knots o).map fun x => x.1.items := by
  have hfilter : Option.filter (fun c : String × List Item => o.2 = 0 && c.1 = o.1) (some x) = none := by
    rw [Option.filter_eq_none_iff]
    rintro c hc
    obtain rfl : x = c := by simpa using hc
    simp [h]
  rw [reference?, hfilter]
  rfl

/-- With a tree supplied for the first knot of a name, trees are told by the knots with another knot, that
has the tree, in the place of one. If it has another name, neither name may occur a second time, and the
former name is not asked for. -/
theorem reference?_exchange {old : Document} {ks ls : List Knot} {k : Knot} (k' : Knot)
    (hold : old.knots = ks ++ k :: ls) (hks : ∀ x ∈ ks, x.name ≠ k.name ∧ x.name ≠ k'.name)
    (hls : k.name ≠ k'.name → ∀ x ∈ ls, x.name ≠ k.name ∧ x.name ≠ k'.name) {o : String × Nat}
    (ho : k.name ≠ k'.name → o.1 ≠ k.name) :
    old.reference? (some (k'.name, k'.items)) o.1 o.2 =
      (atOccurrence? (ks ++ k' :: ls) o).map fun x => x.1.items := by
  have hzero : ∀ {name : String}, (∀ x ∈ ks, x.name ≠ name) → (ks.map Knot.name).count name = 0 := by
    intro name hne
    rw [List.count_eq_zero, List.mem_map]
    rintro ⟨x, hx, hname⟩
    exact hne x hx hname
  -- the other knots have the same occurrences in both lists
  have hsame : withOccurrence (k'.name :: (ks.map Knot.name).reverse) ls =
      withOccurrence (k.name :: (ks.map Knot.name).reverse) ls := by
    by_cases hname : k.name = k'.name
    · rw [hname]
    · refine withOccurrence_congr fun x hx => ?_
      obtain ⟨hx, hx'⟩ := hls hname x hx
      rw [List.count_cons_of_ne hx'.symm, List.count_cons_of_ne hx.symm]
  have hsplit : ∀ l : Knot, (∀ x ∈ ks, x.name ≠ l.name) → withOccurrence [] (ks ++ l :: ls) =
      withOccurrence [] ks ++ (l, 0) :: withOccurrence (l.name :: (ks.map Knot.name).reverse) ls := by
    intro l hl
    rw [withOccurrence_append, withOccurrence, List.append_nil, List.count_reverse, hzero hl]
  have hfront : k'.name = o.1 → (withOccurrence [] ks).find?
      (fun x => x.1.name = o.1 && x.2 = o.2) = none := by
    intro hname
    rw [List.find?_eq_none]
    intro x hx
    have hne := (hks x.1 (mem_of_mem_withOccurrence hx)).2
    simp [← hname, hne]
  by_cases hfirst : o.2 = 0 ∧ k'.name = o.1
  · have hfilter : Option.filter (fun c : String × List Item => o.2 = 0 && c.1 = o.1)
        (some (k'.name, k'.items)) = some (k'.name, k'.items) := by
      simp [Option.filter, hfirst.1, hfirst.2]
    rw [reference?, hfilter, atOccurrence?, hsplit k' fun x hx => (hks x hx).2, List.find?_append,
      hfront hfirst.2, Option.none_or, List.find?_cons_of_pos (by simp [hfirst.1, hfirst.2])]
    rfl
  · have hfilter : Option.filter (fun c : String × List Item => o.2 = 0 && c.1 = o.1)
        (some (k'.name, k'.items)) = none := by
      rw [Option.filter_eq_none_iff]
      intro c hc
      obtain rfl : (k'.name, k'.items) = c := by simpa using hc
      simpa using fun hn => fun hname => hfirst ⟨hn, hname⟩
    have hskip : ¬(k.name = o.1 ∧ 0 = o.2) := by
      rintro ⟨hname, hn⟩
      by_cases hk : k.name = k'.name
      · exact hfirst ⟨hn.symm, hk ▸ hname⟩
      · exact ho hk hname.symm
    have hskip' : ¬(k'.name = o.1 ∧ 0 = o.2) := fun hboth => hfirst ⟨hboth.2.symm, hboth.1⟩
    rw [reference?, hfilter, hold, atOccurrence?, hsplit k' fun x hx => (hks x hx).2,
      hsplit k fun x hx => (hks x hx).1, List.find?_append, List.find?_append,
      List.find?_cons_of_neg (by simpa using hskip), List.find?_cons_of_neg (by simpa using hskip'),
      hsame]

end Document

end StoryScript
