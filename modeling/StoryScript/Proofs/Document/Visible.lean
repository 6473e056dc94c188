import StoryScript.Proofs.Session.Reachable

/-!
# Knots that are visible

A knot is marked as a duplicate when an earlier one has its name, so no knot is marked just if all names
are different (`Document.IsReading.nodup_names_iff`), and then all knots are visible. The marks are those
of the run over the lines: a knot that ends is compared with the knots that have ended before
(`ScriptState.Flagged`).
-/

namespace StoryScript

namespace ScriptState

/-- A line ends the open knot or leaves the knots as they are. -/
theorem knots_step (n : Nat) (p : String) (l : Line) (s : ScriptState) :
    (s.step n p l).knots = if l.form.endsKnot then (s.closeKnot (n - 1)).knots else s.knots := by
  have hsteps := steps n p l s
  generalize s.step n p l = t at hsteps ⊢
  cases hsteps with
  | header hform => rw [hform]; rfl
  | regionStart hform =>
    rw [hform]
    exact (sameKnots_closeUnclosedRegion _ _ _).1
  | strayEnd hform _ => rw [hform]; rfl
  | regionEnd hform _ =>
    rw [hform]
    exact (sameKnots_closeRegion _ _).1
  | body hends _ => rw [hends]; rfl
  | blank hblank _ => rw [LineForm.endsKnot_of_isBlank hblank]; rfl
  | loose hends _ _ =>
    rw [hends]
    exact (sameKnots_looseLine n l s).knots

section Induction

variable {I : List Knot → Prop} (hfinish : ∀ (s : ScriptState) k last, I s.knots →
  I (s.finished k last :: s.knots))
include hfinish

theorem knots_closeKnot_induction (last : Nat) {s : ScriptState} (h : I s.knots) :
    I (s.closeKnot last).knots := by
  cases hs : s.knot with
  | none => rwa [closeKnot_of_none last hs]
  | some k =>
    rw [knots_closeKnot last hs]
    exact hfinish s k last h

/-- What every knot that ends keeps holds of all knots of a script. -/
theorem knots_induction (hnil : I []) (supply : Nat) (ls : List String) :
    I (ofLines supply ls).knots := by
  have hrun : ∀ (xs : List (String × Line)) (s : ScriptState) n, I s.knots → I (s.readFrom n xs).knots := by
    intro xs
    induction xs with
    | nil => exact fun _ _ h => h
    | cons x xs ih =>
      obtain ⟨p, l⟩ := x
      intro s n h
      refine ih _ (n + 1) ?_
      rw [knots_step]
      split
      · exact knots_closeKnot_induction hfinish (n - 1) h
      · exact h
  rw [knots_ofLines]
  exact knots_closeKnot_induction hfinish _ (hrun _ _ 1 hnil)

end Induction

/-- Knots, the last one first, each marked if an earlier one has its name. -/
def Flagged : List Knot → Prop
  | [] => True
  | k :: ks => k.duplicate = ks.any (·.name = k.name) ∧ Flagged ks

theorem flagged_ofLines (supply : Nat) (ls : List String) : Flagged (ofLines supply ls).knots :=
  knots_induction (I := Flagged) (fun _ _ _ h => ⟨rfl, h⟩) trivial supply ls

theorem Flagged.nodup_iff {ks : List Knot} (h : Flagged ks) :
    (ks.map Knot.name).Nodup ↔ ∀ k ∈ ks, k.duplicate = false := by
  induction ks with
  | nil => simp
  | cons k ks ih =>
    have hfirst : k.name ∉ ks.map Knot.name ↔ k.duplicate = false := by
      rw [h.1, List.any_eq_false, List.mem_map]
      simp
    rw [List.map_cons, List.nodup_cons, List.forall_mem_cons, hfirst, ih h.2]

end ScriptState

namespace Document

variable {d : Document}

/-- No knot is marked as a duplicate just if no two have the same name. -/
theorem IsReading.nodup_names_iff (h : d.IsReading) :
    (d.knots.map Knot.name).Nodup ↔ ∀ k ∈ d.knots, k.duplicate = false := by
  obtain ⟨supply, hknots⟩ := h.knots
  have hnames := congrArg (List.map Knot.name) hknots
  have hmarks := congrArg (List.map Knot.duplicate) hknots
  simp only [List.map_map, List.map_reverse] at hnames hmarks
  change d.knots.map Knot.name = ((ScriptState.ofLines supply d.lines).knots.map Knot.name).reverse at hnames
  change d.knots.map Knot.duplicate =
    ((ScriptState.ofLines supply d.lines).knots.map Knot.duplicate).reverse at hmarks
  have hiff := (ScriptState.flagged_ofLines supply d.lines).nodup_iff
  have hmarked : (∀ k ∈ d.knots, k.duplicate = false) ↔
      ∀ k ∈ (ScriptState.ofLines supply d.lines).knots, k.duplicate = false := by
    rw [← List.forall_mem_map (P := (· = false)), hmarks]
    simp
  rw [hnames, (List.reverse_perm _).nodup_iff, hiff, hmarked]

/-- Without duplicates every knot is visible. -/
theorem visibleKnots_of_not_duplicate (h : ∀ k ∈ d.knots, k.duplicate = false) : d.visibleKnots = d.knots := by
  rw [visibleKnots, List.filter_eq_self]
  exact fun k hk => by simp [h k hk]

end Document

end StoryScript
