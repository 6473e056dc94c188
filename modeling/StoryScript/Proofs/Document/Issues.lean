import StoryScript.Proofs.Body.Kept
import StoryScript.Proofs.Document.Reread
import StoryScript.Proofs.Document.Spans

/-!
# Where issues stand

Every issue of a script stands on one of its lines (`Document.line_of_mem_issues`). While the script is read,
the issues stand on the lines that have been read (`ScriptState.Reported`): an issue of a marker or of a line
outside knots stands on that line, and one of a body, which is found when the knot ends, on a line of the body
(`Body.line_of_mem_issues`).
-/

namespace StoryScript

open Text

namespace ScriptState

variable {supply : Nat} {ls : List String} {m n : Nat} {s : ScriptState}

/-- All issues stand on the first `n` lines. -/
def Reported (n : Nat) (s : ScriptState) : Prop := ∀ i ∈ s.issues, 0 < i.line ∧ i.line ≤ n

namespace Reported

theorem mono (h : s.Reported m) (hle : m ≤ n) : s.Reported n := fun i hi =>
  ⟨(h i hi).1, Nat.le_trans (h i hi).2 hle⟩

theorem report (h : s.Reported n) (hpos : 0 < m) (hle : m ≤ n) (cause : IssueCause) :
    (s.report m cause).Reported n :=
  List.forall_mem_cons.mpr ⟨⟨hpos, hle⟩, h⟩

theorem closeRegion (h : s.Reported n) (last : Nat) : (s.closeRegion last).Reported n := by
  unfold ScriptState.closeRegion
  split <;> exact h

theorem closeUnclosedRegion (h : s.Reported n) (hpos : 0 < m) (hle : m ≤ n) (last : Nat) :
    (s.closeUnclosedRegion m last).Reported n := by
  unfold ScriptState.closeUnclosedRegion
  split
  · exact h
  · exact (h.report hpos hle _).closeRegion last

theorem outsideLine (h : s.Reported n) (hpos : 0 < m) (hle : m ≤ n) (l : Line) :
    (s.outsideLine m l).Reported n := by
  unfold ScriptState.outsideLine preambleLine
  split
  · split <;> exact h
  · split
    all_goals first
      | exact h
      | exact h.report hpos hle _

theorem looseLine (h : s.Reported n) (hpos : 0 < m) (hle : m ≤ n) (l : Line) :
    (s.looseLine m l).Reported n := by
  have hsteps := stepsOutside m l s
  generalize s.looseLine m l = t at hsteps ⊢
  cases hsteps with
  | placed _ _ _ => exact h
  | passed _ _ => exact outsideLine (s := { s with positionMayFollow := false }) h hpos hle l
  | outside _ => exact h.outsideLine hpos hle l

/-- The issues of a body are counted from the line behind the header, up to the last line that was read. -/
theorem closeKnot (h : s.Reported n) (hspanned : s.Spanned ls n) (last : Nat) :
    (s.closeKnot last).Reported n := by
  cases hk : s.knot with
  | none => rwa [closeKnot_of_none last hk]
  | some k =>
    obtain ⟨hpos, hle⟩ := hspanned.line k hk
    rw [closeKnot_of_some last hk]
    refine List.forall_mem_append.mpr ⟨List.forall_mem_append.mpr ⟨fun i hi => ?_, fun i hi => ?_⟩, h⟩
    · split at hi
      · obtain rfl := List.mem_singleton.mp hi
        exact ⟨hpos, hle⟩
      · exact absurd hi List.not_mem_nil
    · -- the body has the lines behind line `k.line` up to line `n`
      obtain ⟨j, hj, rfl⟩ := List.mem_map.mp (List.mem_reverse.mp hi)
      have hlt := Body.line_of_mem_issues hj
      rw [hspanned.body k hk, List.length_drop, List.length_take] at hlt
      dsimp only
      omega

theorem step (h : s.Reported n) (hspanned : s.Spanned ls n) (p : String) (l : Line) :
    (s.step (n + 1) p l).Reported (n + 1) := by
  have hpos := Nat.succ_pos n
  have hclosed := (h.closeKnot hspanned n).mono (Nat.le_succ n)
  have hnext := h.mono (Nat.le_succ n)
  have hsteps := steps (n + 1) p l s
  generalize s.step (n + 1) p l = t at hsteps ⊢
  cases hsteps with
  -- the open knot ends on the line before
  | header _ => exact hclosed
  | regionStart _ => exact hclosed.closeUnclosedRegion hpos (Nat.le_refl _) n
  | strayEnd _ _ => exact hclosed.report hpos (Nat.le_refl _) _
  | regionEnd _ _ => exact hclosed.closeRegion (n + 1)
  | body _ _ => exact hnext
  | blank _ _ => exact hnext
  | loose _ _ _ => exact hnext.looseLine hpos (Nat.le_refl _) l

theorem ofLines (supply : Nat) (hne : ls ≠ []) : (ofLines supply ls).Reported ls.length := by
  have hread : (behindFirst supply ls ls.length).Spanned ls ls.length ∧
      (behindFirst supply ls ls.length).Reported ls.length :=
    behindFirst_induction (I := fun n s => s.Spanned ls n ∧ s.Reported n)
      ⟨.start supply ls, fun _ hi => absurd hi List.not_mem_nil⟩
      fun n p l s hp hl h => ⟨h.1.step hp hl, h.2.step h.1 p l⟩
  rw [ofLines_eq_finish, finish]
  exact (hread.2.closeKnot hread.1 _).closeUnclosedRegion (List.length_pos_iff.mpr hne) (Nat.le_refl _) _

end Reported

end ScriptState

/-- Every issue of a script stands on one of its lines. -/
theorem Document.line_of_mem_issues {supply : Nat} {text : String} {i : Issue}
    (h : i ∈ (read supply text).1.issues) : 0 < i.line ∧ i.line ≤ (Text.lines text).length := by
  rw [read_eq, List.mem_mergeSort, List.mem_reverse] at h
  exact ScriptState.Reported.ofLines supply (lines_ne_nil text) i h

end StoryScript
