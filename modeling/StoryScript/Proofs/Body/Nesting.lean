import StoryScript.Proofs.Body.Kept

/-!
# How deep a body is nested

A choice and the brace of a conditional are refused where `nestingLimit` containers are open; the branch
of a conditional is not, since it comes with its conditional. So one more container than the limit may be
open, and then the innermost one is a branch (`BodyState.Low.height_le`). What is refused is reported and
kept as it stands, and nothing else is reported as nested too deep (`Body.nesting_bounded`).
-/

namespace StoryScript

namespace BodyState

/-- Every open container was opened below the limit, or it is the branch of a conditional that was. -/
structure Low (s : BodyState) : Prop where
  shaped : s.Shaped
  pending : s.pending.isSome = true → heightOf s.frames < nestingLimit

variable {s : BodyState}

theorem Sound.low {branchFollows : Bool} (h : s.Sound branchFollows) : s.Low :=
  ⟨h.shaped, fun hp => (h.pending hp).2⟩

theorem heightOf_pop_le (s : BodyState) : heightOf s.pop.frames ≤ heightOf s.frames := by
  cases hf : s.frames with
  | nil => rw [pop_of_frames_nil hf, hf]
  | cons f fs =>
    rw [pop_of_frames hf]
    cases fs with
    | nil => simp [BodyState.add]
    | cons g gs => simp [BodyState.add]

theorem Low.pop (h : s.Low) : s.pop.Low := by
  refine ⟨h.shaped.pop, fun hp => ?_⟩
  rw [pop_pending] at hp
  exact lt_of_le_of_lt s.heightOf_pop_le (h.pending hp)

/-- Only a branch goes beyond the limit, and by no more than one. -/
theorem Low.height_le (h : s.Low) : s.height ≤ nestingLimit + 1 ∧
    (nestingLimit < s.height → ∃ f ∈ s.frames.head?, f.isBranch = true) := by
  rw [height_eq]
  cases hp : s.pending with
  | some k =>
    -- a conditional without its first branch counts, and it was opened where there was room
    have hlt := h.pending (by rw [hp]; rfl)
    exact ⟨by simp; omega, fun hgt => absurd hgt (by simp; omega)⟩
  | none =>
    cases hf : s.frames with
    | nil => simp [nestingLimit]
    | cons f fs =>
      have hshaped : Stacked s.root (f :: fs) := hf ▸ h.shaped
      have hlt : heightOf fs < nestingLimit := hshaped.2.1
      cases f with
      | choice m d hd c =>
        simp only [heightOf_cons, Frame.height, Option.isSome_none, Bool.false_eq_true, if_false]
        exact ⟨by omega, fun hgt => absurd hgt (by omega)⟩
      | branch k bs m g c =>
        -- a branch counts twice, for itself and for its conditional
        simp only [heightOf_cons, Frame.height, Option.isSome_none, Bool.false_eq_true, if_false]
        exact ⟨by omega, fun _ => ⟨_, rfl, rfl⟩⟩

end BodyState

namespace Body

/-- The states of the reader: between two lines, behind every line and every remainder that is read, and on
the way, when some of the innermost containers have been finished. -/
inductive Moment (supply : Nat) (texts : List String) : BodyState → Prop
  | between {s : BodyState} {n : Nat} {rest : List Line} :
      BodyState.Passes { supply } (skipped (Line.ofTexts texts)) (content (Line.ofTexts texts)) s n rest →
      Moment supply texts s
  | behind {s : BodyState} {n : Nat} {branchFollows : Bool} {l : Line} :
      Meets supply texts s n branchFollows l → Moment supply texts (s.apply branchFollows n l)
  | finishing {s : BodyState} : Moment supply texts s → Moment supply texts s.pop

theorem Moment.low {supply : Nat} {texts : List String} {s : BodyState} (h : Moment supply texts s) :
    s.Low := by
  induction h with
  | between h => exact (sound_of_passes supply texts h).low
  | behind h => exact (BodyState.Sound.apply _ _ _ h.sound).1.low
  | finishing _ ih => exact ih.pop

/-- At no moment more than one container above the limit is open, and above the limit the innermost one is a
branch. A line that is refused is reported, and it is kept as it stands; nothing else is reported as nested
too deep. -/
theorem nesting_bounded (supply : Nat) (texts : List String) :
    (∀ s, Moment supply texts s → s.height ≤ nestingLimit + 1 ∧
      (nestingLimit < s.height → ∃ f ∈ s.frames.head?, f.isBranch = true)) ∧
    (∀ s n branchFollows l, Meets supply texts s n branchFollows l → s.Refuses branchFollows l →
      ⟨.nestingTooDeep nestingLimit, n⟩ ∈ (read supply texts).1.issues ∧
        ∃ m : Mark, m.span = some ⟨n, n⟩ ∧
          .item (.leaf m (.raw l.text .unrecognized)) ∈ Item.nodesIn (read supply texts).1.items) ∧
    ∀ i ∈ (read supply texts).1.issues, ∀ limit, i.cause = .nestingTooDeep limit → limit = nestingLimit ∧
      ∃ s branchFollows l, Meets supply texts s i.line branchFollows l ∧ s.Refuses branchFollows l :=
  ⟨fun _ h => h.low.height_le, fun _ _ _ _ h hrefuses => kept_of_refuses h hrefuses,
    fun _ hi => (found_of_mem_issues hi).2⟩

/-- Choices, each one in the choice before it. -/
def stairs (steps : Nat) : List String :=
  (List.range steps).map fun k => String.ofList (List.replicate (k + 1) '*') ++ " [Down]"

/-- The seventeenth choice is refused, in whatever state the reader meets it. -/
theorem nesting_bounded_stairs :
    (∃ s, Moment 0 (stairs 17) s ∧ s.height = 16 ∧ s.height ≤ nestingLimit + 1) ∧
      ∃ s branchFollows l, Meets 0 (stairs 17) s 16 branchFollows l ∧ s.Refuses branchFollows l ∧
        ∃ m : Mark, m.span = some ⟨16, 16⟩ ∧
          .item (.leaf m (.raw l.text .unrecognized)) ∈ Item.nodesIn (read 0 (stairs 17)).1.items := by
  obtain ⟨hheight, hkept, hreported⟩ := nesting_bounded 0 (stairs 17)
  have hlast : Moment 0 (stairs 17) _ := .between BodyState.Passes.start.readFrom
  refine ⟨⟨_, hlast, by decide +kernel, (hheight _ hlast).1⟩, ?_⟩
  have hissue : ⟨.nestingTooDeep 16, 16⟩ ∈ (read 0 (stairs 17)).1.issues := by decide +kernel
  obtain ⟨-, s, branchFollows, l, hmeets, hrefuses⟩ := hreported _ hissue 16 rfl
  exact ⟨s, branchFollows, l, hmeets, hrefuses, (hkept _ _ _ _ hmeets hrefuses).2⟩

/-- The branch of a conditional that was opened right below the limit goes beyond it. -/
theorem not_height_le_of_branch :
    ¬ ∀ s, Moment 0 (stairs 15 ++ ["\x7b", "- dark:"]) s → s.height ≤ nestingLimit := fun h =>
  absurd (h _ (.between BodyState.Passes.start.readFrom)) (by decide +kernel)

end Body

end StoryScript
