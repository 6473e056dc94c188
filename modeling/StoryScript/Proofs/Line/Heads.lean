import StoryScript.Proofs.Line.Readable

/-!
# The heads of choices and branches

The first line of a choice or of a branch is printed from what was read of it, and read again it gives the
same (`Line.heads_reread`), whatever was left out when it was read: blanks, markers of another kind, the
spelling of a check of a flag.

A text with a divert behind it comes back by `ChoiceHead.Readable.choiceHead_inline`. A text without one may
hold arrows just as well; it was read as it stands, so none of them ends it (`Line.dividedByArrow?_shown`),
and printed alone it is not divided either. For a branch everything is said by `Guard.Readable`.
-/

namespace StoryScript

open Text

namespace Line

variable {cs : List Char} {depth : Nat} {head : ChoiceHead}

/-- A choice comes from the pattern of choices. -/
theorem choice?_of_formOf (h : formOf cs = .choice depth head) :
    choice? cs = some (.choice depth head) := by
  rcases cases_of_formOf h with ⟨-, h⟩ | ⟨p, hp, h⟩ | ⟨-, -, h⟩
  · simp at h
  · cases makes_of_mem_patterns hp h with
    | choice => exact h
  · unfold textForm at h
    split at h
    · simp at h
    · split at h <;> simp at h

/-- A choice is read from what follows its markers, and it shows something: a text, or brackets, or a
divert. -/
theorem exists_choiceHead_of_choice? (h : choice? cs = some (.choice depth head)) :
    (∃ sticky, choiceHead sticky (cs.dropWhile isMarker) = head) ∧
      ∀ n, choiceForm n head = .choice n head := by
  rw [choice?_eq, Option.bind_eq_some_iff] at h
  obtain ⟨sticky, -, h⟩ := h
  split at h
  case isFalse => simp at h
  case isTrue =>
  generalize hread : choiceHead sticky (cs.dropWhile isMarker) = read at h
  unfold choiceForm at h ⊢
  split at h
  · simp at h
  · next hshown =>
    obtain ⟨-, rfl⟩ := LineForm.choice.inj (Option.some.inj h)
    exact ⟨⟨sticky, hread⟩, fun n => if_neg hshown⟩

/-- No arrow ends the text of a choice that was read without a divert. -/
theorem dividedByArrow?_shown (h : choice? cs = some (.choice depth head)) (hnone : head.divert = none) :
    dividedByArrow? head.shown = none := by
  obtain ⟨⟨sticky, hhead⟩, -⟩ := exists_choiceHead_of_choice? h
  generalize cs.dropWhile isMarker = rest at hhead
  -- had an arrow ended the line, there would be a divert
  have hdivided : dividedByArrow? rest = none := by
    by_contra hne
    obtain ⟨⟨front, t⟩, hdivided⟩ := Option.ne_none_iff_exists'.mp hne
    rw [← hhead, choiceHead, hdivided] at hnone
    simp only at hnone
    split at hnone <;> simp at hnone
  rw [choiceHead, hdivided] at hhead
  simp only at hhead
  split at hhead
  · next inner hinner =>
    -- a bracket behind the text is part of no target
    rw [← hhead, ChoiceHead.shown, if_pos rfl, ← List.cons_append]
    exact dividedByArrow?_eq_none (by decide) (by decide)
  · rw [← hhead, ChoiceHead.shown, if_neg (by simp), String.toList_ofList]
    exact hdivided

end Line

/-- A choice that was read is read again from what is printed behind its markers. -/
theorem ChoiceHead.choiceHead_behindMarkers {cs : List Char} (hcs : Trimmed cs) {depth : Nat}
    {head : ChoiceHead} (h : Line.choice? cs = some (.choice depth head)) :
    Line.choiceHead head.sticky (head.behindMarkers (head.divert.map String.toList)) = head := by
  obtain ⟨hreadable, htarget⟩ := Line.readable_of_choice? hcs h
  cases hdivert : head.divert with
  | none =>
    rw [Option.map_none, behindMarkers_none, Line.choiceHead, Line.dividedByArrow?_shown h hdivert]
    exact (hreadable.choiceHead_shown none).trans (hdivert ▸ rfl)
  | some t =>
    rw [Option.map_some, hreadable.choiceHead_inline (htarget t hdivert), String.ofList_toList]
    exact hdivert ▸ rfl

/-- What a choice line or a branch line was read as is read again from the line that is printed for it: a
choice at any depth, with its divert on the line if it has one, and a branch with nothing behind its colon.
That a line holds no line feed matters for a branch, whose colon could else stand on the next line. -/
theorem Line.heads_reread :
    (∀ line depth head, (ofText line).form = .choice depth head →
      ∀ n, (ofText (head.render (n + 1) head.divert.isSome)).form = .choice (n + 1) head) ∧
    ∀ line guard rest, '\n' ∉ line.toList → (ofText line).form = .branch guard rest →
      (ofText guard.renderLine).form = .branch guard "" := by
  refine ⟨fun line depth head h n => ?_, fun line guard rest hline h => ?_⟩
  · have htrim := trimmed_stripChars line.toList
    have hchoice : choice? (stripChars line.toList) = some (.choice depth head) := choice?_of_formOf h
    obtain ⟨hreadable, htarget⟩ := readable_of_choice? htrim hchoice
    have hform := form_choice hreadable n (t := head.divert.map String.toList) (by simpa using htarget)
    have hsame : ({ head with divert := (head.divert.map String.toList).map String.ofList } : ChoiceHead) =
        head := by
      simp [Function.comp_def]
    rw [hsame, Option.isSome_map, ChoiceHead.choiceHead_behindMarkers htrim hchoice] at hform
    rw [hform, (exists_choiceHead_of_choice? hchoice).2]
  · have hstrip : '\n' ∉ stripChars line.toList := fun hmem => hline (mem_of_mem_stripChars hmem)
    exact form_branch (readable_of_branch? hstrip (branch?_of_formOf h)).1

/-- A choice whose text ends in an arrow of its own, and a branch with a divert behind its colon. -/
theorem Line.heads_reread_at_arrows :
    (∀ n, (ofText ((⟨"[a] ->", false, true, some "inn.bar"⟩ : ChoiceHead).render (n + 1) true)).form =
      .choice (n + 1) ⟨"[a] ->", false, true, some "inn.bar"⟩) ∧
    (ofText (Guard.renderLine { flag := some "met" })).form = .branch { flag := some "met" } "" := by
  have hchoice : (ofText " * + [ [a] ->  ] -> inn.bar").form =
      .choice 2 ⟨"[a] ->", false, true, some "inn.bar"⟩ := by decide +kernel
  have hbranch : (ofText "-  GetStoryFlag( \"met\" ) : -> a").form =
      .branch { flag := some "met" } "-> a" := by decide +kernel
  exact ⟨heads_reread.1 _ _ _ hchoice, heads_reread.2 _ _ _ (by decide +kernel) hbranch⟩

end StoryScript
