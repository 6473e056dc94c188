import StoryScript.Proofs.Body.Diverts
import StoryScript.Proofs.Line.Heads
import StoryScript.Proofs.Line.Retargeted

/-!
# Where diverts are written

Whatever a line is read as, and whatever is read from its remainder, a divert comes from an arrow that ends the
line (`Line.exists_ends_of_mem_chain`).
-/

namespace StoryScript.Line

open Text

variable {cs : List Char} {d : String} {l : Line}

theorem exists_arrow_of_dividedByArrow? {front t : List Char} (h : dividedByArrow? cs = some (front, t)) :
    ∃ q, q <:+ cs ∧ arrowTarget? q = some t := by
  obtain ⟨rest, rfl, harrow⟩ := exists_of_shortest h
  exact ⟨_, (skipBlanks_suffix rest).trans (List.suffix_append _ _), harrow⟩

/-- The divert of a choice ends the line. -/
theorem exists_arrow_of_choice? {depth : Nat} {head : ChoiceHead}
    (h : choice? cs = some (.choice depth head)) (hd : head.divert = some d) :
    ∃ q, q <:+ cs ∧ arrowTarget? q = some d.toList := by
  obtain ⟨⟨sticky, hhead⟩, -⟩ := exists_choiceHead_of_choice? h
  rw [← hhead] at hd
  have hdivided : ∃ front t, dividedByArrow? (cs.dropWhile isMarker) = some (front, t) ∧
      String.ofList t = d := by
    unfold choiceHead at hd
    cases hdivided : dividedByArrow? (cs.dropWhile isMarker) with
    | none =>
      rw [hdivided] at hd
      dsimp only at hd
      split at hd <;> simp at hd
    | some x =>
      rw [hdivided] at hd
      dsimp only at hd
      refine ⟨x.1, x.2, rfl, ?_⟩
      split at hd <;> exact Option.some.inj hd
  obtain ⟨front, t, hdivided, rfl⟩ := hdivided
  obtain ⟨q, hq, harrow⟩ := exists_arrow_of_dividedByArrow? hdivided
  rw [String.toList_ofList]
  exact ⟨q, hq.trans (List.dropWhile_suffix _), harrow⟩

/-- The divert of any line ends the line. -/
theorem exists_arrow_of_formOf (hcs : Trimmed cs) (hline : '\n' ∉ cs) (h : (formOf cs).divert? = some d) :
    ∃ q, q <:+ cs ∧ arrowTarget? q = some d.toList := by
  cases hform : formOf cs with
  | divert target =>
    rw [hform] at h
    obtain rfl := Option.some.inj h
    have hrecognised := recognised_of_formOf hcs hline hform (by simp) (by simp)
    exact ⟨cs, List.suffix_refl cs, hrecognised.2⟩
  | choice depth head =>
    rw [hform] at h
    exact exists_arrow_of_choice? (choice?_of_formOf hform) h
  | text content divert =>
    rw [hform] at h
    obtain rfl : divert = some d := h
    rcases cases_of_formOf hform with ⟨-, h⟩ | ⟨p, hp, h⟩ | ⟨-, -, h⟩
    · simp at h
    · exact absurd (recognised_of_mem_patterns hp hcs hline h) (by simp [LineForm.Recognised])
    · unfold textForm at h
      split at h
      · simp at h
      · split at h
        · -- dialogue with a divert behind it
          next front t hdivided =>
          obtain ⟨-, ht⟩ := LineForm.text.inj h
          obtain rfl := Option.some.inj ht
          rw [String.toList_ofList]
          exact exists_arrow_of_dividedByArrow? hdivided
        · simp at h
  | _ => simp [hform, LineForm.divert?] at h

/-! ### Remainders -/

/-- What is left of a branch line ends the line. -/
theorem suffix_of_branch? (hcs : Trimmed cs) {guard : Guard} {rest : String}
    (h : branch? cs = some (.branch guard rest)) : rest.toList <:+ cs := by
  obtain ⟨⟨condition, behind⟩, hparts, hbranch⟩ := Option.map_eq_some_iff.mp h
  obtain ⟨-, rfl⟩ := LineForm.branch.inj hbranch
  have hbehind := suffix_of_branchParts? hparts
  rw [String.toList_ofList, stripChars_of_suffix hcs hbehind]
  exact (skipBlanks_suffix behind).trans hbehind

/-- So a divert of a remainder ends the line, too. -/
theorem exists_arrow_of_mem_chainOf (text : String) (hline : '\n' ∉ text.toList) (hl : l ∈ chainOf text)
    (hd : l.form.divert? = some d) :
    ∃ q, q <:+ stripChars text.toList ∧ arrowTarget? q = some d.toList := by
  have hstrip : ∀ text : String, '\n' ∉ text.toList → '\n' ∉ stripChars text.toList :=
    fun _ hline hmem => hline (mem_of_mem_stripChars hmem)
  have hfirst : ∀ text : String, '\n' ∉ text.toList → (ofText text).form.divert? = some d →
      ∃ q, q <:+ stripChars text.toList ∧ arrowTarget? q = some d.toList := fun text hline hd =>
    exists_arrow_of_formOf (trimmed_stripChars _) (hstrip text hline) hd
  rw [chainOf_eq] at hl
  induction text using chainOf.induct with
  | case1 text guard hform hlt =>
    rw [chain_of_branch hform, if_pos rfl, List.mem_singleton] at hl
    exact hfirst text hline (hl ▸ hd)
  | case2 text guard rest hform hlt hrest ih =>
    rw [chain_of_branch hform, if_neg hrest, List.mem_cons] at hl
    rcases hl with rfl | hl
    · exact hfirst text hline hd
    · -- the remainder is a suffix of the line, and so is every suffix of the remainder
      have hsuffix := suffix_of_branch? (trimmed_stripChars _) (branch?_of_formOf hform)
      have hline' : '\n' ∉ rest.toList := fun hmem => hstrip text hline (hsuffix.subset hmem)
      obtain ⟨q, hq, harrow⟩ := ih hline' (chainOf_eq rest ▸ hl)
      rw [stripChars_of_suffix (trimmed_stripChars _) hsuffix] at hq
      exact ⟨q, hq.trans ((skipBlanks_suffix _).trans hsuffix), harrow⟩
  | case3 text hform =>
    rw [chain_of_not_branch fun guard rest => hform guard rest, List.mem_singleton] at hl
    exact hfirst text hline (hl ▸ hd)

/-- A line that ends in an arrow with a target: what stands in front of the arrow, and the blanks in front of
the target and behind it. -/
structure Ends (f bs t ds cs : List Char) : Prop where
  text : cs = toArrow f bs (t ++ ds)
  between : ∀ c ∈ bs, isBlank c = true
  behind : ∀ c ∈ ds, isBlank c = true

/-- A divert is written as an arrow at the end of its line. -/
theorem exists_ends_of_mem_chain {p : String} (hline : '\n' ∉ p.toList) (hl : l ∈ (ofText p).chain)
    (hd : l.form.divert? = some d) : IsTarget d.toList ∧ ∃ f bs ds, Ends f bs d.toList ds p.toList := by
  obtain ⟨q, ⟨f, hf⟩, harrow⟩ := exists_arrow_of_mem_chainOf p hline (chainOf_eq p ▸ hl) hd
  obtain ⟨ht, bs, ds, rfl, hbs, hds⟩ := arrowTarget?_sound harrow
  obtain ⟨front, behind, hp, -, hbehind⟩ := stripChars_eq p.toList
  refine ⟨ht, front ++ f, bs, ds ++ behind, ?_, hbs, fun c hc => ?_⟩
  · rw [hp, ← hf]
    simp [toArrow]
  · exact (List.mem_append.mp hc).elim (hds c) (hbehind c)

end StoryScript.Line
