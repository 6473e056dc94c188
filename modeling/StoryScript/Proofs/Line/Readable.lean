import StoryScript.Proofs.Line.Branch
import StoryScript.Proofs.Line.Choice
import StoryScript.Proofs.Line.Pattern

/-!
# What lines that are read are like

Whatever a recogniser takes out of a line is a part of that line, so it holds no line feed, and
names, targets, choices and guards are of the form that their recognisers look for
(`LineForm.Recognised`). Dialogue comes from no recogniser: it is what no other form accepts
(`Line.text_of_formOf`).

Both are stated for the whole list of recognisers at once, with one lemma for each recogniser that
takes something out.
-/

namespace StoryScript

open Text

/-- What is true of a form that a recogniser has found on the line `cs`. -/
def LineForm.Recognised (cs : List Char) : LineForm → Prop
  | knotHeader name => Line.knotHeader? cs = some (.knotHeader name)
  | stitchHeader name => IsName name.toList
  | choice _ head => head.Readable ∧ ∀ t ∈ head.divert, IsTarget t.toList
  | divert target => IsTarget target.toList ∧ Line.arrowTarget? cs = some target.toList
  | flagOperation _ flag => '\n' ∉ flag.toList
  | transition title subtitle => '\n' ∉ title.toList ∧ '\n' ∉ subtitle.toList
  | branch guard rest => guard.Readable ∧ '\n' ∉ rest.toList
  | media _ filename extension => '\n' ∉ filename.toList ∧ '\n' ∉ extension.toList
  | sideStory name => '\n' ∉ name.toList
  | fakeType d | wait d => d.equal d = true
  | position p => ['/', '/'] <+: cs ∧ p.equal p = true
  | text _ _ | blank => False
  | _ => True

/-- Numbers that are written with digits equal themselves. -/
theorem Binary64.equal_ofNumeral (cs : List Char) : (ofNumeral cs).equal (ofNumeral cs) = true := by
  have hplace : ∀ negative place,
      (atPlace negative place).equal (atPlace negative place) = true := by
    intro negative place
    unfold atPlace
    split <;> simp [equal]
  have hunsigned : ∀ negative cs,
      (ofUnsigned negative 0 cs).equal (ofUnsigned negative 0 cs) = true := by
    intro negative cs
    unfold ofUnsigned ofDecimal
    simp only
    split
    · simp [equal]
    · split
      · simp [equal]
      · split
        · simp [equal]
        · split <;> exact hplace _ _
  unfold ofNumeral
  split <;> exact hunsigned _ _

namespace Line

/-! ### Parts of a line -/

theorem lit?_subset {p : String} {cs rest : List Char} (h : lit? p cs = some rest) : rest ⊆ cs := by
  rw [lit?_eq_some_iff.mp h]
  exact List.subset_append_right _ _

theorem skipBlanks_subset (cs : List Char) : skipBlanks cs ⊆ cs := (List.dropWhile_sublist _).subset

theorem stripChars_subset (cs : List Char) : stripChars cs ⊆ cs := fun _ h => mem_of_mem_stripChars h

theorem quoted?_subset {cs text rest : List Char} (h : quoted? cs = some (text, rest)) :
    text ⊆ cs ∧ rest ⊆ cs := by
  rw [(quoted?_sound h).1]
  exact ⟨fun c hc => by simp [hc], fun c hc => by simp [hc]⟩

/-- The content of a tag is part of the line. -/
theorem tag?_subset {label : String} {cs content : List Char} (h : tag? label cs = some content) :
    content ⊆ cs := by
  simp only [tag?, Option.bind_eq_bind, Option.bind_eq_some_iff, Option.some.injEq] at h
  obtain ⟨rest, hrest, -, -, -, -, -, -, rfl⟩ := h
  exact List.Subset.trans (List.takeWhile_sublist _).subset (lit?_subset hrest)

/-- Both parts of a file name are parts of it. -/
theorem splitExtension_subset (name : String) :
    (Media.splitExtension name).1.toList ⊆ name.toList ∧
      (Media.splitExtension name).2.toList ⊆ name.toList := by
  unfold Media.splitExtension
  simp only
  split
  · simp only [String.toList_ofList]
    exact ⟨List.take_subset _ _, List.drop_subset _ _⟩
  · simp

/-! ### What the recognisers take out -/

variable {cs : List Char} {form : LineForm}

theorem recognised_stitchHeader? (h : stitchHeader? cs = some form) : form.Recognised cs := by
  simp only [stitchHeader?, Option.bind_eq_bind, Option.bind_eq_some_iff, Prod.exists,
    Option.some.injEq] at h
  obtain ⟨_, _, name, rest, hname, _, _, rfl⟩ := h
  change IsName (String.ofList name).toList
  rw [String.toList_ofList]
  exact (word?_sound hname).2.1

theorem recognised_divert? {target : List Char} (h : arrowTarget? cs = some target) :
    (LineForm.divert (String.ofList target)).Recognised cs := by
  change IsTarget (String.ofList target).toList ∧ arrowTarget? cs = some (String.ofList target).toList
  rw [String.toList_ofList]
  exact ⟨(arrowTarget?_sound h).1, h⟩

theorem recognised_flagCall? {function : String} {verb : FlagVerb} (hline : '\n' ∉ cs)
    (h : flagCall? function verb cs = some form) : form.Recognised cs := by
  simp only [flagCall?, Option.bind_eq_bind, Option.bind_eq_some_iff, Prod.exists,
    Option.some.injEq] at h
  obtain ⟨r₁, h₁, r₂, h₂, r₃, h₃, flag, rest, hquoted, -, -, rfl⟩ := h
  change '\n' ∉ (String.ofList flag).toList
  rw [String.toList_ofList]
  intro hnl
  exact hline (lit?_subset h₁ (skipBlanks_subset _ (lit?_subset h₂ (lit?_subset h₃
    (skipBlanks_subset _ ((quoted?_subset hquoted).1 hnl))))))

theorem recognised_transition? (hline : '\n' ∉ cs) (h : transition? cs = some form) :
    form.Recognised cs := by
  simp only [transition?, Option.bind_eq_bind, Option.bind_eq_some_iff, Prod.exists,
    Option.some.injEq] at h
  obtain ⟨r₁, h₁, r₂, h₂, title, rest, hquoted, -, -, rfl⟩ := h
  obtain ⟨htitle, hrest⟩ := quoted?_subset hquoted
  have hsub : ∀ {c}, c ∈ skipBlanks r₂ → c ∈ cs := fun hc =>
    lit?_subset h₁ (skipBlanks_subset _ (lit?_subset h₂ (skipBlanks_subset _ hc)))
  refine ⟨?_, ?_⟩
  · rw [String.toList_ofList]
    exact fun hnl => hline (hsub (htitle hnl))
  · rw [String.toList_ofList]
    intro hnl
    -- the subtitle is empty unless there is one
    cases hcomma : lit? "," (skipBlanks rest) with
    | none => simp [hcomma] at hnl
    | some r₃ =>
      cases hsubtitle : quoted? (skipBlanks r₃) with
      | none => simp [hcomma, hsubtitle] at hnl
      | some quoted =>
        obtain ⟨subtitle, behind⟩ := quoted
        simp only [hcomma, Option.bind_some, hsubtitle, Option.getD_some] at hnl
        exact hline (hsub (hrest (skipBlanks_subset _ (lit?_subset hcomma
          (skipBlanks_subset _ ((quoted?_subset hsubtitle).1 hnl))))))

/-- A tag that names a media file. -/
theorem recognised_media {kind : MediaKind} {label filename extension : String} {name : List Char}
    (hline : '\n' ∉ cs) (h : tag? label cs = some name)
    (hname : Media.splitExtension (String.ofList (stripChars name)) = (filename, extension)) :
    (LineForm.media kind filename extension).Recognised cs := by
  have hsub : stripChars name ⊆ cs := List.Subset.trans (stripChars_subset name) (tag?_subset h)
  have hparts := splitExtension_subset (String.ofList (stripChars name))
  rw [String.toList_ofList, hname] at hparts
  exact ⟨fun hnl => hline (hsub (hparts.1 hnl)), fun hnl => hline (hsub (hparts.2 hnl))⟩

theorem recognised_sideStory? {label : String} {name : List Char} (hline : '\n' ∉ cs)
    (h : tag? label cs = some name) :
    (LineForm.sideStory (String.ofList (stripChars name))).Recognised cs := by
  change '\n' ∉ (String.ofList (stripChars name)).toList
  rw [String.toList_ofList]
  exact fun hnl => hline (tag?_subset h (stripChars_subset name hnl))

/-- A tag that holds a number of seconds holds a number. -/
theorem equal_of_duration? {label : String} {d : Binary64} (h : duration? label cs = some d) :
    d.equal d = true := by
  simp only [duration?, Option.bind_eq_bind, Option.bind_eq_some_iff, Option.some.injEq] at h
  obtain ⟨-, -, ⟨digits, rest⟩, -, -, -, rfl⟩ := h
  exact Binary64.equal_ofNumeral digits

/-- Coordinates are numbers. -/
theorem equal_of_coordinates? {p : Position} {rest : List Char}
    (h : coordinates? cs = some (p, rest)) : p.equal p = true := by
  simp only [coordinates?, Option.bind_eq_bind, Option.bind_eq_some_iff, Option.some.injEq,
    Prod.mk.injEq] at h
  obtain ⟨-, -, -, -, -, -, ⟨x, -⟩, -, -, -, -, -, -, -, ⟨y, -⟩, -, -, -, rfl, -⟩ := h
  simp [Position.equal, Binary64.equal_ofNumeral]

theorem recognised_position? {p : Position} (h : position? cs = some (.position p)) :
    (LineForm.position p).Recognised cs := by
  simp only [position?, Option.bind_eq_bind, Option.bind_eq_some_iff, Option.some.injEq,
    LineForm.position.injEq] at h
  obtain ⟨rest, hrest, _, -, ⟨q, _⟩, hq, -, -, -, -, rfl⟩ := h
  exact ⟨⟨rest, (lit?_eq_some_iff.mp hrest).symm⟩, equal_of_coordinates? hq⟩

/-- Whatever is recognised on one line is recognised as it should be. -/
theorem recognised_of_mem_patterns {p : List Char → Option LineForm} (hp : p ∈ patterns)
    (hcs : Trimmed cs) (hline : '\n' ∉ cs) (h : p cs = some form) : form.Recognised cs := by
  cases makes_of_mem_patterns hp h with
  | knotHeader => exact h
  | stitchHeader => exact recognised_stitchHeader? h
  | position => exact recognised_position? h
  | choice => exact readable_of_choice? hcs h
  | divert htarget => exact recognised_divert? htarget
  | setFlag => exact recognised_flagCall? hline h
  | removeFlag => exact recognised_flagCall? hline h
  | transition => exact recognised_transition? hline h
  | branch => exact readable_of_branch? hline h
  | media _ htag hname => exact recognised_media hline htag hname
  | fakeType hd => exact equal_of_duration? hd
  | wait hd => exact equal_of_duration? hd
  | sideStory htag => exact recognised_sideStory? hline htag
  -- no other form carries anything that has to be printed again
  | _ => trivial

/-! ### Forms -/

/-- Dialogue begins its line and is no empty text. If a divert ends the line, the text is shorter
than the line; otherwise it is the line. -/
theorem text_of_formOf {content : String} {divert : Option String} (hcs : Trimmed cs)
    (hline : '\n' ∉ cs) (h : formOf cs = .text content divert) :
    (∀ p ∈ patterns, p cs = none) ∧ content.toList ≠ [] ∧ (∃ behind, cs = content.toList ++ behind) ∧
      (divert = none → content.toList = cs) ∧
      ∀ t ∈ divert, IsTarget t.toList ∧ content.toList.length < cs.length := by
  rcases cases_of_formOf h with ⟨-, h⟩ | ⟨p, hp, h⟩ | ⟨hne, hnone, h⟩
  · simp at h
  · exact absurd (recognised_of_mem_patterns hp hcs hline h) (by simp [LineForm.Recognised])
  · refine ⟨hnone, ?_⟩
    -- no pattern matches, so the line is dialogue unless it begins like syntax
    unfold textForm at h
    split at h
    · simp at h
    · split at h
      · next front target hdivided =>
        rw [LineForm.text.injEq] at h
        obtain ⟨rfl, rfl⟩ := h
        obtain ⟨ht, as, bs, ds, hsplit, has, -⟩ := dividedByArrow?_sound hdivided
        rw [String.toList_ofList]
        refine ⟨?_, ⟨_, hsplit⟩, by simp, ?_⟩
        · -- an arrow at the front would have made the line a divert
          rintro rfl
          have hdivert := hnone divert? (by simp [patterns])
          obtain ⟨rest, hrest, harrow⟩ := exists_of_shortest hdivided
          rw [List.nil_append] at hrest
          rw [← hrest, skipBlanks_of_head hcs.1] at harrow
          rw [divert?, harrow] at hdivert
          simp at hdivert
        · intro t hmem
          obtain rfl : String.ofList target = t := by simpa using hmem
          rw [String.toList_ofList]
          exact ⟨ht, length_front_lt hdivided⟩
      · rw [LineForm.text.injEq] at h
        obtain ⟨rfl, rfl⟩ := h
        rw [String.toList_ofList]
        exact ⟨hne, ⟨[], (List.append_nil cs).symm⟩, fun _ => rfl, by simp⟩

/-- A line is blank only if nothing stands on it. -/
theorem eq_nil_of_blank (hcs : Trimmed cs) (hline : '\n' ∉ cs) (h : formOf cs = .blank) :
    cs = [] := by
  rcases cases_of_formOf h with ⟨hnil, -⟩ | ⟨p, hp, h⟩ | ⟨-, -, h⟩
  · exact hnil
  · exact absurd (recognised_of_mem_patterns hp hcs hline h) (by simp [LineForm.Recognised])
  · unfold textForm at h
    split at h
    · simp at h
    · split at h <;> simp at h

/-- Every form but dialogue is recognised, if there is anything to be recognised. -/
theorem recognised_of_formOf (hcs : Trimmed cs) (hline : '\n' ∉ cs) (h : formOf cs = form)
    (hblank : form ≠ .blank) (htext : ∀ content divert, form ≠ .text content divert) :
    form.Recognised cs := by
  rcases cases_of_formOf h with ⟨-, hform⟩ | ⟨p, hp, h⟩ | ⟨-, -, h⟩
  · exact absurd hform hblank
  · exact recognised_of_mem_patterns hp hcs hline h
  · unfold textForm at h
    split at h
    · subst h
      trivial
    · split at h
      · exact absurd h.symm (htext _ _)
      · exact absurd h.symm (htext _ _)

end Line

end StoryScript
