import StoryScript.Proofs.Line.Arrow

/-!
# The lines of choices

A choice line is one marker for each level of depth, the text, and perhaps an arrow. Reading it back
takes the markers off the front and the arrow off the end, and what is left must be the text that
was printed. It is if the text looks like one that was read (`ChoiceHead.Readable`): then it does
not begin with a marker, and brackets around it are those of a bracketed choice.

* `Line.form_choice` — the form of a printed choice line.
* `ChoiceHead.Readable.choiceHead_inline` — a divert printed on the line is always read back.
* `ChoiceHead.Readable.choiceHead_alone` — without one, the text may be taken for a text with a
  divert; what is read then has another text.
* `Line.readable_of_choice?` — every choice that is read is readable.
-/

namespace StoryScript

open Text

/-- What the text of a choice that was read is like. -/
structure ChoiceHead.Readable (h : ChoiceHead) : Prop where
  line : '\n' ∉ h.text.toList
  trimmed : Trimmed h.text.toList
  opening : h.bracketed = false → ∀ c ∈ h.text.toList.head?, c ≠ '*' ∧ c ≠ '+'
  unbracketed : h.bracketed = false → Line.bracketed? h.text.toList = none

namespace ChoiceHead

/-- The text of a choice as it is printed. -/
def shown (h : ChoiceHead) : List Char :=
  if h.bracketed then '[' :: (h.text.toList ++ [']']) else h.text.toList

/-- What is printed behind the markers, apart from a blank in front. -/
def behindMarkers (h : ChoiceHead) : Option (List Char) → List Char
  | none => h.shown
  | some t => if h.shown = [] then '-' :: '>' :: ' ' :: t else h.shown ++ ' ' :: '-' :: '>' :: ' ' :: t

/-- The marker of a choice. -/
def marker (h : ChoiceHead) : Char := if h.sticky then '+' else '*'

end ChoiceHead

namespace Line

/-! ### Markers -/

/-- The characters that stand in front of the text of a choice. -/
def isMarker (c : Char) : Bool := c = '*' || c = '+' || isBlank c

/-- The characters by which the depth of a choice is counted. -/
def isCounted (c : Char) : Bool := c ≠ ' ' && c ≠ '\t'

/-- A choice with this head, unless nothing at all stands behind its markers. -/
def choiceForm (depth : Nat) (head : ChoiceHead) : LineForm :=
  if head.text = "" && !head.bracketed && head.divert = none then .raw else .choice depth head

theorem choice?_eq (cs : List Char) : choice? cs = (sticky? cs).bind fun sticky =>
    if onOneLine (cs.dropWhile isMarker) then
      some (choiceForm ((cs.takeWhile isMarker).filter isCounted).length
        (choiceHead sticky (cs.dropWhile isMarker)))
    else none := by
  have hunfold : choice? cs = (do
      let sticky ← sticky? cs
      guard (onOneLine (cs.dropWhile isMarker))
      let head := choiceHead sticky (cs.dropWhile isMarker)
      if head.text = "" && !head.bracketed && head.divert = none then some .raw
      else some (.choice ((cs.takeWhile isMarker).filter isCounted).length head)) := rfl
  rw [hunfold]
  cases sticky? cs with
  | none => rfl
  | some sticky =>
    cases honline : onOneLine (cs.dropWhile isMarker) with
    | false => rfl
    | true =>
      rw [Option.bind_some, if_pos rfl, choiceForm, apply_ite some]
      rfl

/-- Markers with a blank between any two of them. -/
def markers (m : Char) : Nat → List Char
  | 0 => [m]
  | n + 1 => m :: ' ' :: markers m n

theorem toList_join_markers (m : Char) (n : Nat) :
    (Text.join " " (List.replicate (n + 1) (String.singleton m))).toList = markers m n := by
  induction n with
  | zero => simp [Text.join, markers, String.intercalate_singleton]
  | succ n ih =>
    rw [Text.join] at ih
    rw [Text.join, List.replicate_succ, String.intercalate_cons_of_ne_nil (by simp), markers, ← ih]
    simp

theorem mem_markers {m c : Char} {n : Nat} (h : c ∈ markers m n) : c = m ∨ c = ' ' := by
  induction n with
  | zero => exact Or.inl (List.mem_singleton.mp h)
  | succ n ih =>
    rcases List.mem_cons.mp h with rfl | h
    · exact Or.inl rfl
    · rcases List.mem_cons.mp h with rfl | h
      · exact Or.inr rfl
      · exact ih h

theorem exists_markers (m : Char) (n : Nat) : ∃ ms, markers m n = m :: ms := by
  cases n with
  | zero => exact ⟨[], rfl⟩
  | succ n => exact ⟨_, rfl⟩

theorem getLast?_markers (m : Char) (n : Nat) : (markers m n).getLast? = some m := by
  induction n with
  | zero => rfl
  | succ n ih =>
    obtain ⟨ms, hms⟩ := exists_markers m n
    rw [markers, List.getLast?_cons_cons, hms, List.getLast?_cons_cons, ← hms, ih]

theorem length_filter_markers {m : Char} (hm : isCounted m = true) (n : Nat) :
    ((markers m n).filter isCounted).length = n + 1 := by
  have hspace : isCounted ' ' = false := by decide
  induction n with
  | zero => simp [markers, hm]
  | succ n ih => simp [markers, hm, hspace, ih]

end Line

namespace ChoiceHead

variable {h : ChoiceHead}

theorem behindMarkers_none : h.behindMarkers none = h.shown := rfl

theorem behindMarkers_some (t : List Char) : h.behindMarkers (some t) =
    if h.shown = [] then '-' :: '>' :: ' ' :: t else h.shown ++ ' ' :: '-' :: '>' :: ' ' :: t := rfl

/-- A divert that is printed on the line stands at its end. -/
theorem exists_behindMarkers (h : ChoiceHead) (t : List Char) :
    ∃ front, h.behindMarkers (some t) = front ++ t := by
  rw [behindMarkers_some]
  split
  · exact ⟨['-', '>', ' '], rfl⟩
  · exact ⟨h.shown ++ [' ', '-', '>', ' '], by simp⟩

theorem isCounted_marker : Line.isCounted h.marker = true := by
  unfold marker
  split <;> decide

theorem isMarker_marker : Line.isMarker h.marker = true := by
  unfold marker
  split <;> decide

theorem isBlank_marker : isBlank h.marker = false := by
  unfold marker
  split <;> decide

theorem sticky?_marker (cs : List Char) : Line.sticky? (h.marker :: cs) = some h.sticky := by
  unfold marker
  cases h.sticky <;> rfl

/-- A choice line is made of markers and, behind a blank, the text and the divert. -/
theorem toList_render (h : ChoiceHead) (n : Nat) (t : Option (List Char)) :
    (({ h with divert := t.map String.ofList } : ChoiceHead).render (n + 1) t.isSome).toList =
      Line.markers h.marker n ++
        (if h.behindMarkers t = [] then [] else ' ' :: h.behindMarkers t) := by
  have hmarker : (if h.sticky then "+" else "*") = String.singleton h.marker := by
    unfold marker
    cases h.sticky <;> rfl
  have hjoin : (" ".intercalate (List.replicate (n + 1) (String.singleton h.marker))).toList =
      Line.markers h.marker n := Line.toList_join_markers h.marker n
  have hdivert : ∀ t : List Char, (renderDivert (String.ofList t)).toList = '-' :: '>' :: ' ' :: t := by
    intro t
    simp [renderDivert]
  unfold ChoiceHead.render Text.join
  simp only [hmarker]
  cases hb : h.bracketed with
  | true =>
    cases t with
    | none => simp [← hjoin, behindMarkers, shown, hb]
    | some t => simp [← hjoin, behindMarkers, shown, hb, hdivert]
  | false =>
    by_cases htext : h.text = ""
    · cases t with
      | none => simp [← hjoin, behindMarkers, shown, hb, htext]
      | some t => simp [← hjoin, behindMarkers, shown, hb, htext, hdivert]
    · cases t with
      | none => simp [← hjoin, behindMarkers, shown, hb, htext]
      | some t => simp [← hjoin, behindMarkers, shown, hb, htext, hdivert]

/-! ### Printed choices are read -/

theorem Readable.shown_trimmed (hr : h.Readable) : Trimmed h.shown := by
  unfold shown
  split
  · have hclosing : Trimmed [']'] := trimmed_singleton (by decide)
    exact hclosing.cons_append (by simp) (by decide) h.text.toList
  · exact hr.trimmed

theorem Readable.line_shown (hr : h.Readable) : '\n' ∉ h.shown := by
  have hline := hr.line
  unfold shown
  split
  · simp [hline]
  · exact hline

theorem Readable.head_shown (hr : h.Readable) : ∀ c ∈ h.shown.head?, Line.isMarker c = false := by
  intro c hc
  unfold shown at hc
  split at hc
  · obtain rfl : '[' = c := by simpa using hc
    decide
  · next hb =>
    have hopen := hr.opening (by simpa using hb) c hc
    simp [Line.isMarker, hopen.1, hopen.2, hr.trimmed.1 c hc]

theorem Readable.head_behindMarkers (hr : h.Readable) (t : Option (List Char)) :
    ∀ c ∈ (h.behindMarkers t).head?, Line.isMarker c = false := by
  cases t with
  | none => exact hr.head_shown
  | some t =>
    rw [behindMarkers_some]
    split
    · intro c hc
      obtain rfl : '-' = c := by simpa using hc
      decide
    · next hne =>
      obtain ⟨a, as, ha⟩ := List.exists_cons_of_ne_nil hne
      have hhead := hr.head_shown
      rw [ha] at hhead ⊢
      exact hhead

theorem Readable.getLast_behindMarkers (hr : h.Readable) {t : Option (List Char)}
    (ht : ∀ t' ∈ t, IsTarget t') : ∀ c ∈ (h.behindMarkers t).getLast?, isBlank c = false := by
  cases t with
  | none => exact hr.shown_trimmed.2
  | some t =>
    have htarget := ht t rfl
    obtain ⟨front, hfront⟩ := h.exists_behindMarkers t
    rw [hfront, List.getLast?_append_of_ne_nil front htarget.spec.1]
    exact htarget.trimmed.2

theorem Readable.line_behindMarkers (hr : h.Readable) {t : Option (List Char)}
    (ht : ∀ t' ∈ t, IsTarget t') : onOneLine (h.behindMarkers t) = true := by
  have hmem : '\n' ∉ h.behindMarkers t := by
    cases t with
    | none => exact hr.line_shown
    | some t =>
      have htarget : '\n' ∉ t := (ht t rfl).newline_not_mem
      have hshown := hr.line_shown
      rw [behindMarkers_some]
      split
      · simp [htarget]
      · simp [htarget, hshown]
  simpa [onOneLine] using hmem

end ChoiceHead

namespace Line

/-- A line that begins with a marker is a choice or raw. -/
theorem formOf_marker {cs : List Char} {sticky : Bool} (h : sticky? cs = some sticky) :
    formOf cs = (choice? cs).getD .raw := by
  have hform : formOf cs = ([choice?].findSome? fun p => p cs).getD .raw := by
    unfold sticky? at h
    split at h
    · rfl
    · rfl
    · simp at h
  rw [hform, List.findSome?]
  cases choice? cs <;> rfl

/-- The form of a printed choice line: a choice of the depth it was printed at, whose head is read
from what stands behind the markers. -/
theorem form_choice {h : ChoiceHead} (hr : h.Readable) (n : Nat) {t : Option (List Char)}
    (ht : ∀ t' ∈ t, IsTarget t') :
    (ofText (({ h with divert := t.map String.ofList } : ChoiceHead).render (n + 1)
      t.isSome)).form =
      choiceForm (n + 1) (choiceHead h.sticky (h.behindMarkers t)) := by
  have hline := h.toList_render n t
  obtain ⟨ms, hms⟩ := exists_markers h.marker n
  set blanks : List Char := if h.behindMarkers t = [] then [] else [' '] with hblanks
  have hcs : Line.markers h.marker n ++
      (if h.behindMarkers t = [] then [] else ' ' :: h.behindMarkers t) =
        (markers h.marker n ++ blanks) ++ h.behindMarkers t := by
    rw [hblanks]
    split
    · next hnil => rw [hnil, List.append_nil, List.append_nil]
    · rw [List.append_assoc, List.singleton_append]
  rw [hcs] at hline
  -- all of the front is dropped, and nothing of what stands behind it
  have hfront : ∀ c ∈ markers h.marker n ++ blanks, isMarker c = true := by
    intro c hc
    rcases List.mem_append.mp hc with hc | hc
    · rcases mem_markers hc with rfl | rfl
      · exact ChoiceHead.isMarker_marker
      · decide
    · rw [hblanks] at hc
      split at hc
      · simp at hc
      · rw [List.mem_singleton.mp hc]
        decide
  obtain ⟨htake, hdrop⟩ := takeWhile_dropWhile_append hfront (hr.head_behindMarkers t)
  have hcount : ((markers h.marker n ++ blanks).filter isCounted).length = n + 1 := by
    have hnone : blanks.filter isCounted = [] := by
      rw [hblanks]
      split <;> decide
    rw [List.filter_append, hnone, List.append_nil,
      length_filter_markers ChoiceHead.isCounted_marker]
  have htrim : Trimmed ((markers h.marker n ++ blanks) ++ h.behindMarkers t) := by
    by_cases hnil : h.behindMarkers t = []
    · have hb : blanks = [] := by rw [hblanks, if_pos hnil]
      rw [hnil, hb, List.append_nil, List.append_nil]
      refine ⟨fun c hc => ?_, fun c hc => ?_⟩
      · rw [hms] at hc
        obtain rfl : h.marker = c := by simpa using hc
        exact ChoiceHead.isBlank_marker
      · rw [getLast?_markers] at hc
        obtain rfl : h.marker = c := by simpa using hc
        exact ChoiceHead.isBlank_marker
    · refine ⟨fun c hc => ?_, fun c hc => ?_⟩
      · rw [hms] at hc
        obtain rfl : h.marker = c := by simpa using hc
        exact ChoiceHead.isBlank_marker
      · rw [List.getLast?_append_of_ne_nil _ hnil] at hc
        exact hr.getLast_behindMarkers ht c hc
  have hsticky : sticky? ((markers h.marker n ++ blanks) ++ h.behindMarkers t) = some h.sticky := by
    rw [hms]
    exact ChoiceHead.sticky?_marker _
  have hchoice : choice? ((markers h.marker n ++ blanks) ++ h.behindMarkers t) =
      some (choiceForm (n + 1) (choiceHead h.sticky (h.behindMarkers t))) := by
    rw [choice?_eq, hsticky, htake, hdrop, hcount, hr.line_behindMarkers ht]
    rfl
  rw [ofText_of_trimmed (hline ▸ htrim), hline, formOf_marker hsticky, hchoice,
    Option.getD_some]

end Line

namespace ChoiceHead

variable {h : ChoiceHead}

/-- What stands between the brackets of a printed choice. -/
theorem Readable.choiceHead_shown (hr : h.Readable) (divert : Option String) :
    (match Line.bracketed? h.shown with
      | some inner => (⟨String.ofList (stripChars inner), h.sticky, true, divert⟩ : ChoiceHead)
      | none => ⟨String.ofList h.shown, h.sticky, false, divert⟩) = { h with divert } := by
  cases hb : h.bracketed with
  | true =>
    have hbracketed : Line.bracketed? h.shown = some h.text.toList := by
      have hlit : lit? "[" ('[' :: (h.text.toList ++ [']'])) = some (h.text.toList ++ [']']) :=
        lit?_append "[" (h.text.toList ++ [']'])
      simp [Line.bracketed?, shown, hb, hlit, guard]
    rw [hbracketed]
    simp [stripChars_of_trimmed hr.trimmed]
  | false =>
    have hshown : h.shown = h.text.toList := by simp [shown, hb]
    rw [hshown, hr.unbracketed hb]
    simp

/-- A divert that was printed on the line of its choice is read back with it. -/
theorem Readable.choiceHead_inline (hr : h.Readable) {t : List Char} (ht : IsTarget t) :
    Line.choiceHead h.sticky (h.behindMarkers (some t)) =
      { h with divert := some (String.ofList t) } := by
  have hdivided : Line.dividedByArrow? (h.behindMarkers (some t)) = some (h.shown, t) := by
    rw [behindMarkers_some]
    split
    · next hnil =>
      have harrow : Line.arrowTarget? ('-' :: '>' :: ([' '] ++ t)) = some t :=
        Line.arrowTarget?_of_isTarget ht Line.isBlank_of_mem_space
      have hskip : skipBlanks ('-' :: '>' :: ' ' :: t) = '-' :: '>' :: ([' '] ++ t) := rfl
      rw [hnil, Line.dividedByArrow?, shortest, hskip, harrow]
    · exact Line.dividedByArrow?_append ht hr.line_shown hr.shown_trimmed.2
  rw [Line.choiceHead, hdivided]
  simp only [stripChars_of_trimmed hr.shown_trimmed]
  exact hr.choiceHead_shown (some (String.ofList t))

/-- A choice that was printed without a divert comes back without one, or with another text. -/
theorem Readable.choiceHead_alone (hr : h.Readable) :
    Line.choiceHead h.sticky (h.behindMarkers none) = { h with divert := none } ∨
      ((Line.choiceHead h.sticky (h.behindMarkers none)).bracketed = h.bracketed →
        (Line.choiceHead h.sticky (h.behindMarkers none)).text ≠ h.text) := by
  rw [behindMarkers_none, Line.choiceHead]
  cases hdivided : Line.dividedByArrow? h.shown with
  | none => exact Or.inl (hr.choiceHead_shown none)
  | some divided =>
    obtain ⟨front, t⟩ := divided
    -- brackets keep an arrow in the text from being read as a divert
    cases hb : h.bracketed with
    | true =>
      have hnone : Line.dividedByArrow? h.shown = none := by
        rw [shown, if_pos hb]
        rw [← List.cons_append]
        exact Line.dividedByArrow?_eq_none (by decide) (by decide)
      rw [hnone] at hdivided
      exact absurd hdivided (by simp)
    | false =>
      have hlt := Line.length_front_lt hdivided
      have hshown : h.shown = h.text.toList := by simp [shown, hb]
      right
      simp only
      split
      · intro hbracketed
        exact absurd hbracketed (by simp)
      · -- the text in front of the arrow is too short to be the whole of it
        intro _ htext
        have hlen := length_stripChars_le front
        have heq : stripChars front = h.text.toList := by rw [← htext, String.toList_ofList]
        rw [heq, ← hshown] at hlen
        omega

end ChoiceHead

/-! ### What choices that are read are like -/

namespace Line

/-- A text that stands in front of what no marker begins is that of a readable choice. -/
theorem readable_of_shown {rest shown : List Char} (sticky : Bool) (divert : Option String)
    (hline : '\n' ∉ rest) (hhead : ∀ c ∈ rest.head?, isMarker c = false) (htrimmed : Trimmed shown)
    (hmem : ∀ c ∈ shown, c ∈ rest) (hfirst : ∀ c ∈ shown.head?, c ∈ rest.head?) :
    (match bracketed? shown with
      | some inner => (⟨String.ofList (stripChars inner), sticky, true, divert⟩ : ChoiceHead)
      | none => ⟨String.ofList shown, sticky, false, divert⟩).Readable := by
  split
  · next inner hbracketed =>
    have hinner : ∀ c ∈ inner, c ∈ shown := by
      simp only [bracketed?, Option.bind_eq_bind, Option.bind_eq_some_iff] at hbracketed
      obtain ⟨r, hr, -, -, hdrop⟩ := hbracketed
      rw [lit?_eq_some_iff.mp hr, ← Option.some.inj hdrop]
      exact fun c hc => List.mem_append_right _ (List.dropLast_subset r hc)
    refine ⟨?_, ?_, by simp, by simp⟩
    · rw [String.toList_ofList]
      exact fun hc => hline (hmem _ (hinner _ (mem_of_mem_stripChars hc)))
    · rw [String.toList_ofList]
      exact trimmed_stripChars inner
  · next hbracketed =>
    refine ⟨?_, ?_, fun _ c hc => ?_, fun _ => ?_⟩
    · rw [String.toList_ofList]
      exact fun hc => hline (hmem _ hc)
    · rwa [String.toList_ofList]
    · rw [String.toList_ofList] at hc
      have hmarker := hhead c (hfirst c hc)
      simp only [isMarker, Bool.or_eq_false_iff, decide_eq_false_iff_not] at hmarker
      exact hmarker.1
    · rwa [String.toList_ofList]

/-- Every choice that is read from a line is readable, and its divert leads to a target. -/
theorem readable_of_choice? {cs : List Char} (hcs : Trimmed cs) {depth : Nat} {head : ChoiceHead}
    (h : choice? cs = some (.choice depth head)) :
    head.Readable ∧ ∀ t ∈ head.divert, IsTarget t.toList := by
  rw [choice?_eq, Option.bind_eq_some_iff] at h
  obtain ⟨sticky, -, h⟩ := h
  split at h
  case isFalse => simp at h
  case isTrue honline =>
  set rest := cs.dropWhile isMarker with hrest
  have hline : '\n' ∉ rest := by simpa [onOneLine] using honline
  have htrim : Trimmed rest := trimmed_dropWhile hcs fun c hc => by simp [isMarker, hc]
  have hhead : ∀ c ∈ rest.head?, isMarker c = false := fun _ hc => of_mem_head?_dropWhile hc
  have hform : choiceHead sticky rest = head := by
    unfold choiceForm at h
    split at h
    · simp at h
    · exact (LineForm.choice.inj (Option.some.inj h)).2
  rw [← hform, choiceHead]
  cases hdivided : dividedByArrow? rest with
  | none =>
    refine ⟨readable_of_shown sticky none hline hhead htrim (fun _ hc => hc) fun _ hc => hc, ?_⟩
    simp only
    split <;> simp
  | some divided =>
    obtain ⟨front, t⟩ := divided
    obtain ⟨ht, as, bs, ds, hsplit, -⟩ := dividedByArrow?_sound hdivided
    have hfront : ∀ c ∈ front.head?, c ∈ rest.head? := by
      intro c hc
      rw [hsplit, List.head?_append, hc]
      rfl
    have hfrontBlank : ∀ c ∈ front.head?, isBlank c = false := fun c hc => htrim.1 c (hfront c hc)
    refine ⟨readable_of_shown sticky (some (String.ofList t)) hline hhead
      (trimmed_stripChars front) (fun c hc => ?_) fun c hc => hfront c (head?_stripChars hfrontBlank c hc), ?_⟩
    · rw [hsplit]
      exact List.mem_append_left _ (mem_of_mem_stripChars hc)
    · simp only
      split <;> simpa using ht

end Line

end StoryScript
