import StoryScript.Document.Rendering
import StoryScript.Line.Reading
import StoryScript.Proofs.Text.Scan
import Mathlib.Data.Option.Basic

/-!
# Arrows at the end of a line

A divert is an arrow with a target behind it, and nothing behind the target. It may stand alone, at
the end of dialogue or at the end of a choice, and the three are read by the same search, which
takes the first arrow that leads to the end of the line.

* `Line.arrowTarget?_sound`, `Line.arrowTarget?_of_isTarget` — what an arrow with its target is.
* `Line.dividedByArrow?_sound` — a text in front of an arrow is shorter than its line, so a line that
  is printed for a text alone never comes back as that text with a divert.
* `Line.dividedByArrow?_append` — a text with an arrow printed behind it comes back as it was, even
  if the text itself holds arrows: no target holds one, so the last arrow decides.
-/

namespace StoryScript.Line

open Text

theorem isWord_gt : isWord '>' = false := by decide

theorem isBlank_gt : isBlank '>' = false := by decide

theorem isWord_minus : isWord '-' = false := by decide

theorem isBlank_of_mem_space : ∀ c ∈ [' '], isBlank c = true := List.forall_mem_singleton.mpr (by decide)

/-- A target holds no character of an arrow. -/
theorem gt_not_mem_of_isTarget {t : List Char} (h : IsTarget t) : '>' ∉ t := by
  intro hmem
  rcases h.spec.2.1 '>' hmem with hword | hdot
  · rw [isWord_gt] at hword
    exact Bool.false_ne_true hword
  · exact absurd hdot (by decide)

theorem gt_not_mem_of_blank {bs : List Char} (h : ∀ c ∈ bs, isBlank c = true) : '>' ∉ bs := by
  intro hmem
  have hblank := h '>' hmem
  rw [isBlank_gt] at hblank
  exact Bool.false_ne_true hblank

/-! ### An arrow and its target -/

/-- An arrow with its target: blanks may stand in front of the target and behind it. -/
theorem arrowTarget?_sound {cs t : List Char} (h : arrowTarget? cs = some t) :
    IsTarget t ∧ ∃ bs ds, cs = '-' :: '>' :: (bs ++ t ++ ds) ∧
      (∀ c ∈ bs, isBlank c = true) ∧ ∀ c ∈ ds, isBlank c = true := by
  simp only [arrowTarget?, Option.bind_eq_bind, Option.bind_eq_some_iff, Prod.exists,
    Option.some.injEq] at h
  obtain ⟨rest, hrest, t', behind, htarget, u, hdone, rfl⟩ := h
  obtain ⟨hskip, ht⟩ := target?_sound htarget
  obtain ⟨bs, hbs, hbsBlank⟩ := exists_skipBlanks rest
  obtain ⟨ds, hds, hdsBlank⟩ := exists_skipBlanks behind
  rw [done?_eq_some_iff.mp hdone, List.append_nil] at hds
  refine ⟨ht, bs, ds, ?_, hbsBlank, hdsBlank⟩
  have hcs : cs = '-' :: '>' :: rest := lit?_eq_some_iff.mp hrest
  rw [hcs, hbs, hskip, hds, List.append_assoc]

/-- An arrow, blanks and a target are read as that target. -/
theorem arrowTarget?_of_isTarget {bs t : List Char} (ht : IsTarget t)
    (hbs : ∀ c ∈ bs, isBlank c = true) : arrowTarget? ('-' :: '>' :: (bs ++ t)) = some t := by
  have hlit : lit? "->" ('-' :: '>' :: (bs ++ t)) = some (bs ++ t) := lit?_append "->" (bs ++ t)
  have hskip : skipBlanks (bs ++ t) = t := by
    rw [skipBlanks_append_of_blank hbs, skipBlanks_of_head ht.trimmed.1]
  simp [arrowTarget?, hlit, hskip, target?_of_isTarget ht, done?]

/-- An arrow with its target holds no further arrow. -/
theorem count_gt_of_arrowTarget? {cs t : List Char} (h : arrowTarget? cs = some t) :
    cs.count '>' = 1 := by
  obtain ⟨ht, bs, ds, rfl, hbs, hds⟩ := arrowTarget?_sound h
  rw [List.count_cons_of_ne (by decide), List.count_cons_self, List.count_append,
    List.count_append, List.count_eq_zero_of_not_mem (gt_not_mem_of_blank hbs),
    List.count_eq_zero_of_not_mem (gt_not_mem_of_isTarget ht),
    List.count_eq_zero_of_not_mem (gt_not_mem_of_blank hds)]

/-! ### A text in front of an arrow -/

/-- What stands in front of an arrow, and what the arrow leads to. -/
theorem dividedByArrow?_sound {cs front t : List Char} (h : dividedByArrow? cs = some (front, t)) :
    IsTarget t ∧ ∃ as bs ds, cs = front ++ (as ++ '-' :: '>' :: (bs ++ t ++ ds)) ∧
      (∀ c ∈ as, isBlank c = true) ∧ (∀ c ∈ bs, isBlank c = true) ∧
      ∀ c ∈ ds, isBlank c = true := by
  obtain ⟨rest, hcs, harrow⟩ := exists_of_shortest h
  obtain ⟨ht, bs, ds, hskip, hbs, hds⟩ := arrowTarget?_sound harrow
  obtain ⟨as, has, hasBlank⟩ := exists_skipBlanks rest
  refine ⟨ht, as, bs, ds, ?_, hasBlank, hbs, hds⟩
  rw [hcs, ← hskip, ← has]

/-- A text in front of an arrow is shorter than the line. -/
theorem length_front_lt {cs front t : List Char} (h : dividedByArrow? cs = some (front, t)) :
    front.length < cs.length := by
  obtain ⟨-, as, bs, ds, rfl, -⟩ := dividedByArrow?_sound h
  simp only [List.length_append, List.length_cons]
  omega

/-- A line that ends in a character that is neither a blank nor part of a name ends in no target. -/
theorem dividedByArrow?_eq_none {cs : List Char} {c : Char} (hblank : isBlank c = false)
    (hword : isWord c = false) : dividedByArrow? (cs ++ [c]) = none := by
  by_contra hne
  obtain ⟨⟨front, t⟩, h⟩ := Option.ne_none_iff_exists'.mp hne
  obtain ⟨ht, as, bs, ds, hcs, -, -, hds⟩ := dividedByArrow?_sound h
  rcases List.eq_nil_or_concat ds with rfl | ⟨ds', d, rfl⟩
  · have hlast : (cs ++ [c]).getLast? = t.getLast? := by
      have happ : front ++ (as ++ '-' :: '>' :: (bs ++ t ++ [])) =
          (front ++ (as ++ '-' :: '>' :: bs)) ++ t := by simp
      rw [hcs, happ, List.getLast?_append_of_ne_nil _ ht.spec.1]
    rw [List.getLast?_concat] at hlast
    rw [ht.spec.2.2.2 c hlast.symm] at hword
    exact Bool.false_ne_true hword.symm
  · have happ : front ++ (as ++ '-' :: '>' :: (bs ++ t ++ ds'.concat d)) =
        (front ++ (as ++ '-' :: '>' :: (bs ++ t ++ ds'))) ++ [d] := by simp
    have hlast := congrArg List.getLast? (hcs.trans happ)
    rw [List.getLast?_concat, List.getLast?_concat, Option.some.injEq] at hlast
    rw [hlast, hds d (by simp)] at hblank
    exact Bool.false_ne_true hblank.symm

/-- A text with an arrow and a target behind it is divided there. -/
theorem dividedByArrow?_append {shown t : List Char} (ht : IsTarget t) (hline : '\n' ∉ shown)
    (hlast : ∀ c ∈ shown.getLast?, isBlank c = false) :
    dividedByArrow? (shown ++ ' ' :: '-' :: '>' :: ' ' :: t) = some (shown, t) := by
  refine shortest_append ?_ hline fun q s hqs hs => ?_
  · have hskip : skipBlanks (' ' :: '-' :: '>' :: ' ' :: t) = '-' :: '>' :: ([' '] ++ t) :=
      skipBlanks_append_of_blank isBlank_of_mem_space ('-' :: '>' :: ' ' :: t)
    rw [hskip]
    exact arrowTarget?_of_isTarget ht isBlank_of_mem_space
  · -- an arrow that began earlier would have the last arrow in its target
    have hslast : ∀ c ∈ s.getLast?, isBlank c = false := by
      intro c hc
      refine hlast c ?_
      rw [hqs, List.getLast?_append, hc]
      rfl
    obtain ⟨hskip, hne⟩ := skipBlanks_append_of_last (r := ' ' :: '-' :: '>' :: ' ' :: t) hs hslast
    by_contra hsome
    obtain ⟨t', harrow⟩ := Option.ne_none_iff_exists'.mp hsome
    rw [hskip] at harrow
    have hcount := count_gt_of_arrowTarget? harrow
    obtain ⟨-, bs, ds, heq, -⟩ := arrowTarget?_sound harrow
    obtain ⟨a, s', hs'⟩ := List.exists_cons_of_ne_nil hne
    rw [hs'] at heq hcount
    cases s' with
    | nil => simp at heq
    | cons b s' =>
      simp only [List.cons_append, List.cons.injEq] at heq
      obtain ⟨rfl, rfl, -⟩ := heq
      simp [List.count_append] at hcount

/-! ### Lines that hold a divert alone -/

theorem formOf_minus (cs : List Char) : formOf ('-' :: cs) =
    ([divert?, branch?].findSome? fun p => p ('-' :: cs)).getD .raw := rfl

theorem formOf_equals (cs : List Char) : formOf ('=' :: cs) =
    ([knotHeader?, stitchHeader?].findSome? fun p => p ('=' :: cs)).getD .raw := rfl

/-- A text without blanks at its ends is read as it stands. -/
theorem ofText_of_trimmed {s : String} (h : Trimmed s.toList) :
    ofText s = ⟨s, formOf s.toList⟩ := by
  rw [ofText, stripChars_of_trimmed h, String.ofList_toList]

/-- The line that is printed for a divert is read as that divert. -/
theorem form_renderDivert {t : List Char} (ht : IsTarget t) :
    (ofText (renderDivert (String.ofList t))).form = .divert (String.ofList t) := by
  have hcs : (renderDivert (String.ofList t)).toList = '-' :: '>' :: ([' '] ++ t) := by
    simp [renderDivert]
  have htrim : Trimmed ('-' :: '>' :: ([' '] ++ t)) :=
    ht.trimmed.cons_append ht.spec.1 (by decide) ['>', ' ']
  have hdivert : divert? ('-' :: '>' :: ([' '] ++ t)) = some (.divert (String.ofList t)) := by
    rw [divert?, arrowTarget?_of_isTarget ht isBlank_of_mem_space, Option.map_some]
  rw [ofText_of_trimmed (hcs ▸ htrim), hcs, formOf_minus, List.findSome?, hdivert]
  rfl

/-- The line that is printed for a stitch is read as that stitch. -/
theorem form_stitch {name : List Char} (hname : IsName name) :
    (ofText ("= " ++ String.ofList name)).form = .stitchHeader (String.ofList name) := by
  have hcs : ("= " ++ String.ofList name).toList = '=' :: ' ' :: name := by simp
  have htrim : Trimmed ('=' :: ' ' :: name) :=
    hname.trimmed.cons_append hname.ne_nil (by decide) [' ']
  have hlit : lit? "=" ('=' :: ' ' :: name) = some (' ' :: name) := lit?_append "=" (' ' :: name)
  have hskip : skipBlanks (' ' :: name) = name := by
    rw [← List.singleton_append, skipBlanks_append_of_blank isBlank_of_mem_space,
      skipBlanks_of_head hname.trimmed.1]
  have hknot : knotHeader? ('=' :: ' ' :: name) = none := rfl
  have hstitch : stitchHeader? ('=' :: ' ' :: name) =
      some (.stitchHeader (String.ofList name)) := by
    simp [stitchHeader?, hlit, hskip, word?_of_isName hname, done?]
  rw [ofText_of_trimmed (hcs ▸ htrim), hcs, formOf_equals, List.findSome?, hknot, List.findSome?,
    hstitch]
  rfl

end StoryScript.Line
