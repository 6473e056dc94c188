import StoryScript.Proofs.Body.Displaced
import StoryScript.Proofs.Document.Changes
import StoryScript.Proofs.Line.Annotation

/-!
# The annotation of a knot

The first line of a body that is not blank belongs to the knot if it is a position annotation; what is read of
the body begins behind it (`Body.annotated`). Otherwise the body has no position and is read from its first
line on (`leadingPosition?_eq_none`). An annotation that is written at either place is the one that is read, and
the tree stays what it was.
-/

namespace StoryScript

theorem leadingPosition?_append {bs : List Line} (hbs : ∀ l ∈ bs, l.form.isBlank = true) (ls : List Line) :
    leadingPosition? (bs ++ ls) = (leadingPosition? ls).map fun (p, n) => (p, bs.length + n) := by
  induction bs with
  | nil => simp
  | cons b bs ih =>
    rw [List.forall_mem_cons] at hbs
    have hform : b.form = .blank := LineForm.isBlank_iff.mp hbs.1
    rw [List.cons_append, leadingPosition?, hform]
    change (leadingPosition? (bs ++ ls)).map _ = _
    rw [ih hbs.2, Option.map_map, List.length_cons]
    refine congrArg (Option.map · _) (funext fun x => ?_)
    exact congrArg (x.1, ·) (by omega)

section

variable {blanks : List String} (hblanks : ∀ s ∈ blanks, (Line.ofText s).form.isBlank = true)
include hblanks

theorem ofTexts_blanks_append (ls : List String) :
    Line.ofTexts (blanks ++ ls) = blanks.map Line.ofText ++ Line.ofTexts ls :=
  Line.ofTexts_append_of_silent (fun s hs => Line.silent_of_isBlank (hblanks s hs)) ls

/-- A position annotation behind blank lines only is the position of the body, and its content begins behind
that line. -/
theorem Body.annotated {s : String} {p : Position} (hs : (Line.ofText s).form = .position p)
    (rest : List String) :
    leadingPosition? (Line.ofTexts (blanks ++ s :: rest)) = some (p, blanks.length + 1) ∧
      Body.content (Line.ofTexts (blanks ++ s :: rest)) = Line.ofTexts rest := by
  have hlines : Line.ofTexts (blanks ++ s :: rest) =
      blanks.map Line.ofText ++ Line.ofText s :: Line.ofTexts rest := by
    rw [ofTexts_blanks_append hblanks, (Line.silent_of_position hs).ofTexts_cons]
  have hleading : leadingPosition? (Line.ofTexts (blanks ++ s :: rest)) = some (p, blanks.length + 1) := by
    rw [hlines, leadingPosition?_append (List.forall_mem_map.mpr hblanks), leadingPosition?, hs]
    simp
  refine ⟨hleading, ?_⟩
  have hskipped : blanks.length + 1 = (blanks.map Line.ofText ++ [Line.ofText s]).length := by simp
  have hsplit : blanks.map Line.ofText ++ Line.ofText s :: Line.ofTexts rest =
      (blanks.map Line.ofText ++ [Line.ofText s]) ++ Line.ofTexts rest := by simp
  rw [Body.content, Body.skipped, hleading, Option.map_some, Option.getD_some, hlines, hsplit]
  change List.drop (blanks.length + 1) _ = _
  rw [hskipped, List.drop_left]

/-- Where the first line that is not blank is something else there is no position. -/
theorem leadingPosition?_eq_none {rest : List String}
    (hrest : ∀ s ∈ rest.head?, (Line.ofText s).form.isBlank = false ∧
      ∀ p, (Line.ofText s).form ≠ .position p) :
    leadingPosition? (Line.ofTexts (blanks ++ rest)) = none := by
  rw [ofTexts_blanks_append hblanks, leadingPosition?_append (List.forall_mem_map.mpr hblanks)]
  cases rest with
  | nil => rfl
  | cons s rest =>
    obtain ⟨hblank, hposition⟩ := hrest s rfl
    rw [Line.ofTexts, Line.readFrom_false_cons, leadingPosition?]
    split
    · next hform => simp [hform, LineForm.isBlank] at hblank
    · next p hform => exact absurd hform (hposition p)
    · rfl

end

/-- Without a position all of a body is its content. -/
theorem Body.content_of_none {ls : List Line} (h : leadingPosition? ls = none) : Body.content ls = ls := by
  rw [Body.content, Body.skipped, h]
  rfl

end StoryScript
