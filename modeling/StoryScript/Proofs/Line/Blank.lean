import StoryScript.Line.Reading
import StoryScript.Proofs.Text.Strip
import Mathlib.Data.List.Forall2

/-!
# Blanks around lines

The form of a line, what a block comment makes of it and whether it ends one are all read off the
line without the blanks around it. So lines that differ only in such blanks are read the same
(`Line.readFrom_congr`), whatever level of nesting they are written at.

A reading goes from line to line with one bit of state, whether a block comment is open. What one line is
read as (`Line.lineIn`) and what it makes of the bit (`Line.opensBehind`) are put together in
`Line.readFrom_cons`, by which inductions on lines need not tell the inside of a comment from the outside.
-/

namespace StoryScript.Line

open Text

/-- Lines that agree up to blanks around them agree place by place. -/
theorem forall₂_of_map_strip {ls ms : List String} (h : ls.map strip = ms.map strip) :
    List.Forall₂ (fun l m => strip l = strip m) ls ms := by
  rw [← List.forall₂_eq_eq_eq, List.forall₂_map_left_iff, List.forall₂_map_right_iff] at h
  exact h

theorem ofText_congr {s t : String} (h : strip s = strip t) : ofText s = ofText t := by
  rw [ofText, ofText, strip_eq_iff.mp h]

theorem insideComment_congr {s t : String} (h : strip s = strip t) :
    insideComment s = insideComment t := by
  rw [insideComment, insideComment, h]

theorem closesComment_congr {s t : String} (h : strip s = strip t) :
    closesComment s = closesComment t := by
  rw [closesComment, closesComment, strip_eq_iff.mp h]

/-- A line as it is read inside a block comment or outside of any. -/
def lineIn (inBlock : Bool) (s : String) : Line := if inBlock then insideComment s else ofText s

/-- Whether a block comment is open behind a line. -/
def opensBehind (inBlock : Bool) (s : String) : Bool :=
  if inBlock then !closesComment s else (ofText s).form = .blockComment true

theorem lineIn_cases (inBlock : Bool) (s : String) :
    lineIn inBlock s = ofText s ∨ lineIn inBlock s = insideComment s := by
  cases inBlock with
  | true => exact Or.inr rfl
  | false => exact Or.inl rfl

/-- A line as it is kept has no blanks around it. -/
theorem text_lineIn (inBlock : Bool) (s : String) : (lineIn inBlock s).text = strip s := by
  cases inBlock <;> rfl

theorem lineIn_congr {s t : String} (h : strip s = strip t) (inBlock : Bool) :
    lineIn inBlock s = lineIn inBlock t := by
  rw [lineIn, lineIn, insideComment_congr h, ofText_congr h]

theorem opensBehind_congr {s t : String} (h : strip s = strip t) (inBlock : Bool) :
    opensBehind inBlock s = opensBehind inBlock t := by
  rw [opensBehind, opensBehind, closesComment_congr h, ofText_congr h]

/-- The first line is read on its own, and tells whether a comment is open at the next. -/
theorem readFrom_cons (inBlock : Bool) (s : String) (ls : List String) :
    readFrom inBlock (s :: ls) = lineIn inBlock s :: readFrom (opensBehind inBlock s) ls := by
  cases inBlock <;> simp [readFrom, lineIn, opensBehind]

theorem readFrom_true_cons (l : String) (ls : List String) :
    readFrom true (l :: ls) = insideComment l :: readFrom (!closesComment l) ls := by
  simp [readFrom]

theorem readFrom_false_cons (l : String) (ls : List String) :
    readFrom false (l :: ls) =
      ofText l :: readFrom (decide ((ofText l).form = .blockComment true)) ls := by
  simp [readFrom]

/-- Lines are read the same whatever blanks stand around them. -/
theorem readFrom_congr {ls ms : List String} (h : ls.map strip = ms.map strip) (inBlock : Bool) :
    readFrom inBlock ls = readFrom inBlock ms := by
  replace h := forall₂_of_map_strip h
  induction h generalizing inBlock with
  | nil => rfl
  | cons hl _ ih => rw [readFrom_cons, readFrom_cons, lineIn_congr hl, opensBehind_congr hl, ih]

theorem text_ofText (s : String) : (ofText s).text = strip s := rfl

end StoryScript.Line
