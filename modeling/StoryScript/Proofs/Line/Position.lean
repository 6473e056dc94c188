import StoryScript.Document.Rendering
import StoryScript.Proofs.Line.Readable
import StoryScript.Proofs.Number.Text

/-!
# Position annotations

The annotation that is written for a position stays on one line, and that line is read as a position
or, should a coordinate not be finite, as a comment (`Line.form_positionComment`). It never ends a knot
and opens no block comment.
-/

namespace StoryScript

open Text

namespace Line

/-- A comment that begins like a position is a comment unless it is a position. -/
theorem formOf_annotated (rest : List Char) :
    formOf ('/' :: '/' :: ' ' :: '<' :: '\x7b' :: rest) =
      (position? ('/' :: '/' :: ' ' :: '<' :: '\x7b' :: rest)).getD .comment := by
  have hskip : skipBlanks (' ' :: '<' :: '\x7b' :: rest) = '<' :: '\x7b' :: rest := rfl
  have hslashes : lit? "//" ('/' :: '/' :: ' ' :: '<' :: '\x7b' :: rest) =
      some (' ' :: '<' :: '\x7b' :: rest) := rfl
  have hhash : lit? "<#" ('<' :: '\x7b' :: rest) = none := rfl
  have hknot : knotHeader? ('/' :: '/' :: ' ' :: '<' :: '\x7b' :: rest) = none := rfl
  have hstitch : stitchHeader? ('/' :: '/' :: ' ' :: '<' :: '\x7b' :: rest) = none := rfl
  have hnode : ∀ label, nodePosition? label ('/' :: '/' :: ' ' :: '<' :: '\x7b' :: rest) = none := by
    intro label
    rw [nodePosition?, hslashes, Option.bind_eq_bind, Option.bind_some, hskip, hhash]
    rfl
  have hstart : regionStart? ('/' :: '/' :: ' ' :: '<' :: '\x7b' :: rest) = none := by
    rw [regionStart?, hslashes, Option.bind_eq_bind, Option.bind_some, hskip, hhash]
    rfl
  have hend : regionEnd? ('/' :: '/' :: ' ' :: '<' :: '\x7b' :: rest) = none := by
    rw [regionEnd?, hslashes, Option.bind_eq_bind, Option.bind_some, hskip, hhash]
    rfl
  have hcomment : lineComment? ('/' :: '/' :: ' ' :: '<' :: '\x7b' :: rest) = some .comment := rfl
  rw [formOf, if_neg (by simp)]
  simp only [patterns, List.findSome?_cons, hknot, hstitch, hnode, hstart, hend, hcomment,
    Option.map_none]
  cases position? ('/' :: '/' :: ' ' :: '<' :: '\x7b' :: rest) with
  | none => rfl
  | some form => rfl

theorem formOf_position_or_comment (rest : List Char) :
    (∃ p, formOf ('/' :: '/' :: ' ' :: '<' :: '\x7b' :: rest) = .position p) ∨
      formOf ('/' :: '/' :: ' ' :: '<' :: '\x7b' :: rest) = .comment := by
  rw [formOf_annotated]
  cases hposition : position? ('/' :: '/' :: ' ' :: '<' :: '\x7b' :: rest) with
  | none => exact Or.inr rfl
  | some form =>
    simp only [position?, Option.bind_eq_bind, Option.bind_eq_some_iff, Option.some.injEq]
      at hposition
    obtain ⟨-, -, -, -, ⟨p, -⟩, -, -, -, -, -, rfl⟩ := hposition
    exact Or.inl ⟨p, rfl⟩

/-- The characters of a position annotation. -/
theorem toList_positionComment (p : Position) :
    p.comment.toList = '/' :: '/' :: ' ' :: '<' :: '\x7b' ::
      ((" \"pos-x\": " ++ p.x.fixed 1 ++ ", \"pos-y\": " ++ p.y.fixed 1 ++ " \x7d").toList ++ ['>']) := by
  rw [Position.comment, Position.render]
  simp

theorem form_comment_eq_formOf (p : Position) : (ofText p.comment).form = formOf p.comment.toList := by
  have htrim : Trimmed p.comment.toList := by
    rw [toList_positionComment]
    exact Trimmed.cons_append ⟨by simp; decide, by simp; decide⟩ (by simp) (by decide)
      ('/' :: ' ' :: '<' :: '\x7b' :: _)
  rw [ofText, stripChars_of_trimmed htrim]

/-- A position annotation is read as a position or as a comment. -/
theorem form_positionComment (p : Position) :
    (∃ q, (ofText p.comment).form = .position q) ∨ (ofText p.comment).form = .comment := by
  rw [form_comment_eq_formOf, toList_positionComment]
  exact formOf_position_or_comment _

theorem newline_not_mem_positionRender (p : Position) : '\n' ∉ p.render.toList := by
  have hfixed : ∀ x : Binary64, '\n' ∉ (x.fixed 1).toList := by
    intro x h
    have hchar : Decimal.isNumberChar '\n' = true := Binary64.isNumberChar_fixed 1 x h
    exact absurd hchar (by decide)
  rw [Position.render]
  simp [hfixed]

theorem newline_not_mem_positionComment (p : Position) : '\n' ∉ p.comment.toList := by
  rw [Position.comment]
  simp [newline_not_mem_positionRender p]

theorem newline_not_mem_nodeComment (p : Position) {label : String} (hlabel : '\n' ∉ label.toList) :
    '\n' ∉ (p.nodeComment label).toList := by
  rw [Position.nodeComment]
  simp [hlabel, newline_not_mem_positionRender p]

end Line

end StoryScript
