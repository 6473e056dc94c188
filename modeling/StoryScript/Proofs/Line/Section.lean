import StoryScript.Proofs.Line.Blank

/-!
# Where a knot ends among lines

The lines of a knot reach from its header to the next header or region marker. A reading of lines
depends on the lines before it only through the block comment that may be open (`Line.readFrom_append`),
so this module names the two things that the lines of one knot can do to the lines behind it: end the
knot too early (`LineForm.endsKnot`, `Line.section_`), and leave a block comment open
(`Line.opensBlock`).
-/

namespace StoryScript

open Text

/-- Forms of lines that end a knot. -/
def LineForm.endsKnot : LineForm → Bool
  | knotHeader _ | regionStart _ | regionEnd => true
  | _ => false

namespace LineForm

variable {f : LineForm}

theorem isBlank_iff : f.isBlank = true ↔ f = blank := by
  constructor
  · intro h
    cases f with
    | blank => rfl
    | _ => exact absurd h Bool.false_ne_true
  · rintro rfl
    rfl

theorem isBranch_iff : f.isBranch = true ↔ ∃ guard rest, f = branch guard rest := by
  constructor
  · intro h
    cases f with
    | branch guard rest => exact ⟨guard, rest, rfl⟩
    | _ => exact absurd h Bool.false_ne_true
  · rintro ⟨guard, rest, rfl⟩
    rfl

theorem isBranch_eq_false (h : ¬ ∃ guard rest, f = branch guard rest) : f.isBranch = false := by
  rwa [← isBranch_iff, Bool.not_eq_true] at h

theorem endsKnot_of_isBlank (h : f.isBlank = true) : f.endsKnot = false := by
  rw [isBlank_iff.mp h]
  rfl

/-- Headers and region markers alone end a knot. -/
theorem endsKnot_eq_false (hheader : ∀ name, f ≠ knotHeader name) (hstart : ∀ name, f ≠ regionStart name)
    (hend : f ≠ regionEnd) : f.endsKnot = false := by
  cases f with
  | knotHeader name => exact absurd rfl (hheader name)
  | regionStart name => exact absurd rfl (hstart name)
  | regionEnd => exact absurd rfl hend
  | _ => rfl

end LineForm

namespace Line

/-- The lines of the knot that lines begin with. -/
def section_ (ls : List Line) : List Line := ls.takeWhile fun l => !l.form.endsKnot

@[simp] theorem section_nil : section_ [] = [] := rfl

theorem section_cons_of_endsKnot {l : Line} {ls : List Line} (h : l.form.endsKnot = true) :
    section_ (l :: ls) = [] := List.takeWhile_cons_of_neg (by simp [h])

theorem section_cons {l : Line} {ls : List Line} (h : l.form.endsKnot = false) :
    section_ (l :: ls) = l :: section_ ls := List.takeWhile_cons_of_pos (by simp [h])

/-- Whether a block comment is open behind some lines. -/
def opensBlock (inBlock : Bool) : List String → Bool
  | [] => inBlock
  | line :: rest =>
    opensBlock (if inBlock then !closesComment line else (ofText line).form = .blockComment true) rest

@[simp] theorem opensBlock_nil (inBlock : Bool) : opensBlock inBlock [] = inBlock := rfl

theorem opensBlock_cons (inBlock : Bool) (s : String) (ls : List String) :
    opensBlock inBlock (s :: ls) = opensBlock (opensBehind inBlock s) ls := rfl

theorem opensBlock_true_cons (l : String) (ls : List String) :
    opensBlock true (l :: ls) = opensBlock (!closesComment l) ls := by
  simp [opensBlock]

theorem opensBlock_false_cons (l : String) (ls : List String) :
    opensBlock false (l :: ls) =
      opensBlock (decide ((ofText l).form = .blockComment true)) ls := by
  simp [opensBlock]

theorem readFrom_append (inBlock : Bool) (ls ms : List String) :
    readFrom inBlock (ls ++ ms) = readFrom inBlock ls ++ readFrom (opensBlock inBlock ls) ms := by
  induction ls generalizing inBlock with
  | nil => rfl
  | cons l ls ih =>
    rw [List.cons_append, readFrom_cons, readFrom_cons, opensBlock_cons, ih, List.cons_append]

theorem ofTexts_eq_take_append (ls : List String) (n : Nat) :
    ofTexts ls = ofTexts (ls.take n) ++ readFrom (opensBlock false (ls.take n)) (ls.drop n) := by
  conv_lhs => rw [← List.take_append_drop n ls]
  exact readFrom_append false _ _

theorem opensBlock_append (inBlock : Bool) (ls ms : List String) :
    opensBlock inBlock (ls ++ ms) = opensBlock (opensBlock inBlock ls) ms := by
  induction ls generalizing inBlock with
  | nil => rfl
  | cons l ls ih => rw [List.cons_append, opensBlock_cons, opensBlock_cons, ih]

/-- Whether a comment is open behind lines does not depend on blanks around them. -/
theorem opensBlock_congr {ls ms : List String} (h : ls.map strip = ms.map strip) (inBlock : Bool) :
    opensBlock inBlock ls = opensBlock inBlock ms := by
  replace h := forall₂_of_map_strip h
  induction h generalizing inBlock with
  | nil => rfl
  | cons hl _ ih => rw [opensBlock_cons, opensBlock_cons, opensBehind_congr hl, ih]

/-- Lines behind a knot: blank ones up to the first that ends it, if there is any. -/
def Behind : List String → Prop
  | [] => True
  | l :: ls => (ofText l).form.isBlank = true ∧ Behind ls ∨ (ofText l).form.endsKnot = true

end Line

end StoryScript
