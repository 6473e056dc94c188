import StoryScript.Proofs.Document.Carry
import StoryScript.Proofs.Document.Section
import StoryScript.Proofs.Text.Lines

/-!
# Reading a text again

A document is read off its lines up to blanks around them, apart from where its identities are drawn
from and from the spelling of its lines, which it keeps (`Document.plain_read`). So a document and a
fresh reading of its own text agree in everything else (`Document.plain_read_text`), although the lines
may lose a carriage return on the way.

The proof goes through the reader: states that differ in identities and spelling alone
(`ScriptState.plain`) are led by the same line to such states again.
-/

namespace StoryScript

open Text

/-- Which identities a reading draws does not show in what it finds. -/
theorem Body.issues_read (supply supply' : Nat) (texts : List String) :
    (Body.read supply texts).1.issues = (Body.read supply' texts).1.issues := by
  have hissues := congrArg BodyState.issues (Body.alike_lastState supply supply' (Line.ofTexts texts))
  rw [Body.read_eq, Body.read_eq]
  exact congrArg List.reverse hissues

/-! ### Without identities and spelling -/

/-- A knot without its identities and without the spelling of its lines. -/
def Knot.plain (k : Knot) : Knot :=
  { k with header := "", content := "", items := Item.unlabelledIn k.items }

/-- An open knot without the spelling of its lines. -/
def OpenKnot.plain (k : OpenKnot) : OpenKnot := { k with header := "", body := k.body.map strip }

namespace ScriptState

/-- A state without identities and without the spelling of lines. -/
def plain (s : ScriptState) : ScriptState :=
  { s with supply := 0, knots := s.knots.map Knot.plain, knot := s.knot.map OpenKnot.plain }

@[simp] theorem regions_plain (s : ScriptState) : s.plain.regions = s.regions := rfl

@[simp] theorem initialDivert_plain (s : ScriptState) : s.plain.initialDivert = s.initialDivert := rfl

variable {s t : ScriptState}

theorem knot_of_plain (h : s.plain = t.plain) : s.knot.map OpenKnot.plain = t.knot.map OpenKnot.plain :=
  (congrArg ScriptState.knot h :)

/-- A knot is finished in the same way from lines of another spelling. -/
theorem plain_finished (h : s.plain = t.plain) {k l : OpenKnot} (hkl : k.plain = l.plain) (last : Nat) :
    (s.finished k last).plain = (t.finished l last).plain := by
  have hname : k.name = l.name := (congrArg OpenKnot.name hkl :)
  have hline : k.line = l.line := (congrArg OpenKnot.line hkl :)
  have hbody : k.body.reverse.map strip = l.body.reverse.map strip := by
    have hbody' : k.body.map strip = l.body.map strip := (congrArg OpenKnot.body hkl :)
    rw [List.map_reverse, List.map_reverse, hbody']
  have hregion : s.region = t.region := (congrArg ScriptState.region h :)
  have hnames : s.knots.map Knot.name = t.knots.map Knot.name := by
    have hknots : s.knots.map Knot.plain = t.knots.map Knot.plain :=
      (congrArg ScriptState.knots h :)
    have hmap := congrArg (List.map Knot.name) hknots
    rw [List.map_map, List.map_map] at hmap
    exact hmap
  -- whether the name is taken already depends on names alone
  have hany : s.knots.any (·.name = k.name) = t.knots.any (·.name = k.name) := by
    have hmem : ∀ ks : List Knot, ks.any (·.name = k.name) =
        (ks.map Knot.name).any (· = k.name) := by
      intro ks
      rw [List.any_map]
      rfl
    rw [hmem, hmem, hnames]
  have hitems : Item.unlabelledIn (Body.read s.supply k.body.reverse).1.items =
      Item.unlabelledIn (Body.read t.supply l.body.reverse).1.items := by
    rw [Body.read_congr hbody, Body.unlabelledIn_read]
  have hposition : (Body.read s.supply k.body.reverse).1.position =
      (Body.read t.supply l.body.reverse).1.position := by
    rw [Body.read_congr hbody, Body.position_read, Body.position_read]
  simp only [Knot.plain, finished, hname, hline, hregion, hitems, hposition]
  rw [← hname, hany]

theorem plain_closeKnot (h : s.plain = t.plain) (last : Nat) :
    (s.closeKnot last).plain = (t.closeKnot last).plain := by
  rcases cases_of_map_eq_map (knot_of_plain h) with ⟨hs, ht⟩ | ⟨k, l, hs, ht, hkl⟩
  · rw [closeKnot_of_none last hs, closeKnot_of_none last ht, h]
  · have hfinished := plain_finished h hkl last
    have hname : k.name = l.name := (congrArg OpenKnot.name hkl :)
    have hline : k.line = l.line := (congrArg OpenKnot.line hkl :)
    have hduplicate : s.knots.any (·.name = l.name) = t.knots.any (·.name = l.name) := by
      have hany : s.knots.any (·.name = k.name) = t.knots.any (·.name = l.name) :=
        (congrArg Knot.duplicate hfinished :)
      rwa [hname] at hany
    have hissues : (Body.read s.supply k.body.reverse).1.issues =
        (Body.read t.supply l.body.reverse).1.issues := by
      have hbody : k.body.map strip = l.body.map strip :=
        (congrArg OpenKnot.body hkl :)
      have hbody' : k.body.reverse.map strip = l.body.reverse.map strip := by
        rw [List.map_reverse, List.map_reverse, hbody]
      rw [Body.read_congr hbody', Body.issues_read]
    rw [closeKnot_of_some last hs, closeKnot_of_some last ht]
    simp only [plain, ScriptState.mk.injEq] at h ⊢
    simp only [List.map_cons, hfinished, hduplicate, hissues, hname, hline, h, and_self]

/-! ### Steps outside knots -/

theorem plain_closeRegion (last : Nat) (s : ScriptState) :
    (s.closeRegion last).plain = s.plain.closeRegion last := by
  unfold closeRegion
  cases hr : s.region with
  | none => simp [plain, hr]
  | some r => simp [plain, hr]

theorem plain_closeUnclosedRegion (line last : Nat) (s : ScriptState) :
    (s.closeUnclosedRegion line last).plain = s.plain.closeUnclosedRegion line last := by
  have hr : s.plain.region = s.region := rfl
  unfold closeUnclosedRegion
  rw [hr]
  cases s.region with
  | none => rfl
  | some r => rw [plain_closeRegion]; rfl

theorem plain_outsideLine (n : Nat) (l : Line) (s : ScriptState) :
    (s.outsideLine n l).plain = s.plain.outsideLine n l := by
  have hpreamble : (s.preambleLine n l).plain = s.plain.preambleLine n l := by
    unfold preambleLine
    rw [initialDivert_plain]
    split <;> rfl
  unfold outsideLine
  have hin : s.plain.inPreamble = s.inPreamble := rfl
  rw [hin]
  split
  · exact hpreamble
  · split <;> rfl

theorem plain_looseLine (n : Nat) (l : Line) (s : ScriptState) :
    (s.looseLine n l).plain = s.plain.looseLine n l := by
  have hfollow : s.plain.positionMayFollow = s.positionMayFollow := rfl
  have hregion : s.plain.region = s.region := rfl
  unfold looseLine
  rw [hfollow]
  split
  · simp only [hregion]
    split
    · rfl
    · exact plain_outsideLine n l { s with positionMayFollow := false }
  · exact plain_outsideLine n l s

/-! ### Runs -/

/-- The same line in another spelling leads states that differ in identities and spelling alone to such
states. -/
theorem plain_step (h : s.plain = t.plain) (n : Nat) {p q : String} (hpq : strip p = strip q)
    (l : Line) : (s.step n p l).plain = (t.step n q l).plain := by
  have hclosed := plain_closeKnot h (n - 1)
  by_cases hends : l.form.endsKnot = true
  · unfold step
    split
    · simp only [plain, ScriptState.mk.injEq] at hclosed ⊢
      simp only [Option.map_some, OpenKnot.plain, List.map_nil, hclosed, and_self]
    · have hunclosed : ((s.closeKnot (n - 1)).closeUnclosedRegion n (n - 1)).plain =
          ((t.closeKnot (n - 1)).closeUnclosedRegion n (n - 1)).plain := by
        rw [plain_closeUnclosedRegion, plain_closeUnclosedRegion, hclosed]
      simp only [plain, ScriptState.mk.injEq] at hunclosed ⊢
      simp only [hunclosed, and_self]
    · have hregion : (s.closeKnot (n - 1)).region = (t.closeKnot (n - 1)).region :=
        (congrArg ScriptState.region hclosed :)
      dsimp only
      rw [hregion]
      split
      · change (s.closeKnot (n - 1)).plain.report n .regionEndStray =
          (t.closeKnot (n - 1)).plain.report n .regionEndStray
        rw [hclosed]
      · rw [plain_closeRegion, plain_closeRegion, hclosed]
    · next hheader hstart hend => simp [LineForm.endsKnot_eq_false hheader hstart hend] at hends
  · rw [Bool.not_eq_true] at hends
    rw [step_of_not_endsKnot n p s hends, step_of_not_endsKnot n q t hends]
    rcases cases_of_map_eq_map (knot_of_plain h) with ⟨hs, ht⟩ | ⟨k, k', hs, ht, hkk⟩
    · rw [hs, ht]
      simp only
      split
      · exact h
      · rw [plain_looseLine, plain_looseLine, h]
    · rw [hs, ht]
      simp only [plain, ScriptState.mk.injEq] at h ⊢
      simp only [OpenKnot.plain, OpenKnot.mk.injEq] at hkk
      simp only [Option.map_some, OpenKnot.plain, List.map_cons, hpq, hkk, h, and_self]

theorem plain_readFrom (h : s.plain = t.plain) (n : Nat) {xs ys : List (String × Line)}
    (hxy : List.Forall₂ (fun x y => strip x.1 = strip y.1 ∧ x.2 = y.2) xs ys) :
    (s.readFrom n xs).plain = (t.readFrom n ys).plain := by
  induction hxy generalizing s t n with
  | nil => exact h
  | @cons x y xs ys hhead _ ih =>
    obtain ⟨p, l⟩ := x
    obtain ⟨q, l'⟩ := y
    obtain ⟨hpq, hl⟩ := hhead
    change l = l' at hl
    rw [readFrom, readFrom, ← hl]
    exact ih (plain_step h n hpq l) (n + 1)

theorem plain_ofLines (supply supply' : Nat) {ls ms : List String}
    (h : ls.map strip = ms.map strip) : (ofLines supply ls).plain = (ofLines supply' ms).plain := by
  have hlines : Line.ofTexts ls = Line.ofTexts ms := Line.readFrom_congr h false
  have hlength : ls.length = ms.length := by simpa using congrArg List.length h
  have hrun := plain_readFrom (s := { supply }) (t := { supply := supply' }) rfl 1
    (forall₂_zip h (Line.ofTexts ms))
  rw [ofLines, ofLines, hlines, hlength, finish, finish, plain_closeUnclosedRegion,
    plain_closeUnclosedRegion, plain_closeKnot hrun]

/-- Lines that are joined and cut again are read as the same, also if there are none. -/
theorem plain_ofLines_unlines (supply supply' : Nat) {ls : List String} (hline : ∀ l ∈ ls, '\n' ∉ l.toList) :
    (ofLines supply (Text.lines (unlines ls))).plain = (ofLines supply' ls).plain := by
  cases ls with
  | nil => rfl
  | cons l ls => exact plain_ofLines supply supply' (map_strip_lines_unlines (by simp) hline)

end ScriptState

/-! ### Documents -/

namespace Document

/-- A document without its identities and without the spelling of its lines. -/
def plain (d : Document) : Document := { d with knots := d.knots.map Knot.plain, lines := [] }

theorem plain_of_unlabelled {d e : Document} (h : d.unlabelled = e.unlabelled) : d.plain = e.plain := by
  have hplain : ∀ d : Document, d.plain = { d.unlabelled with
      knots := d.unlabelled.knots.map fun k => { k with header := "", content := "" }
      lines := [] } := by
    intro d
    simp only [plain, unlabelled, List.map_map]
    rfl
  rw [hplain, hplain, h]

/-- The document that a reader holds at the end. -/
theorem read_eq (supply : Nat) (text : String) :
    (read supply text).1 =
      { knots := (ScriptState.ofLines supply (Text.lines text)).knots.reverse
        regions := (ScriptState.ofLines supply (Text.lines text)).regions.reverse
        externals := (ScriptState.ofLines supply (Text.lines text)).externals.reverse
        inclusions := (ScriptState.ofLines supply (Text.lines text)).inclusions.reverse
        initialDivert := (ScriptState.ofLines supply (Text.lines text)).initialDivert
        startPosition := (ScriptState.ofLines supply (Text.lines text)).startPosition
        endPosition := (ScriptState.ofLines supply (Text.lines text)).endPosition
        preamble := (ScriptState.ofLines supply (Text.lines text)).preamble.reverse
        issues := (ScriptState.ofLines supply (Text.lines text)).issues.reverse.mergeSort
          fun a b => a.line ≤ b.line
        lines := Text.lines text } := rfl

/-- Texts whose lines agree up to blanks around them are read as the same document, up to identities
and spelling. -/
theorem plain_read (supply supply' : Nat) {text text' : String}
    (h : (Text.lines text).map strip = (Text.lines text').map strip) :
    (read supply text).1.plain = (read supply' text').1.plain := by
  have hplain := ScriptState.plain_ofLines supply supply' h
  simp only [ScriptState.plain, ScriptState.mk.injEq] at hplain
  rw [read_eq, read_eq]
  simp only [plain, List.map_reverse, hplain]

/-- A document and a fresh reading of its text differ in identities and spelling alone. -/
theorem plain_read_text {d : Document} {supply : Nat} {text : String}
    (h : d.unlabelled = (read supply text).1.unlabelled) (supply' : Nat) :
    (read supply' d.text).1.plain = d.plain := by
  have hlines : d.lines = Text.lines text := congrArg Document.lines h
  rw [plain_of_unlabelled h]
  refine plain_read supply' supply ?_
  rw [Document.text, hlines]
  exact map_strip_lines_unlines (lines_ne_nil text) fun _ hl => newline_not_mem_lines hl

end Document

end StoryScript
