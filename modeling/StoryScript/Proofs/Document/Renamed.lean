import StoryScript.Proofs.Document.Reread
import StoryScript.Proofs.Line.Retargeted

/-!
# A script in which a knot is renamed

Two readings are followed side by side: that of the lines of a script, and that of the same lines with one
header renamed and every other line redirected (`Line.Renames`). Line by line they stay in states that
agree in everything but the name and where diverts lead (`ScriptState.Renamed`), so the knots of the one are
those of the other renamed (`ScriptState.renamed_ofLines`): on the same lines, in the same region, with the
same trees in other words.
-/

namespace StoryScript

open Text

variable {old new : String}

/-- A name once the knot `old` is called `new`. -/
def renamed (old new name : String) : String := if name = old then new else name

theorem renamed_of_ne {name : String} (h : name ≠ old) : renamed old new name = name := if_neg h

@[simp] theorem renamed_self : renamed old new old = new := if_pos rfl

/-! ### Lines -/

namespace Line

open Session

/-- A line, and the line with the name changed. -/
structure Redirects (old new p q : String) : Prop where
  eq : q = redirectLine old new p
  ends : ArrowsEnd old p
  line : '\n' ∉ p.toList

/-- Redirected lines are read as the lines in other words, and they leave the same comment open. -/
theorem reworded_readFrom (hold : IsName old.toList) (hnew : IsName new.toList) {ps qs : List String}
    (h : List.Forall₂ (Redirects old new) ps qs) (inBlock : Bool) :
    List.Forall₂ (Reworded (.renaming old new)) (readFrom inBlock ps) (readFrom inBlock qs) ∧
      opensBlock inBlock qs = opensBlock inBlock ps := by
  induction h generalizing inBlock with
  | nil => exact ⟨.nil, rfl⟩
  | @cons p q ps qs hpq _ ih =>
    obtain ⟨rfl, hends, hline⟩ := hpq
    have hread := ofText_redirectLine hold hnew hends hline
    cases inBlock with
    | true =>
      have hcloses : closesComment (redirectLine old new p) = closesComment p :=
        (((redirected_redirectLine old new p).stripChars hold hnew).occursIn
          (Redirected.apart_star hold) (Redirected.apart_star hnew)).symm
      have htext := congrArg Line.text hread
      rw [text_ofText, text_reword, text_ofText] at htext
      rw [readFrom_true_cons, readFrom_true_cons, opensBlock_true_cons, opensBlock_true_cons, hcloses]
      refine ⟨.cons ?_ (ih _).1, (ih _).2⟩
      rw [Reworded, insideComment, insideComment, htext, chain_of_not_branch (by simp),
        chain_of_not_branch (by simp), List.map_singleton, reword]
      rfl
    | false =>
      have hopens : (ofText (redirectLine old new p)).form = .blockComment true ↔
          (ofText p).form = .blockComment true := by
        rw [hread, reword]
        cases (ofText p).form <;> simp [LineForm.reword]
      rw [readFrom_false_cons, readFrom_false_cons, opensBlock_false_cons, opensBlock_false_cons,
        decide_eq_decide.mpr hopens]
      exact ⟨.cons (reworded_redirectLine hold hnew hends hline) (ih _).1, (ih _).2⟩

/-- A line of a script and the line that it becomes, each with what it is read as: the header is renamed, and
every other line is redirected. -/
inductive Renames (old new : String) : String × Line → String × Line → Prop
  | header {p q : String} {l m : Line} (hl : l.form = .knotHeader old) (hm : m.form = .knotHeader new) :
      Renames old new (p, l) (q, m)
  | other {p q : String} {l m : Line} (hpq : Redirects old new p q)
      (hlm : l.Reworded (.renaming old new) m) (hne : l.form ≠ .knotHeader old) :
      Renames old new (p, l) (q, m)

end Line

/-! ### Knots -/

/-- A knot and the knot that it becomes. -/
structure Knot.Renamed (old new : String) (k l : Knot) : Prop where
  name : l.name = renamed old new k.name
  lineStart : l.lineStart = k.lineStart
  lineEnd : l.lineEnd = k.lineEnd
  position : l.position = k.position
  region : l.region = k.region
  items : l.items = Item.rewordIn (.renaming old new) k.items

/-- An open knot and the open knot that it becomes. -/
structure OpenKnot.Renamed (old new : String) (k l : OpenKnot) : Prop where
  name : l.name = renamed old new k.name
  line : l.line = k.line
  body : List.Forall₂ (Line.Redirects old new) k.body l.body

namespace ScriptState

/-- States that agree in everything but the name of a knot and where diverts lead. -/
structure Renamed (old new : String) (s t : ScriptState) : Prop where
  supply : t.supply = s.supply
  knots : List.Forall₂ (Knot.Renamed old new) s.knots t.knots
  knot : Option.Rel (OpenKnot.Renamed old new) s.knot t.knot
  region : t.region.map OpenRegion.name = s.region.map OpenRegion.name
  initialDivert : t.initialDivert = s.initialDivert.map (retarget old new)
  inPreamble : t.inPreamble = s.inPreamble
  positionMayFollow : t.positionMayFollow = s.positionMayFollow

namespace Renamed

variable {s t : ScriptState}

theorem report (h : s.Renamed old new t) (m n : Nat) (c d : IssueCause) :
    (s.report m c).Renamed old new (t.report n d) :=
  ⟨h.supply, h.knots, h.knot, h.region, h.initialDivert, h.inPreamble, h.positionMayFollow⟩

theorem closeKnot (hold : IsName old.toList) (hnew : IsName new.toList) (h : s.Renamed old new t)
    (last : Nat) : (s.closeKnot last).Renamed old new (t.closeKnot last) := by
  rcases cases_of_rel h.knot with ⟨hs, ht⟩ | ⟨k, l, hs, ht, hkl⟩
  · rwa [closeKnot_of_none last hs, closeKnot_of_none last ht]
  · have hreworded := (Line.reworded_readFrom hold hnew (List.rel_reverse hkl.body) false).1
    obtain ⟨hitems, hsupply⟩ := Body.read_reword hreworded s.supply
    have hposition := leadingPosition?_reword hreworded
    rw [closeKnot_of_some last hs, closeKnot_of_some last ht]
    refine ⟨?_, .cons ⟨hkl.name, hkl.line, rfl, ?_, h.region, ?_⟩ h.knots, .none, ?_,
      h.initialDivert, h.inPreamble, h.positionMayFollow⟩
    · change (Body.read t.supply l.body.reverse).2 = _
      rw [h.supply, hsupply]
    · change (Body.read t.supply l.body.reverse).1.position = (Body.read s.supply _).1.position
      rw [Body.position_read, Body.position_read]
      exact congrArg _ hposition
    · change (Body.read t.supply l.body.reverse).1.items = _
      rw [h.supply, hitems]
      rfl
    · have hregion := h.region
      simp only [Option.map_map]
      exact hregion

theorem closeRegion (h : s.Renamed old new t) (m n : Nat) :
    (s.closeRegion m).Renamed old new (t.closeRegion n) := by
  unfold ScriptState.closeRegion
  rcases cases_of_map_eq_map h.region with ⟨ht, hs⟩ | ⟨r', r, ht, hs, -⟩
  · rw [hs, ht]
    exact h
  · rw [hs, ht]
    exact ⟨h.supply, h.knots, h.knot, rfl, h.initialDivert, h.inPreamble, h.positionMayFollow⟩

theorem closeUnclosedRegion (h : s.Renamed old new t) (m n : Nat) :
    (s.closeUnclosedRegion m n).Renamed old new (t.closeUnclosedRegion m n) := by
  unfold ScriptState.closeUnclosedRegion
  rcases cases_of_map_eq_map h.region with ⟨ht, hs⟩ | ⟨r', r, ht, hs, -⟩
  · rw [hs, ht]
    exact h
  · rw [hs, ht]
    exact (h.report m m _ _).closeRegion n n

/-! ### Lines outside knots -/

theorem preambleLine (h : s.Renamed old new t) (n : Nat) (l : Line) :
    (s.preambleLine n l).Renamed old new (t.preambleLine n (l.reword (.renaming old new))) := by
  unfold ScriptState.preambleLine
  rw [Line.form_reword, h.initialDivert]
  -- the first divert of the preamble leads to the new name, and other lines are kept
  cases l.form with
  | divert target =>
    cases hs : s.initialDivert with
    | none => exact ⟨h.supply, h.knots, h.knot, h.region, rfl, h.inPreamble, h.positionMayFollow⟩
    | some u => exact ⟨h.supply, h.knots, h.knot, h.region, rfl, h.inPreamble, h.positionMayFollow⟩
  | _ => exact ⟨h.supply, h.knots, h.knot, h.region, rfl, h.inPreamble, h.positionMayFollow⟩

theorem outsideLine (h : s.Renamed old new t) (n : Nat) (l : Line) :
    (s.outsideLine n l).Renamed old new (t.outsideLine n (l.reword (.renaming old new))) := by
  unfold ScriptState.outsideLine
  rw [h.inPreamble]
  split
  · exact h.preambleLine n l
  · rw [Line.form_reword]
    cases l.form <;> first | exact h | exact h.report n n _ _

theorem looseLine (h : s.Renamed old new t) (n : Nat) (l : Line) :
    (s.looseLine n l).Renamed old new (t.looseLine n (l.reword (.renaming old new))) := by
  have hpassed : ({ s with positionMayFollow := false } : ScriptState).Renamed old new
      { t with positionMayFollow := false } :=
    ⟨h.supply, h.knots, h.knot, h.region, h.initialDivert, h.inPreamble, rfl⟩
  have houtside := hpassed.outsideLine n l
  unfold ScriptState.looseLine
  rw [h.positionMayFollow]
  split
  · rw [Line.form_reword]
    rcases cases_of_map_eq_map h.region with ⟨ht, hs⟩ | ⟨r', r, ht, hs, hname⟩
    · rw [hs, ht] at houtside ⊢
      cases l.form <;> exact houtside
    · rw [hs, ht] at houtside ⊢
      cases l.form with
      | position p =>
        exact ⟨h.supply, h.knots, h.knot, congrArg some hname, h.initialDivert, h.inPreamble, rfl⟩
      | _ => exact houtside
  · exact h.outsideLine n l

/-! ### Runs -/

/-- A line and the line that it becomes lead states that agree to states that agree. -/
theorem step (hold : IsName old.toList) (hnew : IsName new.toList) (h : s.Renamed old new t) (n : Nat)
    {x y : String × Line} (hxy : Line.Renames old new x y) :
    (s.step n x.1 x.2).Renamed old new (t.step n y.1 y.2) := by
  have hclosed := h.closeKnot hold hnew (n - 1)
  cases hxy with
  | @header p q l m hl hm =>
    unfold ScriptState.step
    rw [hl, hm]
    -- the header of the knot itself, under the new name
    exact ⟨hclosed.supply, hclosed.knots, .some ⟨renamed_self.symm, rfl, .nil⟩, hclosed.region,
      hclosed.initialDivert, rfl, rfl⟩
  | @other p q l m hpq hlm hne =>
    rw [hlm.eq]
    by_cases hends : l.form.endsKnot = true
    · unfold ScriptState.step
      rw [Line.form_reword]
      cases hform : l.form with
      | knotHeader name =>
        have hname : name ≠ old := by
          rintro rfl
          exact hne hform
        exact ⟨hclosed.supply, hclosed.knots, .some ⟨(renamed_of_ne hname).symm, rfl, .nil⟩,
          hclosed.region, hclosed.initialDivert, rfl, rfl⟩
      | regionStart name =>
        have hunclosed := hclosed.closeUnclosedRegion n (n - 1)
        exact ⟨hunclosed.supply, hunclosed.knots, hunclosed.knot, rfl, hunclosed.initialDivert, rfl, rfl⟩
      | regionEnd =>
        simp only [LineForm.reword]
        rw [isNone_eq_of_map_eq_map hclosed.region]
        split
        · exact hclosed.report n n _ _
        · exact hclosed.closeRegion n n
      | _ => simp [hform, LineForm.endsKnot] at hends
    · have hends' : l.form.endsKnot = false := by simpa using hends
      -- arrows in a line do not change what kind of line it is
      have hreworded : (l.reword (.renaming old new)).form.endsKnot = false := by
        rw [Line.form_reword, ← hends']
        cases l.form <;> rfl
      rw [step_of_not_endsKnot n p s hends', step_of_not_endsKnot n q t hreworded]
      rcases cases_of_rel h.knot with ⟨hs, ht⟩ | ⟨k, k', hs, ht, hkk⟩
      · rw [hs, ht]
        simp only [Line.form_reword, LineForm.isBlank_reword]
        split
        · exact h
        · exact h.looseLine n l
      · rw [hs, ht]
        exact ⟨h.supply, h.knots, .some ⟨hkk.name, hkk.line, .cons hpq hkk.body⟩, h.region,
          h.initialDivert, h.inPreamble, h.positionMayFollow⟩

theorem readFrom (hold : IsName old.toList) (hnew : IsName new.toList) (h : s.Renamed old new t) (n : Nat)
    {xs ys : List (String × Line)} (hxy : List.Forall₂ (Line.Renames old new) xs ys) :
    (s.readFrom n xs).Renamed old new (t.readFrom n ys) := by
  induction hxy generalizing s t n with
  | nil => exact h
  | @cons x y xs ys hhead _ ih =>
    rw [ScriptState.readFrom, ScriptState.readFrom]
    exact ih (h.step hold hnew n hhead) (n + 1)

end Renamed

/-- The knots of a script in which a knot is renamed are its knots renamed, and the first divert of the
preamble leads where it led. -/
theorem renamed_ofLines (hold : IsName old.toList) (hnew : IsName new.toList) {ls ms : List String}
    (h : List.Forall₂ (Line.Renames old new) (ls.zip (Line.ofTexts ls)) (ms.zip (Line.ofTexts ms)))
    (supply : Nat) : (ofLines supply ls).Renamed old new (ofLines supply ms) := by
  have hstart : ({ supply } : ScriptState).Renamed old new { supply } :=
    ⟨rfl, .nil, .none, rfl, rfl, rfl, rfl⟩
  have hlength : ms.length = ls.length := by
    rw [← length_zip_ofTexts ms, ← length_zip_ofTexts ls, h.length_eq]
  rw [ofLines, ofLines, finish, finish, hlength]
  exact ((hstart.readFrom hold hnew 1 h).closeKnot hold hnew _).closeUnclosedRegion _ _

end ScriptState

end StoryScript
