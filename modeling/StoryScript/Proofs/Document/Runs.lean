import StoryScript.Document.Reading
import StoryScript.Proofs.Body.Supply
import StoryScript.Proofs.Line.Section
import Mathlib.Data.Option.Basic

/-!
# Two runs over the same lines

What a script holds of knots depends on its lines alone, up to blanks around them: not on where its
identities are drawn from, and not on what came before, apart from the knot that is open, the name of the
open region and whether a knot has been read that has the name of one to come
(`ScriptState.Similar.readFrom`). So the part of a script behind a knot gives the same knots whatever
stands in that knot, and so does a part in front of which further knots have been put.

What one line makes of a state is `ScriptState.Steps`, with one case for each thing that can happen. Whatever
reading keeps is shown by these cases, here and in the modules that follow.
-/

namespace StoryScript

open Text

theorem isNone_eq_of_map_eq_map {α β γ : Type} {f : α → γ} {g : β → γ} {a : Option α} {b : Option β}
    (h : a.map f = b.map g) : a.isNone = b.isNone := by
  rcases cases_of_map_eq_map h with ⟨rfl, rfl⟩ | ⟨x, y, rfl, rfl, -⟩ <;> rfl

theorem cases_of_rel {α β : Type} {r : α → β → Prop} {a : Option α} {b : Option β}
    (h : Option.Rel r a b) : a = none ∧ b = none ∨ ∃ x y, a = some x ∧ b = some y ∧ r x y := by
  cases h with
  | some h => exact Or.inr ⟨_, _, rfl, rfl, h⟩
  | none => exact Or.inl ⟨rfl, rfl⟩

/-! ### Bodies -/

/-- A body is read off its lines without the blanks around them. -/
theorem Body.read_congr {ls ms : List String} (h : ls.map strip = ms.map strip) (supply : Nat) :
    Body.read supply ls = Body.read supply ms := by
  have hlines : Line.ofTexts ls = Line.ofTexts ms := Line.readFrom_congr h false
  rw [Body.read, Body.read, hlines]

theorem Body.position_read (supply : Nat) (texts : List String) :
    (Body.read supply texts).1.position =
      (leadingPosition? (Line.ofTexts texts)).map Prod.fst := by
  rw [Body.read_eq]

/-- Knots that differ in identities, lines and the spelling of their lines alone. -/
structure Knot.Alike (k l : Knot) : Prop where
  name : k.name = l.name
  region : k.region = l.region
  duplicate : k.duplicate = l.duplicate
  position : k.position = l.position
  items : Item.unlabelledIn k.items = Item.unlabelledIn l.items

namespace Knot.Alike

variable {k l m : Knot}

theorem refl (k : Knot) : k.Alike k := ⟨rfl, rfl, rfl, rfl, rfl⟩

theorem symm (h : k.Alike l) : l.Alike k :=
  ⟨h.name.symm, h.region.symm, h.duplicate.symm, h.position.symm, h.items.symm⟩

theorem trans (h : k.Alike l) (h' : l.Alike m) : k.Alike m :=
  ⟨h.name.trans h'.name, h.region.trans h'.region, h.duplicate.trans h'.duplicate,
    h.position.trans h'.position, h.items.trans h'.items⟩

end Knot.Alike

theorem map_name_of_alike {ks ls : List Knot} (h : List.Forall₂ Knot.Alike ks ls) :
    ks.map Knot.name = ls.map Knot.name := by
  induction h with
  | nil => rfl
  | cons hkl _ ih => rw [List.map_cons, List.map_cons, hkl.name, ih]

/-- Open knots with the same name and the same lines. -/
structure OpenKnot.Alike (k l : OpenKnot) : Prop where
  name : k.name = l.name
  body : k.body.map strip = l.body.map strip

namespace ScriptState

/-- States that agree in the knots read since they held `base` and `base'`, where `N` are the names of the
knots that may be read. -/
structure Similar (N : String → Prop) (base base' : List Knot) (s t : ScriptState) : Prop where
  knots : ∃ ks ls, s.knots = ks ++ base ∧ t.knots = ls ++ base' ∧ List.Forall₂ Knot.Alike ks ls
  names : ∀ name, N name → (name ∈ base.map Knot.name ↔ name ∈ base'.map Knot.name)
  knot : Option.Rel OpenKnot.Alike s.knot t.knot
  opened : ∀ k ∈ s.knot, N k.name
  region : s.region.map OpenRegion.name = t.region.map OpenRegion.name

variable {N : String → Prop} {base base' : List Knot} {s t : ScriptState}

/-! ### Knots that end -/

theorem closeKnot_of_none (last : Nat) (h : s.knot = none) : s.closeKnot last = s := by
  rw [closeKnot, h]

/-- The knot that an open knot becomes. -/
def finished (s : ScriptState) (k : OpenKnot) (last : Nat) : Knot :=
  { name := k.name
    lineStart := k.line
    lineEnd := last
    header := k.header
    items := (Body.read s.supply k.body.reverse).1.items
    content := unlines (k.header :: k.body.reverse)
    position := (Body.read s.supply k.body.reverse).1.position
    region := s.region.map OpenRegion.name
    duplicate := s.knots.any (·.name = k.name) }

theorem knots_closeKnot (last : Nat) {k : OpenKnot} (h : s.knot = some k) :
    (s.closeKnot last).knots = s.finished k last :: s.knots := by
  rw [closeKnot, h]
  simp only
  split <;> rfl

/-- What closing a knot makes of a state. -/
theorem closeKnot_of_some (last : Nat) {k : OpenKnot} (h : s.knot = some k) :
    s.closeKnot last = { s with
      supply := (Body.read s.supply k.body.reverse).2
      knot := none
      issues := (if s.knots.any (·.name = k.name) then [⟨.duplicateKnot k.name, k.line⟩] else []) ++
        ((Body.read s.supply k.body.reverse).1.issues.map fun i =>
          { i with line := k.line + 1 + i.line }).reverse ++ s.issues
      region := s.region.map fun r => { r with knots := k.name :: r.knots }
      knots := s.finished k last :: s.knots } := by
  rw [closeKnot, h]
  cases hany : s.knots.any (·.name = k.name) <;> simp [hany, finished, report]

theorem knot_closeKnot (last : Nat) (s : ScriptState) : (s.closeKnot last).knot = none := by
  unfold closeKnot
  split
  · assumption
  · simp only
    split <;> rfl

theorem region_closeKnot (last : Nat) (s : ScriptState) :
    (s.closeKnot last).region.map OpenRegion.name = s.region.map OpenRegion.name := by
  unfold closeKnot
  split
  · rfl
  · simp only
    split <;> simp [report, Function.comp_def]

theorem closeKnot_closeKnot (last last' : Nat) (s : ScriptState) :
    (s.closeKnot last).closeKnot last' = s.closeKnot last :=
  closeKnot_of_none last' (knot_closeKnot last s)

namespace Similar

theorem any_name (h : s.Similar N base base' t) {name : String} (hname : N name) :
    s.knots.any (·.name = name) = t.knots.any (·.name = name) := by
  obtain ⟨ks, ls, hs, ht, halike⟩ := h.knots
  have hmem : ∀ ks : List Knot, ks.any (·.name = name) = true ↔ name ∈ ks.map Knot.name := by
    intro ks
    simp
  rw [Bool.eq_iff_iff, hmem, hmem, hs, ht, List.map_append, List.map_append, List.mem_append,
    List.mem_append, map_name_of_alike halike, h.names name hname]

theorem closeKnot (h : s.Similar N base base' t) (m n : Nat) :
    (s.closeKnot m).Similar N base base' (t.closeKnot n) := by
  have hregion : (s.closeKnot m).region.map OpenRegion.name =
      (t.closeKnot n).region.map OpenRegion.name := by
    rw [region_closeKnot, region_closeKnot, h.region]
  rcases cases_of_rel h.knot with ⟨hs, ht⟩ | ⟨k, l, hs, ht, hkl⟩
  · rwa [closeKnot_of_none m hs, closeKnot_of_none n ht]
  · have hbody : k.body.reverse.map strip = l.body.reverse.map strip := by
      rw [List.map_reverse, List.map_reverse, hkl.body]
    have hany : s.knots.any (·.name = k.name) = t.knots.any (·.name = l.name) := by
      rw [← hkl.name]
      exact h.any_name (h.opened k hs)
    have hfinished : (s.finished k m).Alike (t.finished l n) := by
      refine ⟨hkl.name, h.region, hany, ?_, ?_⟩
      · change (Body.read s.supply _).1.position = (Body.read t.supply _).1.position
        rw [Body.position_read, Body.position_read, Line.ofTexts, Line.ofTexts,
          Line.readFrom_congr hbody]
      · change Item.unlabelledIn (Body.read s.supply _).1.items =
          Item.unlabelledIn (Body.read t.supply _).1.items
        rw [Body.read_congr hbody, Body.unlabelledIn_read]
    obtain ⟨ks, ls, hks, hls, halike⟩ := h.knots
    refine ⟨⟨s.finished k m :: ks, t.finished l n :: ls, ?_, ?_, .cons hfinished halike⟩,
      h.names, ?_, ?_, hregion⟩
    · rw [knots_closeKnot m hs, hks, List.cons_append]
    · rw [knots_closeKnot n ht, hls, List.cons_append]
    · rw [knot_closeKnot, knot_closeKnot]
      exact .none
    · rw [knot_closeKnot]
      simp

end Similar

/-! ### Lines outside knots -/

/-- What a line outside knots leaves as it is. -/
structure SameKnots (s t : ScriptState) : Prop where
  knots : s.knots = t.knots
  knot : s.knot = t.knot
  region : s.region.map OpenRegion.name = t.region.map OpenRegion.name

theorem SameKnots.refl (s : ScriptState) : s.SameKnots s := ⟨rfl, rfl, rfl⟩

/-- The same but for the front and the issues. -/
structure SameRest (s t : ScriptState) : Prop where
  supply : s.supply = t.supply
  knots : s.knots = t.knots
  regions : s.regions = t.regions
  knot : s.knot = t.knot
  region : s.region = t.region
  inPreamble : s.inPreamble = t.inPreamble
  positionMayFollow : s.positionMayFollow = t.positionMayFollow

theorem sameRest_outsideLine (n : Nat) (l : Line) (s : ScriptState) : (s.outsideLine n l).SameRest s := by
  unfold outsideLine preambleLine
  split
  · split <;> exact ⟨rfl, rfl, rfl, rfl, rfl, rfl, rfl⟩
  · split <;> exact ⟨rfl, rfl, rfl, rfl, rfl, rfl, rfl⟩

/-- What a line outside knots makes of a state. A position right behind the marker of a region is that of the
region, and any other line there ends the time in which one may come. -/
inductive StepsOutside (n : Nat) (l : Line) (s : ScriptState) : ScriptState → Prop
  | placed {p : Position} {r : OpenRegion} (hfollow : s.positionMayFollow = true)
      (hform : l.form = .position p) (hregion : s.region = some r) : StepsOutside n l s
      { s with
        positionMayFollow := false
        region := some { r with position := some p } }
  | passed (hfollow : s.positionMayFollow = true)
      (hother : ∀ p r, l.form = .position p → s.region = some r → False) : StepsOutside n l s
      (({ s with positionMayFollow := false } : ScriptState).outsideLine n l)
  | outside (hfollow : s.positionMayFollow = false) : StepsOutside n l s (s.outsideLine n l)

theorem stepsOutside (n : Nat) (l : Line) (s : ScriptState) : StepsOutside n l s (s.looseLine n l) := by
  unfold looseLine
  split
  · next hfollow =>
    dsimp only
    split
    · next hform hregion => exact .placed hfollow hform hregion
    · next hother => exact .passed hfollow hother
  · next hfollow => exact .outside (Bool.not_eq_true _ |>.mp hfollow)

/-- A line outside knots places the open region at most. -/
structure SameChapters (s t : ScriptState) : Prop extends SameKnots s t where
  supply : s.supply = t.supply
  regions : s.regions = t.regions
  inPreamble : s.inPreamble = t.inPreamble

theorem sameChapters_looseLine (n : Nat) (l : Line) (s : ScriptState) :
    (s.looseLine n l).SameChapters s := by
  have hsteps := stepsOutside n l s
  generalize s.looseLine n l = t at hsteps ⊢
  cases hsteps with
  | placed _ _ hregion => exact ⟨⟨rfl, rfl, by rw [hregion]; rfl⟩, rfl, rfl, rfl⟩
  | passed _ _ =>
    have hrest := sameRest_outsideLine n l { s with positionMayFollow := false }
    exact ⟨⟨hrest.knots, hrest.knot, by rw [hrest.region]⟩, hrest.supply, hrest.regions, hrest.inPreamble⟩
  | outside _ =>
    have hrest := sameRest_outsideLine n l s
    exact ⟨⟨hrest.knots, hrest.knot, by rw [hrest.region]⟩, hrest.supply, hrest.regions, hrest.inPreamble⟩

theorem sameKnots_looseLine (n : Nat) (l : Line) (s : ScriptState) :
    (s.looseLine n l).SameKnots s := (sameChapters_looseLine n l s).toSameKnots

theorem Similar.of_sameKnots {s' t' : ScriptState} (hs : s'.SameKnots s) (ht : t'.SameKnots t)
    (h : s.Similar N base base' t) : s'.Similar N base base' t' := by
  obtain ⟨ks, ls, hks, hls, halike⟩ := h.knots
  exact ⟨⟨ks, ls, hs.knots.trans hks, ht.knots.trans hls, halike⟩, h.names,
    by rw [hs.knot, ht.knot]; exact h.knot, by rw [hs.knot]; exact h.opened,
    by rw [hs.region, ht.region]; exact h.region⟩

/-! ### One line -/

/-- A line in a knot or outside of knots that ends none. -/
theorem step_of_not_endsKnot (n : Nat) (physical : String) {l : Line} (s : ScriptState)
    (h : l.form.endsKnot = false) :
    s.step n physical l =
      match s.knot with
      | some k => { s with knot := some { k with body := physical :: k.body } }
      | none => if l.form.isBlank then s else s.looseLine n l := by
  unfold step
  split
  · next hform => simp [hform, LineForm.endsKnot] at h
  · next hform => simp [hform, LineForm.endsKnot] at h
  · next hform => simp [hform, LineForm.endsKnot] at h
  · cases s.knot <;> rfl

/-- What a line makes of a state. Headers and markers end the open knot first; every other line goes into the
open knot or, outside of knots, is looked at unless it is blank. -/
inductive Steps (n : Nat) (p : String) (l : Line) (s : ScriptState) : ScriptState → Prop
  | header {name : String} (hform : l.form = .knotHeader name) : Steps n p l s
      { s.closeKnot (n - 1) with
        inPreamble := false
        positionMayFollow := false
        knot := some ⟨name, n, p, []⟩ }
  | regionStart {name : String} (hform : l.form = .regionStart name) : Steps n p l s
      { (s.closeKnot (n - 1)).closeUnclosedRegion n (n - 1) with
        inPreamble := false
        positionMayFollow := true
        region := some ⟨name, n, none, []⟩ }
  | strayEnd (hform : l.form = .regionEnd) (hregion : (s.closeKnot (n - 1)).region = none) :
      Steps n p l s ((s.closeKnot (n - 1)).report n .regionEndStray)
  | regionEnd {r : OpenRegion} (hform : l.form = .regionEnd)
      (hregion : (s.closeKnot (n - 1)).region = some r) :
      Steps n p l s ((s.closeKnot (n - 1)).closeRegion n)
  | body {k : OpenKnot} (hends : l.form.endsKnot = false) (hknot : s.knot = some k) :
      Steps n p l s { s with knot := some { k with body := p :: k.body } }
  | blank (hblank : l.form.isBlank = true) (hknot : s.knot = none) : Steps n p l s s
  | loose (hends : l.form.endsKnot = false) (hblank : l.form.isBlank = false) (hknot : s.knot = none) :
      Steps n p l s (s.looseLine n l)

theorem steps (n : Nat) (p : String) (l : Line) (s : ScriptState) : Steps n p l s (s.step n p l) := by
  by_cases hends : l.form.endsKnot = true
  · unfold step
    split
    · next hform => exact .header hform
    · next hform => exact .regionStart hform
    · next hform =>
      dsimp only
      cases hregion : (s.closeKnot (n - 1)).region with
      | none => exact .strayEnd hform hregion
      | some r => exact .regionEnd hform hregion
    · next hheader hstart hend => simp [LineForm.endsKnot_eq_false hheader hstart hend] at hends
  · rw [Bool.not_eq_true] at hends
    rw [step_of_not_endsKnot n p s hends]
    cases hknot : s.knot with
    | some k => exact .body hends hknot
    | none =>
      cases hblank : l.form.isBlank with
      | true => exact .blank hblank hknot
      | false => exact .loose hends hblank hknot

/-- A line that ends the knot does so before anything else. -/
theorem step_closeKnot (n : Nat) (physical : String) {l : Line} (s : ScriptState)
    (h : l.form.endsKnot = true) :
    (s.closeKnot (n - 1)).step n physical l = s.step n physical l := by
  unfold step
  split
  · rw [closeKnot_closeKnot]
  · rw [closeKnot_closeKnot]
  · rw [closeKnot_closeKnot]
  · next hheader hstart hend => simp [LineForm.endsKnot_eq_false hheader hstart hend] at h

theorem sameKnots_closeRegion (last : Nat) (s : ScriptState) :
    (s.closeRegion last).knots = s.knots ∧ (s.closeRegion last).knot = s.knot ∧
      (s.closeRegion last).region = none := by
  unfold closeRegion
  split
  · next h => exact ⟨rfl, rfl, h⟩
  · exact ⟨rfl, rfl, rfl⟩

theorem sameKnots_closeUnclosedRegion (line last : Nat) (s : ScriptState) :
    (s.closeUnclosedRegion line last).knots = s.knots ∧
      (s.closeUnclosedRegion line last).knot = s.knot ∧
      (s.closeUnclosedRegion line last).region = none := by
  unfold closeUnclosedRegion
  split
  · next h => exact ⟨rfl, rfl, h⟩
  · exact sameKnots_closeRegion last _

/-- The same line leads similar states to similar states. -/
theorem Similar.step (h : s.Similar N base base' t) (m n : Nat) {p q : String}
    (hpq : strip p = strip q) {l : Line} (hl : ∀ name, l.form = .knotHeader name → N name) :
    (s.step m p l).Similar N base base' (t.step n q l) := by
  have hclosed := h.closeKnot (m - 1) (n - 1)
  by_cases hends : l.form.endsKnot = true
  · obtain ⟨ks, ls, hks, hls, halike⟩ := hclosed.knots
    -- in both states the knot ends first, and then the same is begun
    have hnone : Option.Rel OpenKnot.Alike (s.closeKnot (m - 1)).knot (t.closeKnot (n - 1)).knot := by
      rw [knot_closeKnot, knot_closeKnot]
      exact .none
    have hshut : ∀ k ∈ (s.closeKnot (m - 1)).knot, N k.name := by simp [knot_closeKnot]
    unfold ScriptState.step
    split
    · next name hform =>
      refine ⟨⟨ks, ls, hks, hls, halike⟩, hclosed.names, .some ⟨rfl, rfl⟩, fun k hk => ?_,
        hclosed.region⟩
      obtain rfl := Option.some.inj hk
      exact hl name hform
    · obtain ⟨hks', -, -⟩ :=
        sameKnots_closeUnclosedRegion m (m - 1) (s.closeKnot (m - 1))
      obtain ⟨hls', -, -⟩ :=
        sameKnots_closeUnclosedRegion n (n - 1) (t.closeKnot (n - 1))
      refine ⟨⟨ks, ls, hks'.trans hks, hls'.trans hls, halike⟩, hclosed.names, ?_, ?_, rfl⟩
      · simp only [(sameKnots_closeUnclosedRegion _ _ _).2.1]
        exact hnone
      · simp only [(sameKnots_closeUnclosedRegion _ _ _).2.1]
        exact hshut
    · simp only
      rw [isNone_eq_of_map_eq_map hclosed.region]
      split
      · exact ⟨⟨ks, ls, hks, hls, halike⟩, hclosed.names, hnone, hshut, hclosed.region⟩
      · obtain ⟨hks', hknot, hregion⟩ := sameKnots_closeRegion m (s.closeKnot (m - 1))
        obtain ⟨hls', hknot', hregion'⟩ := sameKnots_closeRegion n (t.closeKnot (n - 1))
        exact ⟨⟨ks, ls, hks'.trans hks, hls'.trans hls, halike⟩, hclosed.names,
          by rw [hknot, hknot']; exact hnone, by rw [hknot]; exact hshut, by rw [hregion, hregion']⟩
    · next hheader hstart hend => simp [LineForm.endsKnot_eq_false hheader hstart hend] at hends
  · have hends' : l.form.endsKnot = false := by simpa using hends
    rw [step_of_not_endsKnot m p s hends', step_of_not_endsKnot n q t hends']
    -- a knot is open in both states or in neither; if one is, the line goes into its body
    rcases cases_of_rel h.knot with ⟨hs, ht⟩ | ⟨k, k', hs, ht, hkk⟩
    · rw [hs, ht]
      simp only
      split
      · exact h
      · exact h.of_sameKnots (sameKnots_looseLine m l s) (sameKnots_looseLine n l t)
    · rw [hs, ht]
      refine ⟨h.knots, h.names, .some ⟨hkk.name, ?_⟩, fun j hj => ?_, h.region⟩
      · rw [List.map_cons, List.map_cons, hpq, hkk.body]
      · obtain rfl := Option.some.inj hj
        exact h.opened k hs

/-! ### Runs -/

/-- The same lines lead similar states to similar states. -/
theorem Similar.readFrom (h : s.Similar N base base' t) (m n : Nat) {xs ys : List (String × Line)}
    (hxy : List.Forall₂ (fun x y => strip x.1 = strip y.1 ∧ x.2 = y.2) xs ys)
    (hN : ∀ x ∈ xs, ∀ name, x.2.form = .knotHeader name → N name) :
    (s.readFrom m xs).Similar N base base' (t.readFrom n ys) := by
  induction hxy generalizing s t m n with
  | nil => exact h
  | @cons x y xs ys hhead _ ih =>
    obtain ⟨p, l⟩ := x
    obtain ⟨q, l'⟩ := y
    obtain ⟨hpq, hl⟩ := hhead
    change l = l' at hl
    rw [List.forall_mem_cons] at hN
    rw [ScriptState.readFrom, ScriptState.readFrom, ← hl]
    exact ih (h.step m n hpq hN.1) (m + 1) (n + 1) hN.2

theorem Similar.finish (h : s.Similar N base base' t) (m n : Nat) :
    (s.finish m).Similar N base base' (t.finish n) := by
  have hclosed := h.closeKnot m n
  obtain ⟨ks, ls, hks, hls, halike⟩ := hclosed.knots
  obtain ⟨hks', hknot, hregion⟩ := sameKnots_closeUnclosedRegion m m (s.closeKnot m)
  obtain ⟨hls', hknot', hregion'⟩ := sameKnots_closeUnclosedRegion n n (t.closeKnot n)
  refine ⟨⟨ks, ls, hks'.trans hks, hls'.trans hls, halike⟩, hclosed.names, ?_, ?_, ?_⟩
  · rw [ScriptState.finish, ScriptState.finish, hknot, hknot', knot_closeKnot, knot_closeKnot]
    exact .none
  · rw [ScriptState.finish, hknot, knot_closeKnot]
    simp
  · rw [ScriptState.finish, ScriptState.finish, hregion, hregion']

theorem readFrom_append (s : ScriptState) (n : Nat) (xs ys : List (String × Line)) :
    s.readFrom n (xs ++ ys) = (s.readFrom n xs).readFrom (n + xs.length) ys := by
  induction xs generalizing s n with
  | nil => rfl
  | cons x xs ih =>
    obtain ⟨p, l⟩ := x
    rw [List.cons_append, readFrom, readFrom, ih, List.length_cons]
    congr 1
    omega

/-- Lines that do not end the open knot become its body. -/
theorem readFrom_body {k : OpenKnot} (n : Nat) {xs : List (String × Line)} (hk : s.knot = some k)
    (h : ∀ x ∈ xs, x.2.form.endsKnot = false) :
    s.readFrom n xs =
      { s with knot := some { k with body := (xs.map Prod.fst).reverse ++ k.body } } := by
  induction xs generalizing s n k with
  | nil =>
    rw [readFrom, List.map_nil, List.reverse_nil, List.nil_append, ← hk]
  | cons x xs ih =>
    obtain ⟨p, l⟩ := x
    rw [List.forall_mem_cons] at h
    rw [readFrom, step_of_not_endsKnot n p s h.1, hk]
    simp only
    rw [ih (n + 1) rfl h.2, List.map_cons, List.reverse_cons, List.append_assoc]
    rfl

/-- Behind a knot the run goes on as if the knot had been finished. -/
theorem finish_readFrom (s : ScriptState) (n : Nat) {xs : List (String × Line)}
    (h : ∀ x ∈ xs.head?, x.2.form.endsKnot = true) :
    (s.readFrom (n + 1) xs).finish (n + xs.length) =
      ((s.closeKnot n).readFrom (n + 1) xs).finish (n + xs.length) := by
  cases xs with
  | nil =>
    rw [readFrom, readFrom, List.length_nil, Nat.add_zero, finish, finish, closeKnot_closeKnot]
  | cons x xs =>
    obtain ⟨p, l⟩ := x
    have hends : l.form.endsKnot = true := h _ rfl
    rw [readFrom, readFrom, ← step_closeKnot (n + 1) p s hends, Nat.add_sub_cancel]

end ScriptState

end StoryScript
