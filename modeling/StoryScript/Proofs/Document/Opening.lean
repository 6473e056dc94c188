import StoryScript.Proofs.Document.Front

/-!
# Scripts that open with other lines

In front of the first knot and the first region a script may hold any lines (`Line.isFront`). The first divert
among them is where the story starts (`ScriptState.initialDivert_ofLines`), and nothing else that is read of them
matters behind: the same lines behind two such fronts are read as the same knots and the same regions, but for
their places (`ScriptState.behind_fronts`). What a state holds of the regions is kept apart for that
(`ScriptState.SameRegions`): it depends on the lines and on what is held of the regions, and on nothing else.
-/

namespace StoryScript

open Text

/-- The target of a divert on its own. -/
def LineForm.target? : LineForm → Option String
  | divert target => some target
  | _ => none

/-- The target of the first divert. -/
def Line.firstTarget? (ls : List Line) : Option String := ls.findSome? (·.form.target?)

theorem Line.endsKnot_of_not_isFront {l : Line} (h : Line.isFront [l] = false) : l.form.endsKnot = true := by
  obtain ⟨text, form⟩ := l
  cases form <;> first | rfl | exact absurd h.symm Bool.false_ne_true

/-- Of the lines that end a knot only an end marker stands in the front. -/
theorem Line.form_of_isFront {l : Line} (hends : l.form.endsKnot = true) (h : Line.isFront [l] = true) :
    l.form = .regionEnd := by
  obtain ⟨text, form⟩ := l
  cases form <;> first
    | rfl
    | exact absurd hends Bool.false_ne_true
    | exact absurd h Bool.false_ne_true

/-- A region without its place in the script. -/
def Region.unplaced (r : Region) : Region := { r with lineStart := 0, lineEnd := 0 }

/-- An open region without its place in the script. -/
def OpenRegion.unplaced (r : OpenRegion) : OpenRegion := { r with line := 0 }

namespace ScriptState

variable {supply supply' : Nat} {ls front front' behind : List String} {s t : ScriptState} {l : Line}

/-! ### In front of everything -/

/-- The state behind lines of the front: no knot and no region has begun. -/
structure Opening (ls : List Line) (s : ScriptState) : Prop extends s.InFront where
  knots : s.knots = []
  regions : s.regions = []
  initialDivert : s.initialDivert = Line.firstTarget? ls

theorem Opening.preambleLine {read : List Line} (h : s.Opening read) (n : Nat) (l : Line) :
    (s.preambleLine n l).Opening (read ++ [l]) := by
  have hfirst : Line.firstTarget? (read ++ [l]) = s.initialDivert.or l.form.target? := by
    rw [Line.firstTarget?, List.findSome?_append, List.findSome?_singleton, h.initialDivert]
    rfl
  -- a line changes what is held only if it is a divert and none came before it
  have hother : l.form.target? = none ∨ s.initialDivert.isSome = true →
      s.initialDivert = Line.firstTarget? (read ++ [l]) := by
    rintro (hnone | hsome)
    · rw [hfirst, hnone, Option.or_none]
    · rw [hfirst, Option.or_of_isSome hsome]
  have hin : ∀ {t : ScriptState}, t.knot = s.knot → t.region = s.region → t.inPreamble = s.inPreamble →
      t.positionMayFollow = s.positionMayFollow → t.InFront := fun hknot hregion hpreamble hfollow =>
    ⟨hknot.trans h.knot, hregion.trans h.region, hpreamble.trans h.inPreamble, hfollow.trans h.follow⟩
  unfold ScriptState.preambleLine
  split
  · next p hform =>
    exact ⟨hin rfl rfl rfl rfl, h.knots, h.regions, hother (Or.inl (by rw [hform]; rfl))⟩
  · next p hform =>
    exact ⟨hin rfl rfl rfl rfl, h.knots, h.regions, hother (Or.inl (by rw [hform]; rfl))⟩
  · next name params hform =>
    exact ⟨hin rfl rfl rfl rfl, h.knots, h.regions, hother (Or.inl (by rw [hform]; rfl))⟩
  · next path hform =>
    exact ⟨hin rfl rfl rfl rfl, h.knots, h.regions, hother (Or.inl (by rw [hform]; rfl))⟩
  · next target hform hnone =>
    refine ⟨hin rfl rfl rfl rfl, h.knots, h.regions, ?_⟩
    rw [hfirst, hnone, hform, Option.none_or]
    rfl
  · next hdivert =>
    refine ⟨hin rfl rfl rfl rfl, h.knots, h.regions, hother ?_⟩
    cases hform : l.form with
    | divert target =>
      refine Or.inr (Option.isSome_iff_ne_none.mpr fun hnone => hdivert target hform hnone)
    | _ => exact Or.inl rfl

theorem Opening.step {read : List Line} (h : s.Opening read) (n : Nat) (p : String)
    (hfront : Line.isFront [l] = true) : (s.step n p l).Opening (read ++ [l]) := by
  have hsilent : l.form.target? = none → s.initialDivert = Line.firstTarget? (read ++ [l]) := by
    intro hnone
    rw [Line.firstTarget?, List.findSome?_append, List.findSome?_singleton, hnone, Option.or_none, h.initialDivert]
    rfl
  by_cases hends : l.form.endsKnot = true
  · -- in front of all regions an end marker is a stray one
    have hform := Line.form_of_isFront hends hfront
    have hstep : s.step n p l = s.report n .regionEndStray := by
      unfold ScriptState.step
      rw [hform]
      dsimp only
      rw [closeKnot_of_none _ h.knot, if_pos (by rw [h.region]; rfl)]
    rw [hstep]
    exact ⟨⟨h.knot, h.region, h.inPreamble, h.follow⟩, h.knots, h.regions, hsilent (by rw [hform]; rfl)⟩
  · rw [Bool.not_eq_true] at hends
    cases hblank : l.form.isBlank with
    | true =>
      rw [step_of_not_endsKnot n p s hends, h.knot]
      dsimp only
      rw [if_pos hblank]
      refine ⟨h.toInFront, h.knots, h.regions, hsilent ?_⟩
      rw [LineForm.isBlank_iff.mp hblank]
      rfl
    | false =>
      rw [step_of_inFront h.toInFront n p hends hblank]
      exact h.preambleLine n l

/-- What has been read of the front. -/
theorem opening_ahead (supply : Nat) (hfront : Line.isFront (Line.ofTexts front) = true) :
    (ahead supply front).Opening (Line.ofTexts front) := by
  have hstart : ({ supply } : ScriptState).Opening [] := ⟨⟨rfl, rfl, rfl, rfl⟩, rfl, rfl, rfl⟩
  have hread : (behindFirst supply front front.length).Opening
      ((Line.ofTexts front).take front.length) := by
    refine behindFirst_induction (I := fun n s => s.Opening ((Line.ofTexts front).take n)) hstart ?_
    intro n p l s _ hl h
    have hline : Line.isFront [l] = true := by
      have hall := List.all_eq_true.mp hfront l (List.mem_of_getElem? hl)
      rw [Line.isFront, List.all_cons, List.all_nil, Bool.and_true]
      exact hall
    rw [Line.take_succ_eq hl]
    exact h.step (n + 1) p hline
  rw [List.take_of_length_le (Nat.le_of_eq (Line.length_ofTexts front)), behindFirst,
    List.take_of_length_le (Nat.le_of_eq (length_zip_ofTexts front))] at hread
  rwa [ahead, closeKnot_of_none _ hread.knot]

/-! ### What is held of the regions -/

/-- States that hold the same of regions, but for their places. -/
structure SameRegions (s t : ScriptState) : Prop where
  regions : s.regions.map Region.unplaced = t.regions.map Region.unplaced
  region : s.region.map OpenRegion.unplaced = t.region.map OpenRegion.unplaced
  knot : s.knot.map OpenKnot.name = t.knot.map OpenKnot.name
  follow : s.positionMayFollow = t.positionMayFollow

namespace SameRegions

theorem closeKnot (h : s.SameRegions t) (m n : Nat) : (s.closeKnot m).SameRegions (t.closeKnot n) := by
  rcases cases_of_map_eq_map h.knot with ⟨hs, ht⟩ | ⟨k, l, hs, ht, hname⟩
  · rwa [closeKnot_of_none m hs, closeKnot_of_none n ht]
  · rw [closeKnot_of_some m hs, closeKnot_of_some n ht]
    refine ⟨h.regions, ?_, rfl, h.follow⟩
    -- the region that is open takes in the name of the knot that ends
    have hregion := congrArg (Option.map fun r : OpenRegion => { r with knots := k.name :: r.knots }) h.region
    rw [Option.map_map, Option.map_map] at hregion
    dsimp only
    rw [Option.map_map, Option.map_map, ← hname]
    exact hregion

theorem closeRegion (h : s.SameRegions t) (m n : Nat) : (s.closeRegion m).SameRegions (t.closeRegion n) := by
  unfold ScriptState.closeRegion
  rcases cases_of_map_eq_map h.region with ⟨hs, ht⟩ | ⟨r, r', hs, ht, hr⟩
  · rw [hs, ht]
    exact h
  · rw [hs, ht]
    simp only [OpenRegion.unplaced, OpenRegion.mk.injEq] at hr
    refine ⟨?_, rfl, h.knot, h.follow⟩
    rw [List.map_cons, List.map_cons, h.regions]
    simp only [Region.unplaced, hr]

theorem closeUnclosedRegion (h : s.SameRegions t) (m m' n n' : Nat) :
    (s.closeUnclosedRegion m m').SameRegions (t.closeUnclosedRegion n n') := by
  unfold ScriptState.closeUnclosedRegion
  rcases cases_of_map_eq_map h.region with ⟨hs, ht⟩ | ⟨r, r', hs, ht, -⟩
  · rw [hs, ht]
    exact h
  · rw [hs, ht]
    have hreport : (s.report m (.regionUnclosed r.name)).SameRegions (t.report n (.regionUnclosed r'.name)) :=
      ⟨h.regions, h.region, h.knot, h.follow⟩
    exact hreport.closeRegion m' n'

theorem outsideLine (h : s.SameRegions t) (m n : Nat) (l : Line) :
    (s.outsideLine m l).SameRegions (t.outsideLine n l) := by
  -- such a line is kept or reported, in the front or behind it; the regions stay as they are
  have hs := sameRest_outsideLine m l s
  have ht := sameRest_outsideLine n l t
  exact {
    regions := by rw [hs.regions, ht.regions, h.regions]
    region := by rw [hs.region, ht.region, h.region]
    knot := by rw [hs.knot, ht.knot, h.knot]
    follow := by rw [hs.positionMayFollow, ht.positionMayFollow, h.follow] }

theorem looseLine (h : s.SameRegions t) (m n : Nat) (l : Line) :
    (s.looseLine m l).SameRegions (t.looseLine n l) := by
  have hregion := h.region
  unfold ScriptState.looseLine
  rw [← h.follow]
  split
  -- right behind its marker a region takes a position, in both states or in neither
  · have hnext : ({ s with positionMayFollow := false } : ScriptState).SameRegions
        { t with positionMayFollow := false } := ⟨h.regions, h.region, h.knot, rfl⟩
    dsimp only
    split
    · next p r hform hs =>
      rw [hs, Option.map_some, eq_comm, Option.map_eq_some_iff] at hregion
      obtain ⟨r', ht, hr⟩ := hregion
      simp only [OpenRegion.unplaced, OpenRegion.mk.injEq] at hr
      rw [hform, ht]
      refine ⟨h.regions, ?_, h.knot, rfl⟩
      simp only [Option.map_some, OpenRegion.unplaced, hr]
    · next hother =>
      split
      · next p r' hform ht =>
        rw [ht, Option.map_some, Option.map_eq_some_iff] at hregion
        obtain ⟨r, hs, -⟩ := hregion
        exact absurd hs (hother p r hform)
      · exact hnext.outsideLine m n l
  · exact h.outsideLine m n l

theorem step (h : s.SameRegions t) (m n : Nat) (p : String) (l : Line) :
    (s.step m p l).SameRegions (t.step n p l) := by
  have hclosed := h.closeKnot (m - 1) (n - 1)
  by_cases hends : l.form.endsKnot = true
  · unfold ScriptState.step
    cases hform : l.form with
    | knotHeader name => exact ⟨hclosed.regions, hclosed.region, rfl, rfl⟩
    | regionStart name =>
      have hended := hclosed.closeUnclosedRegion m (m - 1) n (n - 1)
      exact ⟨hended.regions, rfl, hended.knot, rfl⟩
    | regionEnd =>
      dsimp only
      rw [isNone_eq_of_map_eq_map hclosed.region]
      split
      · exact ⟨hclosed.regions, hclosed.region, hclosed.knot, hclosed.follow⟩
      · exact hclosed.closeRegion m n
    | _ => simp [hform, LineForm.endsKnot] at hends
  · rw [Bool.not_eq_true] at hends
    rw [step_of_not_endsKnot m p s hends, step_of_not_endsKnot n p t hends]
    -- a knot is open in both states or in neither, and then takes the line
    rcases cases_of_map_eq_map h.knot with ⟨hs, ht⟩ | ⟨k, k', hs, ht, hname⟩
    · rw [hs, ht]
      dsimp only
      split
      · exact h
      · exact h.looseLine m n l
    · rw [hs, ht]
      exact ⟨h.regions, h.region, congrArg some hname, h.follow⟩

theorem readFrom (h : s.SameRegions t) (m n : Nat) (xs : List (String × Line)) :
    (s.readFrom m xs).SameRegions (t.readFrom n xs) := by
  induction xs generalizing s t m n with
  | nil => exact h
  | cons x xs ih => exact ih (h.step m n x.1 x.2) (m + 1) (n + 1)

theorem finish (h : s.SameRegions t) (m n : Nat) : (s.finish m).SameRegions (t.finish n) :=
  (h.closeKnot m n).closeUnclosedRegion m m n n

end SameRegions

/-! ### Behind two fronts -/

/-- The same lines behind two fronts are read as the same knots and regions, but for their places. -/
theorem behind_fronts (supply supply' : Nat) (hfront : Line.isFront (Line.ofTexts front) = true)
    (hfront' : Line.isFront (Line.ofTexts front') = true)
    (hclear : behind ≠ [] → Line.opensBlock false front = false)
    (hclear' : behind ≠ [] → Line.opensBlock false front' = false)
    (hends : ∀ p ∈ behind.head?, (Line.ofText p).form.endsKnot = true) :
    List.Forall₂ Knot.Alike (ofLines supply (front ++ behind)).knots.reverse
        (ofLines supply' (front' ++ behind)).knots.reverse ∧
      (ofLines supply (front ++ behind)).regions.map Region.unplaced =
        (ofLines supply' (front' ++ behind)).regions.map Region.unplaced := by
  -- behind each front no knot and no region is open or held, so the two states begin alike
  have hopening := opening_ahead supply hfront
  have hopening' := opening_ahead supply' hfront'
  constructor
  · obtain ⟨after, after', hknots, hknots', halike⟩ := alike_knots_behind supply supply' hclear hclear' hends
      (fun _ _ => Or.inr (by rw [hopening.region, hopening'.region]))
      (fun _ _ _ _ => by rw [hopening.knots, hopening'.knots])
    rw [hknots, hknots', hopening.knots, hopening'.knots]
    exact halike
  · have hsame : (ahead supply front).SameRegions (ahead supply' front') := {
      regions := by rw [hopening.regions, hopening'.regions]
      region := by rw [hopening.region, hopening'.region]
      knot := by rw [hopening.knot, hopening'.knot]
      follow := by rw [hopening.follow, hopening'.follow] }
    rw [ofLines_append supply hclear hends, ofLines_append supply' hclear' hends]
    exact ((hsame.readFrom _ _ _).finish _ _).regions

/-- Behind the front nothing of the front changes. -/
theorem sameFront_readFrom (hover : s.inPreamble = false) (n : Nat) (xs : List (String × Line)) :
    (s.readFrom n xs).SameFront s := by
  induction xs generalizing s n with
  | nil => exact .refl s
  | cons x xs ih =>
    have hstill : (s.step n x.1 x.2).inPreamble = false := by rw [inPreamble_step, hover, Bool.false_and]
    exact (ih hstill (n + 1)).trans (sameFront_step n x.1 x.2 hover)

/-- The story starts where the first divert of the front leads. -/
theorem initialDivert_ofLines (supply : Nat) (hfront : Line.isFront (Line.ofTexts front) = true)
    (hclear : behind ≠ [] → Line.opensBlock false front = false)
    (hbegins : ∀ p ∈ behind.head?, Line.isFront [Line.ofText p] = false) :
    (ofLines supply (front ++ behind)).initialDivert = Line.firstTarget? (Line.ofTexts front) := by
  have hmarker : ∀ p ∈ behind.head?, (Line.ofText p).form.endsKnot = true := fun p hp =>
    Line.endsKnot_of_not_isFront (hbegins p hp)
  have hfinish : ∀ (n : Nat) (s : ScriptState), (s.finish n).SameFront s := fun n s =>
    (sameFront_closeUnclosedRegion n n _).trans (sameFront_closeKnot n s)
  rw [ofLines_append supply hclear hmarker, (hfinish _ _).initialDivert, ← (opening_ahead supply hfront).initialDivert]
  cases behind with
  | nil => rfl
  | cons p ps =>
    rw [Line.ofTexts, Line.readFrom_false_cons, List.zip_cons_cons, readFrom]
    have hover : ((ahead supply front).step (front.length + 1) p (Line.ofText p)).inPreamble = false := by
      have hp := hbegins p rfl
      rw [Line.isFront, List.all_cons, List.all_nil, Bool.and_true] at hp
      rw [inPreamble_step, hp, Bool.and_false]
    exact ((sameFront_readFrom hover _ _).trans
      (sameFront_step_of_endsKnot _ p _ (hmarker p rfl))).initialDivert

end ScriptState

end StoryScript
