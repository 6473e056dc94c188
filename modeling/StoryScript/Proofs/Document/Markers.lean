import StoryScript.Proofs.Document.Spans

/-!
# The markers of regions

Every marker that starts a region opens one, whether or not the region before it has been closed, and the
first line behind the marker that is not blank may give the position of the region
(`ScriptState.marked_ofLines`). The reader notes with a flag whether that line is still to come; the
invariant `ScriptState.Marked` says what the flag stands for: all lines behind the marker are blank so far.
-/

namespace StoryScript

/-- The name in the marker that starts a region. -/
def LineForm.regionName? : LineForm → Option String
  | regionStart name => some name
  | _ => none

/-- The position that lines begin with, apart from blank lines. -/
def firstPosition? (ls : List Line) : Option Position := (leadingPosition? ls).map Prod.fst

/-! ### Positions behind a marker -/

section FirstPosition

variable {ls : List Line} {l : Line}

theorem firstPosition?_cons_of_isBlank (h : l.form.isBlank = true) (ls : List Line) :
    firstPosition? (l :: ls) = firstPosition? ls := by
  have hform : l.form = .blank := by
    cases hform : l.form with
    | blank => rfl
    | _ => simp [hform, LineForm.isBlank] at h
  rw [firstPosition?, leadingPosition?, hform, firstPosition?, Option.map_map]
  rfl

/-- The first line that is not blank decides. -/
theorem firstPosition?_cons_of_not_isBlank (h : l.form.isBlank = false) (ls : List Line) :
    firstPosition? (l :: ls) = firstPosition? [l] := by
  rw [firstPosition?, firstPosition?, leadingPosition?, leadingPosition?]
  cases hform : l.form with
  | blank => simp [hform, LineForm.isBlank] at h
  | _ => rfl

theorem firstPosition?_append (ls ms : List Line) : firstPosition? (ls ++ ms) =
    if ls.all (·.form.isBlank) then firstPosition? ms else firstPosition? ls := by
  induction ls with
  | nil => rfl
  | cons l ls ih =>
    rw [List.cons_append, List.all_cons]
    cases hblank : l.form.isBlank with
    | true =>
      rw [firstPosition?_cons_of_isBlank hblank, firstPosition?_cons_of_isBlank hblank, ih]
      rfl
    | false =>
      rw [firstPosition?_cons_of_not_isBlank hblank, firstPosition?_cons_of_not_isBlank hblank ls]
      rfl

theorem firstPosition?_of_all_isBlank (h : ls.all (·.form.isBlank) = true) :
    firstPosition? ls = none := by
  have happend := firstPosition?_append ls []
  rwa [h, List.append_nil] at happend

end FirstPosition

namespace ScriptState

variable {supply : Nat} {ls : List String} {n : Nat} {s t : ScriptState}

/-- What a region that is open has been given by lines, which is all but its knots. -/
def heading (s : ScriptState) : Option (String × Nat × Option Position) :=
  s.region.map fun r => (r.name, r.line, r.position)

theorem heading_closeKnot (last : Nat) (s : ScriptState) :
    (s.closeKnot last).heading = s.heading := by
  cases hk : s.knot with
  | none => rw [closeKnot_of_none last hk]
  | some k =>
    rw [closeKnot_of_some last hk]
    change (s.region.map _).map _ = s.region.map _
    rw [Option.map_map]
    rfl

theorem positionMayFollow_closeKnot (last : Nat) (s : ScriptState) :
    (s.closeKnot last).positionMayFollow = s.positionMayFollow := by
  cases hk : s.knot with
  | none => rw [closeKnot_of_none last hk]
  | some k => rw [closeKnot_of_some last hk]

theorem region_closeRegion (last : Nat) (s : ScriptState) : (s.closeRegion last).region = none := by
  unfold closeRegion
  split
  · assumption
  · rfl

theorem region_closeUnclosedRegion (line last : Nat) (s : ScriptState) :
    (s.closeUnclosedRegion line last).region = none := by
  unfold closeUnclosedRegion
  split
  · assumption
  · exact region_closeRegion last _

/-- A state behind the first `n` lines, whose regions are those that these lines start. -/
structure Marked (ls : List String) (n : Nat) (s : ScriptState) : Prop where
  starts : s.regions.reverse.map (fun r => (r.lineStart, r.name)) ++
    (s.heading.map fun h => (h.2.1, h.1)).toList =
      Line.located LineForm.regionName? ((Line.ofTexts ls).take n)
  ended : ∀ r ∈ s.regions, r.position = firstPosition? ((Line.ofTexts ls).drop r.lineStart)
  line : ∀ h ∈ s.heading, h.2.1 ≤ n
  /-- The flag: the lines behind the marker are blank so far. -/
  flag : ∀ h ∈ s.heading,
    s.positionMayFollow = (((Line.ofTexts ls).take n).drop h.2.1).all (·.form.isBlank)
  position : ∀ h ∈ s.heading, h.2.2 = firstPosition? (((Line.ofTexts ls).take n).drop h.2.1)
  knot : ∀ k ∈ s.knot, s.positionMayFollow = false

namespace Marked

theorem start (supply : Nat) (ls : List String) : Marked ls 0 { supply } := by
  constructor <;> simp [Line.located, heading]

theorem closeKnot (h : s.Marked ls n) (last : Nat) : (s.closeKnot last).Marked ls n := by
  have hheading := heading_closeKnot last s
  have hflag := positionMayFollow_closeKnot last s
  have hregions := regions_closeKnot last s
  constructor
  · rw [hregions, hheading]
    exact h.starts
  · rw [hregions]
    exact h.ended
  · rw [hheading]
    exact h.line
  · rw [hheading, hflag]
    exact h.flag
  · rw [hheading]
    exact h.position
  · simp [knot_closeKnot]

/-- A line that is no marker. If the position of the open region is still to come, then the line decides
about it. -/
theorem line_step (h : s.Marked ls n) {l : Line} (hl : (Line.ofTexts ls)[n]? = some l)
    (hname : l.form.regionName? = none) (hregions : t.regions = s.regions)
    (hheading : t.heading = s.heading.map fun h =>
      (h.1, h.2.1, if s.positionMayFollow then firstPosition? [l] else h.2.2))
    (hflag : ∀ h ∈ t.heading, t.positionMayFollow = (s.positionMayFollow && l.form.isBlank))
    (hknot : ∀ k ∈ t.knot, t.positionMayFollow = false) : t.Marked ls (n + 1) := by
  have hlength := Line.length_take_of_getElem? hl
  -- the lines of the open region go on with this one
  have hdrop : ∀ h' ∈ s.heading, ((Line.ofTexts ls).take (n + 1)).drop h'.2.1 =
      ((Line.ofTexts ls).take n).drop h'.2.1 ++ [l] := by
    intro h' hh'
    rw [Line.take_succ_eq hl, List.drop_append_of_le_length]
    rw [hlength]
    exact h.line h' hh'
  have hmem : ∀ h' ∈ t.heading, ∃ h'' ∈ s.heading, h' =
      (h''.1, h''.2.1, if s.positionMayFollow then firstPosition? [l] else h''.2.2) := by
    intro h' hh'
    rw [hheading, Option.mem_def, Option.map_eq_some_iff] at hh'
    obtain ⟨h'', hh'', rfl⟩ := hh'
    exact ⟨h'', hh'', rfl⟩
  refine ⟨?_, by rw [hregions]; exact h.ended, fun h' hh' => ?_, fun h' hh' => ?_, fun h' hh' => ?_,
    hknot⟩
  · have hstarts := h.starts
    rw [Line.located_take_succ _ hl, hname, ← hstarts, hregions, hheading, Option.map_map]
    exact (List.append_nil _).symm
  · obtain ⟨h'', hh'', rfl⟩ := hmem h' hh'
    exact Nat.le_succ_of_le (h.line h'' hh'')
  · rw [hflag h' hh']
    obtain ⟨h'', hh'', rfl⟩ := hmem h' hh'
    rw [hdrop h'' hh'', h.flag h'' hh'']
    simp
  · obtain ⟨h'', hh'', rfl⟩ := hmem h' hh'
    rw [hdrop h'' hh'', firstPosition?_append, ← h.flag h'' hh'', ← h.position h'' hh'']

/-- A region ends, if what comes next is no position that could be its own. -/
theorem closeRegion (h : s.Marked ls n) (hn : n ≤ ls.length) (hknot : s.knot = none) (last : Nat)
    (hnext : ∀ l ∈ ((Line.ofTexts ls).drop n).head?,
      l.form.isBlank = false ∧ firstPosition? [l] = none) : (s.closeRegion last).Marked ls n := by
  cases hr : s.region with
  | none => rwa [ScriptState.closeRegion, hr]
  | some r =>
    have hheading : s.heading = some (r.name, r.line, r.position) := by rw [heading, hr]; rfl
    have hstarts := h.starts
    have hall : (Line.ofTexts ls).drop r.line =
        ((Line.ofTexts ls).take n).drop r.line ++ (Line.ofTexts ls).drop n := by
      have hlength : r.line ≤ ((Line.ofTexts ls).take n).length := by
        rw [List.length_take, Line.length_ofTexts, Nat.min_eq_left hn]
        exact h.line _ hheading
      rw [← List.drop_append_of_le_length hlength, List.take_append_drop]
    -- the search for a position ends with the first line that is not blank, which is none of them
    have hrest : firstPosition? ((Line.ofTexts ls).drop n) = none := by
      cases hdrop : (Line.ofTexts ls).drop n with
      | nil => rfl
      | cons l rest =>
        rw [hdrop] at hnext
        obtain ⟨hblank, hnone⟩ := hnext l rfl
        rw [firstPosition?_cons_of_not_isBlank hblank, hnone]
    have hposition : r.position = firstPosition? ((Line.ofTexts ls).drop r.line) := by
      have hopen : r.position = firstPosition? (((Line.ofTexts ls).take n).drop r.line) :=
        h.position _ hheading
      rw [hopen, hall, firstPosition?_append, hrest]
      split
      · next hblank => exact firstPosition?_of_all_isBlank hblank
      · rfl
    rw [ScriptState.closeRegion, hr]
    constructor
    · rw [hheading] at hstarts
      rw [← hstarts]
      simp [heading]
    · rw [List.forall_mem_cons]
      exact ⟨hposition, h.ended⟩
    · simp [heading]
    · simp [heading]
    · simp [heading]
    · simp [hknot]

theorem closeUnclosedRegion (h : s.Marked ls n) (hn : n ≤ ls.length) (hknot : s.knot = none)
    (line last : Nat) (hnext : ∀ l ∈ ((Line.ofTexts ls).drop n).head?,
      l.form.isBlank = false ∧ firstPosition? [l] = none) :
    (s.closeUnclosedRegion line last).Marked ls n := by
  unfold ScriptState.closeUnclosedRegion
  split
  · exact h
  · next r hr =>
    have hreported : (s.report line (.regionUnclosed r.name)).Marked ls n :=
      ⟨h.starts, h.ended, h.line, h.flag, h.position, h.knot⟩
    exact hreported.closeRegion hn hknot last hnext

/-- A region opens. -/
theorem openRegion (h : s.Marked ls n) (hnone : s.region = none) {l : Line} {name : String}
    (hl : (Line.ofTexts ls)[n]? = some l) (hform : l.form = .regionStart name)
    (hregions : t.regions = s.regions) (hregion : t.region = some ⟨name, n + 1, none, []⟩)
    (hflag : t.positionMayFollow = true) (hknot : t.knot = none) : t.Marked ls (n + 1) := by
  have hheading : t.heading = some (name, n + 1, none) := by rw [heading, hregion]; rfl
  have hmem : ∀ h' ∈ t.heading, h' = (name, n + 1, none) := by simp [hheading]
  have hnil : ((Line.ofTexts ls).take (n + 1)).drop (n + 1) = [] :=
    List.drop_eq_nil_of_le (List.length_take_le _ _)
  refine ⟨?_, by rw [hregions]; exact h.ended, fun h' hh' => ?_, fun h' hh' => ?_, fun h' hh' => ?_,
    by simp [hknot]⟩
  · have hstarts := h.starts
    rw [heading, hnone, Option.map_none, Option.map_none, Option.toList_none, List.append_nil]
      at hstarts
    rw [Line.located_take_succ _ hl, hform, ← hstarts, hregions, hheading]
    rfl
  · rw [hmem h' hh']
  · rw [hmem h' hh', hnil, hflag]
    rfl
  · rw [hmem h' hh', hnil]
    rfl

/-- A line that gives no position leaves the open region as it is. -/
theorem heading_map (h : s.Marked ls n) {l : Line} (hnone : firstPosition? [l] = none) :
    (s.heading.map fun h =>
      (h.1, h.2.1, if s.positionMayFollow then firstPosition? [l] else h.2.2)) = s.heading := by
  cases hheading : s.heading with
  | none => rfl
  | some h' =>
    have hflag := h.flag h' hheading
    have hposition := h.position h' hheading
    rw [Option.map_some]
    split
    · next hfollow =>
      rw [hfollow] at hflag
      rw [firstPosition?_of_all_isBlank hflag.symm] at hposition
      rw [hnone, ← hposition]
    · rfl

/-- A line behind which no region is open. -/
theorem of_region_none (h : s.Marked ls n) (hnone : s.region = none) {l : Line}
    (hl : (Line.ofTexts ls)[n]? = some l) (hname : l.form.regionName? = none)
    (hregions : t.regions = s.regions) (hregion : t.region = none) (hknot : t.knot = none) :
    t.Marked ls (n + 1) := by
  have hheading : t.heading = none := by rw [heading, hregion]; rfl
  have hheading' : s.heading = none := by rw [heading, hnone]; rfl
  refine h.line_step hl hname hregions ?_ (by simp [hheading]) (by simp [hknot])
  rw [hheading, hheading']
  rfl

theorem looseLine (h : s.Marked ls n) (hknot : s.knot = none) {l : Line}
    (hl : (Line.ofTexts ls)[n]? = some l) (hname : l.form.regionName? = none)
    (hblank : l.form.isBlank = false) (m : Nat) : (s.looseLine m l).Marked ls (n + 1) := by
  have hsame := sameChapters_looseLine m l s
  have hshut : (s.looseLine m l).knot = none := hsame.knot.trans hknot
  have houtside : ∀ s : ScriptState, (s.outsideLine m l).heading = s.heading := fun s => by
    rw [heading, heading, (sameRest_outsideLine m l s).region]
  -- the heading takes a position that comes right behind the marker, and nothing afterwards
  refine h.line_step hl hname hsame.regions ?_ (fun _ _ => ?_) (by simp [hshut])
  · have hsteps := stepsOutside m l s
    generalize s.looseLine m l = t at hsteps ⊢
    cases hsteps with
    | @placed p r hfollow hform hregion =>
      rw [hfollow, heading, heading, hregion, firstPosition?, leadingPosition?, hform]
      rfl
    | passed hfollow hother =>
      rw [hfollow, houtside]
      change s.heading = _
      cases hregion : s.region with
      | none => rw [heading, hregion]; rfl
      | some r =>
        have hnone : firstPosition? [l] = none := by
          rw [firstPosition?, leadingPosition?]
          cases hform : l.form with
          | position p => exact (hother p r hform hregion).elim
          | _ => rfl
        have hmap := h.heading_map hnone
        rw [hfollow] at hmap
        exact hmap.symm
    | outside hfollow =>
      rw [hfollow, houtside]
      exact Option.map_id'.symm
  · rw [hblank, Bool.and_false]
    have hsteps := stepsOutside m l s
    generalize s.looseLine m l = t at hsteps ⊢
    cases hsteps with
    | placed _ _ _ => rfl
    | passed _ _ => exact (sameRest_outsideLine m l _).positionMayFollow
    | outside hfollow => exact (sameRest_outsideLine m l s).positionMayFollow.trans hfollow

theorem step (h : s.Marked ls n) {p : String} {l : Line} (hl : (Line.ofTexts ls)[n]? = some l) :
    (s.step (n + 1) p l).Marked ls (n + 1) := by
  have hclosed := h.closeKnot n
  have hshut := knot_closeKnot n s
  have hn : n ≤ ls.length := by
    have hlt := (List.getElem?_eq_some_iff.mp hl).1
    rw [Line.length_ofTexts] at hlt
    exact Nat.le_of_lt hlt
  have hhead : ((Line.ofTexts ls).drop n).head? = some l := by rw [List.head?_drop, hl]
  -- what ends a knot is neither blank nor a position
  have hnext : l.form.endsKnot = true → ∀ l ∈ ((Line.ofTexts ls).drop n).head?,
      l.form.isBlank = false ∧ firstPosition? [l] = none := by
    intro hends l' hl'
    obtain rfl : l = l' := by simpa [hhead] using hl'
    rw [firstPosition?, leadingPosition?]
    cases hform : l.form with
    | knotHeader name => exact ⟨rfl, rfl⟩
    | regionStart name => exact ⟨rfl, rfl⟩
    | regionEnd => exact ⟨rfl, rfl⟩
    | _ => simp [hform, LineForm.endsKnot] at hends
  have hinside : l.form.endsKnot = false → l.form.regionName? = none := by
    intro hends
    cases hform : l.form with
    | regionStart name => simp [hform, LineForm.endsKnot] at hends
    | _ => rfl
  have hsteps := steps (n + 1) p l s
  generalize s.step (n + 1) p l = t at hsteps ⊢
  cases hsteps with
  | header hform =>
    obtain ⟨hblank, hnone⟩ := hnext (by rw [hform]; rfl) l hhead
    refine hclosed.line_step hl (by rw [hform]; rfl) rfl ?_ ?_ ?_
    · exact (hclosed.heading_map hnone).symm
    · intro _ _
      rw [hblank, Bool.and_false]
    · exact fun _ _ => rfl
  | regionStart hform =>
    exact (hclosed.closeUnclosedRegion hn hshut (n + 1) n (hnext (by rw [hform]; rfl))).openRegion
      (region_closeUnclosedRegion _ _ _) hl hform rfl rfl rfl
      ((sameKnots_closeUnclosedRegion _ _ _).2.1.trans hshut)
  | strayEnd hform hnone =>
    exact hclosed.of_region_none hnone hl (by rw [hform]; rfl) rfl hnone hshut
  | regionEnd hform _ =>
    have hended := hclosed.closeRegion hn hshut (n + 1) (hnext (by rw [hform]; rfl))
    exact hended.of_region_none (region_closeRegion _ _) hl (by rw [hform]; rfl) rfl
      (region_closeRegion _ _) ((sameKnots_closeRegion _ _).2.1.trans hshut)
  | body hends hk =>
    -- within a knot no position of a region follows any more
    have hflag := h.knot _ hk
    refine h.line_step hl (hinside hends) rfl ?_ (fun _ _ => ?_) fun _ _ => hflag
    · rw [hflag]
      exact Option.map_id'.symm
    · change s.positionMayFollow = _
      rw [hflag, Bool.false_and]
  | blank hblank _ =>
    have hnone : firstPosition? [l] = none := firstPosition?_cons_of_isBlank hblank []
    refine h.line_step hl (hinside (LineForm.endsKnot_of_isBlank hblank)) rfl
      (h.heading_map hnone).symm (fun _ _ => ?_) h.knot
    rw [hblank, Bool.and_true]
  | loose hends hblank hk => exact h.looseLine hk hl (hinside hends) hblank (n + 1)

end Marked

/-- The regions of lines: one for each marker, with the position that stands behind it. -/
theorem marked_ofLines (supply : Nat) (ls : List String) :
    (ofLines supply ls).regions.reverse.map (fun r => (r.lineStart, r.name)) =
        Line.located LineForm.regionName? (Line.ofTexts ls) ∧
      ∀ r ∈ (ofLines supply ls).regions,
        r.position = firstPosition? ((Line.ofTexts ls).drop r.lineStart) := by
  have hread : (behindFirst supply ls ls.length).Marked ls ls.length :=
    behindFirst_induction (.start supply ls) fun n p l s _ hl h => h.step hl
  have hnext : ∀ l ∈ ((Line.ofTexts ls).drop ls.length).head?,
      l.form.isBlank = false ∧ firstPosition? [l] = none := by
    rw [List.drop_eq_nil_of_le (by rw [Line.length_ofTexts])]
    simp
  have hended := (hread.closeKnot ls.length).closeUnclosedRegion (Nat.le_refl _) (knot_closeKnot _ _)
    ls.length ls.length hnext
  have hstarts := hended.starts
  rw [heading, region_closeUnclosedRegion, Option.map_none, Option.map_none, Option.toList_none,
    List.append_nil, List.take_of_length_le (by rw [Line.length_ofTexts])] at hstarts
  rw [ofLines_eq_finish]
  exact ⟨hstarts, hended.ended⟩

end ScriptState

end StoryScript
