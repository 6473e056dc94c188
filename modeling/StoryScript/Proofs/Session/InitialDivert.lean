import StoryScript.Proofs.Document.Opening
import StoryScript.Proofs.Session.Front
import StoryScript.Proofs.Session.Placement

/-!
# The divert that starts the story

The edit of the initial divert looks for the line to change by itself: the first line in front of all knots and
regions that looks like a divert (`Session.divertedFront`). It does not ask whether that line stands in a comment,
as the reader does. Whatever line it is, the knots and the regions behind are read as before
(`Session.initialDivert_setInitialDivert`): a divert opens no comment and closes none.

The divert itself is set just in the cases of `Document.Admits`: the line that is found stands in no comment, and
when a divert is removed no other one comes behind it; or no line is found, and the new one comes behind all
comments.
-/

namespace StoryScript

open Text

/-! ### The first divert -/

namespace Line

theorem firstTarget?_append (ls ms : List Line) :
    firstTarget? (ls ++ ms) = (firstTarget? ls).or (firstTarget? ms) := List.findSome?_append

/-- A line that looks like a divert is one, unless it stands in a comment. -/
theorem firstTarget?_singleton {s t : String} (hform : (ofText s).form = .divert t) (inBlock : Bool) :
    firstTarget? (readFrom inBlock [s]) = if inBlock then none else some t := by
  cases inBlock with
  | true =>
    rw [readFrom_true_cons]
    rfl
  | false =>
    rw [readFrom_false_cons, firstTarget?, List.findSome?_cons, hform]
    rfl

/-- Among lines that do not look like diverts there is none. -/
theorem firstTarget?_eq_none (inBlock : Bool) {ls : List String}
    (h : ∀ s ∈ ls, Session.isDivertLine s = false) : firstTarget? (readFrom inBlock ls) = none := by
  induction ls generalizing inBlock with
  | nil => rfl
  | cons s ls ih =>
    rw [List.forall_mem_cons] at h
    have hs : (lineIn inBlock s).form.target? = none := by
      cases inBlock with
      | true => rfl
      | false =>
        have hline := h.1
        unfold Session.isDivertLine at hline
        split at hline
        · simp at hline
        · next hdivert =>
          change (ofText s).form.target? = none
          cases hform : (ofText s).form with
          | divert target => exact absurd hform (hdivert target)
          | _ => rfl
    rw [readFrom_cons, firstTarget?, List.findSome?_cons, hs]
    exact ih _ h.2

theorem firstTarget?_eq_none_iff {ls : List Line} :
    firstTarget? ls = none ↔ ∀ l ∈ ls, ∀ t, l.form ≠ .divert t := by
  rw [firstTarget?, List.findSome?_eq_none_iff]
  refine forall₂_congr fun l _ => ?_
  cases l.form <;> simp [LineForm.target?]

end Line

namespace Session

variable {front before : List String} {target : Option String}

theorem form_renderDivert {t : String} (ht : IsTarget t.toList) :
    (Line.ofText (renderDivert t)).form = .divert t := by
  have hform := Line.form_renderDivert ht
  rwa [String.ofList_toList] at hform

theorem slips_of_target {t : String} (ht : IsTarget t.toList) : Slips (renderDivert t) := by
  refine slips_of_isDivertLine (by simp [renderDivert, ht.newline_not_mem]) ?_
  rw [isDivertLine, form_renderDivert ht]

/-- Behind lines that do not look like diverts the first divert is that of the rest. -/
theorem firstTarget?_append (hbefore : ∀ s ∈ before, isDivertLine s = false) (rest : List String) :
    Line.firstTarget? (Line.ofTexts (before ++ rest)) =
      Line.firstTarget? (Line.readFrom (Line.opensBlock false before) rest) := by
  rw [Line.ofTexts, Line.readFrom_append, Line.firstTarget?_append, Line.firstTarget?_eq_none false hbefore,
    Option.none_or]

/-- The first line that looks like a divert is the first divert, unless it stands in a comment. -/
theorem firstTarget?_cut {s t : String} (hbefore : ∀ s ∈ before, isDivertLine s = false) (hs : Line.Inert s)
    (hform : (Line.ofText s).form = .divert t) (rest : List String) :
    Line.firstTarget? (Line.ofTexts (before ++ s :: rest)) =
      if Line.opensBlock false before then Line.firstTarget? (Line.readFrom true rest) else some t := by
  rw [firstTarget?_append hbefore, hs.readFrom_cons, Line.firstTarget?_append, Line.firstTarget?_singleton hform]
  cases Line.opensBlock false before <;> rfl

/-- The divert that is asked for is the first of the front, if the line that was changed or added stands in no
comment and, when a divert was taken out, none is left behind it. In a comment the edit changes nothing. -/
theorem firstTarget?_divertedFront_iff (hline : ∀ l ∈ front, '\n' ∉ l.toList)
    (htarget : ∀ t ∈ target, IsTarget t.toList) :
    Line.firstTarget? (Line.ofTexts (divertedFront front target)) = target ↔
      match front.findIdx? isDivertLine with
      | none => target = none ∨ Line.opensBlock false front = false
      | some i =>
        if Line.opensBlock false (front.take i) then Line.firstTarget? (Line.ofTexts front) = target
        else target = none → ∀ l ∈ (Line.ofTexts front).drop (i + 1), ∀ t, l.form ≠ .divert t := by
  cases hfound : front.findIdx? isDivertLine with
  | none =>
    rw [divertedFront_of_none hfound]
    -- no divert stands in the front: the new one is read unless a comment is open there
    have hnone := List.findIdx?_eq_none_iff.mp hfound
    cases target with
    | none =>
      have hfirst : Line.firstTarget? (Line.ofTexts front) = none := Line.firstTarget?_eq_none false hnone
      simp [hfirst]
    | some t =>
      have ht := htarget t rfl
      rw [Option.elim_some, firstTarget?_cut hnone (slips_of_target ht).toInert (form_renderDivert ht)]
      cases hopens : Line.opensBlock false front
      · simp
      · have hempty : Line.firstTarget? (Line.readFrom true [""]) = none :=
          Line.firstTarget?_eq_none true (List.forall_mem_singleton.mpr (by decide))
        simp [hempty]
  | some i =>
    -- whatever comes in the place of the line stands in a comment just if the line did
    obtain ⟨before, old, rest, rfl, rfl, hold, hbefore⟩ := exists_cut hfound
    obtain ⟨told, hform⟩ := form_of_isDivertLine hold
    have hinert := inert_of_isDivertLine (hline old (by simp)) hold
    have hdrop : (Line.ofTexts (before ++ old :: rest)).drop (before.length + 1) =
        Line.readFrom (Line.opensBlock false before) rest := by
      rw [Line.ofTexts, Line.readFrom_append, hinert.readFrom_cons, ← List.append_assoc]
      exact List.drop_left' (by simp [Line.length_readFrom])
    have hfirst := firstTarget?_cut hbefore hinert hform rest
    have hafter := firstTarget?_append hbefore rest
    dsimp only
    rw [divertedFront_of_cut hold hbefore, List.take_left, hdrop, hfirst]
    cases target with
    | none =>
      rw [Option.map_none, Option.toList_none, List.append_nil, hafter, Line.firstTarget?_eq_none_iff]
      cases Line.opensBlock false before <;> simp [Line.firstTarget?_eq_none_iff]
    | some t =>
      have ht := htarget t rfl
      rw [Option.map_some, Option.toList_some, List.append_assoc, List.singleton_append,
        firstTarget?_cut hbefore (slips_of_target ht).toInert (form_renderDivert ht)]
      cases Line.opensBlock false before <;> simp

end Session

/-- When the edit sets the divert that is asked for. The first line in front of all knots and regions that looks
like a divert is changed or taken out; if it stands in a comment, the divert stays what it was. If no line does, a
new one comes behind all of them. -/
def Document.Admits (d : Document) (target : Option String) : Prop :=
  let front := d.lines.take (Session.frontLength d)
  match front.findIdx? Session.isDivertLine with
  | none => target = none ∨ Line.opensBlock false front = false
  | some i =>
    if Line.opensBlock false (front.take i) then d.initialDivert = target
    else target = none → ∀ l ∈ (Line.ofTexts front).drop (i + 1), ∀ t, l.form ≠ .divert t

namespace Session

variable {s : Session} {target : Option String}

/-- Setting the initial divert to a target, or removing it, leaves all knots as they are, with their items and the
identities in them, and all regions but for the lines they stand on. The divert is the one that was asked for
just in the cases of `Document.Admits`. -/
theorem initialDivert_setInitialDivert (hs : s.Reachable) (htarget : ∀ t ∈ target, IsTarget t.toList) :
    List.Forall₂ Document.Recovers (s.setInitialDivert target).document.knots s.document.knots ∧
      (s.setInitialDivert target).document.regions.map Region.unplaced =
        s.document.regions.map Region.unplaced ∧
      ((s.setInitialDivert target).document.initialDivert = target ↔ s.document.Admits target) := by
  have hreading := hs.reads.document
  obtain ⟨front, behind, hlines, hlength, hfront, hclear, hbegins⟩ := hreading.exists_front
  have hline := hreading.line
  rw [hlines, List.forall_mem_append] at hline
  obtain ⟨hlineFront, hlineBehind⟩ := hline
  have hslips : ∀ t ∈ target, Slips (renderDivert t) := fun t ht => slips_of_target (htarget t ht)
  -- what stands behind the front is read as it was
  have hfront' := isFront_divertedFront hlineFront hslips hfront
  have hclear' : behind ≠ [] → Line.opensBlock false (divertedFront front target) = false := fun hne =>
    (opensBlock_divertedFront hlineFront hslips).trans (hclear hne)
  have hbehind := fun supply => ScriptState.behind_fronts s.supply supply hfront' hfront hclear' hclear
    fun p hp => Line.endsKnot_of_not_isFront (hbegins p hp)
  have hlineNew := List.forall_mem_append.mpr ⟨newline_not_mem_divertedFront hlineFront hslips, hlineBehind⟩
  have hknots := Document.alike_knots_read s.supply hlineNew
  have hregions := Document.regions_read s.supply hlineNew
  have hdivert := Document.initialDivert_read s.supply hlineNew
  have hdocument : (s.setInitialDivert target).document =
      (Document.read s.supply (unlines (divertedFront front target ++ behind))).1.carry s.document none := by
    rw [setInitialDivert_eq, initialDivertLines_eq hlines hlength]
    rfl
  rw [hdocument]
  generalize (Document.read s.supply (unlines (divertedFront front target ++ behind))).1 = new at *
  refine ⟨Document.forall₂_recovers hreading.sameList_self ?_, ?_, ?_⟩
  · have hold := hreading.alike_knots s.supply
    rw [hlines] at hold
    exact Knot.forall₂_alike_trans hknots (Knot.forall₂_alike_trans (hbehind s.supply).1 hold)
  · obtain ⟨supply, hold⟩ := hreading.regions
    change new.regions.map Region.unplaced = _
    rw [hregions, hold, hlines, List.map_reverse, List.map_reverse, (hbehind supply).2]
  · obtain ⟨supply, hold⟩ := hreading.initialDivert
    rw [hlines, ScriptState.initialDivert_ofLines supply hfront hclear hbegins] at hold
    rw [ScriptState.initialDivert_ofLines s.supply hfront' hclear' hbegins] at hdivert
    have htake : s.document.lines.take (frontLength s.document) = front := by
      rw [hlines, ← hlength, List.take_left]
    change new.initialDivert = target ↔ _
    unfold Document.Admits
    rw [htake, hold, hdivert]
    exact firstTarget?_divertedFront_iff hlineFront htarget

/-- The divert behind a comment gives way to another, in front of a region with two knots of one name. -/
theorem initialDivert_setInitialDivert_lane :
    let s := start 0 ("// -> nowhere\n-> b\n// <# StartRegion: lane #>\n=== a ===\nhi\n=== a ===\nhi\n" ++
      "// <# EndRegion #>\n") none 4 200
    let t := s.setInitialDivert (some "a.c")
    s.document.initialDivert = some "b" ∧ s.document.Admits (some "a.c") ∧
      List.Forall₂ Document.Recovers t.document.knots s.document.knots ∧
      t.document.regions.map Region.unplaced = s.document.regions.map Region.unplaced ∧
      (t.document.initialDivert = some "a.c" ↔ s.document.Admits (some "a.c")) := by
  intro s t
  have htarget : ∀ t ∈ some "a.c", IsTarget t.toList := by
    intro t ht
    obtain rfl := Option.some.inj ht
    exact Or.inr ⟨['a'], ['c'], ⟨by decide, List.forall_mem_singleton.mpr (by decide)⟩,
      ⟨by decide, List.forall_mem_singleton.mpr (by decide)⟩, rfl⟩
  have hspec := initialDivert_setInitialDivert (s := s) (reachable_start ..) htarget
  have hnew : t.document.initialDivert = some "a.c" := by decide +kernel
  exact ⟨by decide +kernel, hspec.2.2.mp hnew, hspec⟩

/-- A line in a comment that looks like a divert is changed instead of the initial divert. -/
theorem not_initialDivert_of_comment :
    let s := start 0 "/*\n-> x\n*/\n=== a ===\nhi\n" none 4 200
    s.Reachable ∧ IsTarget "a".toList ∧ (s.setInitialDivert (some "a")).document.initialDivert ≠ some "a" := by
  intro s
  exact ⟨reachable_start .., Or.inl ⟨by decide, List.forall_mem_singleton.mpr (by decide)⟩, by decide +kernel⟩

end Session

end StoryScript
