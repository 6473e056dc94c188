import StoryScript.Proofs.Body.Restored
import StoryScript.Proofs.Document.Chapters
import StoryScript.Proofs.Document.Trailing

/-!
# Reading the chapters that were written

The lines that are written for chapters are read as those chapters again (`ScriptState.Reads.chapters`),
provided that each line is read back by itself (`Chapter.Returns`). Two chapters are the same here if
they are written alike and structurally equal (`Chapter.Reprints`); the numbers of their lines, their
identities and the spelling of their headers may differ.

Lines are read behind lines in front that leave no comment open, and each paragraph is followed by an
empty line, which closes nothing and belongs to no item.
-/

namespace StoryScript

open Text

/-! ### Positions -/

/-- The line that is written for a position is read as a position that is written in the same way. The two
may differ, since coordinates are written with one decimal. -/
def Position.ReturnsAs (line : String) (form : Position → LineForm) (p : Position) : Prop :=
  ∃ q, (Line.ofText line).form = form q ∧ q.render = p.render

/-- The line of a position is told by how the position is written. -/
theorem Position.map_eq_of_map_render {p q : Option Position}
    (h : p.map Position.render = q.map Position.render) (line : String → String) :
    p.map (fun x => line x.render) = q.map fun x => line x.render := by
  have hline : ∀ p : Option Position,
      p.map (fun x => line x.render) = (p.map Position.render).map line := by
    intro p
    rw [Option.map_map]
    rfl
  rw [hline p, hline q, h]

/-! ### Knots -/

/-- Every line that is printed for a knot is read back, none of them ends the knot, and no comment is
left open. -/
structure Knot.Restored (k : Knot) : Prop where
  position : ∀ p ∈ k.position, (Line.ofText p.comment).form = .position p
  lines : Item.Restored k.items
  inside : ∀ l ∈ Line.ofTexts (Item.printed k.items), l.form.endsKnot = false
  closed : Line.opensBlock false (Item.printed k.items) = false

/-- A knot with the same content as another, by structure and in writing. -/
structure Knot.Reprints (k l : Knot) : Prop where
  name : k.name = l.name
  region : k.region = l.region
  position : k.position = l.position
  items : Item.sameList k.items l.items = true
  lines : ∀ indent, Item.renderList indent k.items = Item.renderList indent l.items

theorem Knot.Reprints.renderLines {k l : Knot} (h : k.Reprints l) (indent : Nat) :
    k.renderLines indent = l.renderLines indent := by
  rw [Knot.renderLines, Knot.renderLines, renderSection, renderSection, h.name, h.position, h.lines]

/-- A knot that was read from the lines of a script, and whose own lines are read back. -/
structure Knot.Returns (ls : List String) (k : Knot) : Prop where
  from_lines : k.FromLines ls
  name : IsName k.name.toList
  restored : k.Restored

/-- The lines of a knot behind its header, and the empty line behind them. -/
def Knot.bodyLines (indent : Nat) (k : Knot) : List String :=
  (k.position.map Position.comment).toList ++ Item.renderList indent k.items ++ [""]

theorem Knot.renderLines_append (indent : Nat) (k : Knot) :
    k.renderLines indent ++ [""] = renderKnotHeader k.name :: k.bodyLines indent := by
  rw [Knot.renderLines, renderSection, Knot.bodyLines, List.cons_append, List.cons_append]

/-- The last line of a knot that is written behind others. -/
theorem Knot.length_renderLines_append (indent : Nat) (k : Knot) (front : List String) :
    front.length + 1 + (k.bodyLines indent).length + 1 =
      (front ++ (k.renderLines indent ++ [""])).length + 1 := by
  rw [k.renderLines_append, List.length_append, List.length_cons]
  omega

namespace Item

theorem opensBlock_renderList (indent : Nat) (is : List Item) :
    Line.opensBlock false (renderList indent is) = Line.opensBlock false (printed is) := by
  refine Line.opensBlock_congr ?_ false
  rw [renderList, strip_renderIn, printed, List.map_map]
  rfl

end Item

namespace Knot.Restored

variable {k : Knot}

/-- The lines of the body, without the empty line behind them, leave no comment open. -/
theorem opensBlock_position_append (h : k.Restored) (indent : Nat) :
    Line.opensBlock false ((k.position.map Position.comment).toList ++
      Item.renderList indent k.items) = false := by
  rw [Line.opensBlock_append_of_silent (Line.silent_position _), Item.opensBlock_renderList, h.closed]

theorem opensBlock_bodyLines (h : k.Restored) (indent : Nat) :
    Line.opensBlock false (k.bodyLines indent) = false := by
  rw [Knot.bodyLines, Line.opensBlock_append, h.opensBlock_position_append indent]
  rfl

/-- The lines of a knot stand by themselves. -/
theorem aroundKnot (h : k.Restored) (hname : IsName k.name.toList) (indent : Nat)
    {front : List String} (hclear : Line.opensBlock false front = false) :
    Line.AroundKnot k.name front (renderKnotHeader k.name) (k.bodyLines indent) [] := by
  refine ⟨hclear, Line.form_renderKnotHeader hname, ?_, fun hne => absurd rfl hne, by simp⟩
  have hblank : ∀ l ∈ Line.ofTexts [""], l.form.endsKnot = false := by decide
  intro l hl
  change l ∈ Line.ofTexts (k.bodyLines indent) at hl
  rw [Knot.bodyLines, Line.ofTexts_append (h.opensBlock_position_append indent)] at hl
  rcases List.mem_append.mp hl with hl | hl
  · refine (Line.inside_append_of_silent (Line.silent_position _)).mpr ?_ l hl
    rw [Body.ofTexts_renderList]
    exact h.inside
  · exact hblank l hl

end Knot.Restored

namespace ScriptState

variable {supply : Nat} {front : List String}

/-- The knot that is read from the lines of a knot is that knot again. -/
theorem reprints_standing {k : Knot} {ls : List String} (hls : ∀ s ∈ ls, '\n' ∉ s.toList)
    (hk : k.Returns ls) (indent : Nat)
    (hregion : (ahead supply front).region.map OpenRegion.name = k.region) :
    (standing supply front k.name (renderKnotHeader k.name) (k.bodyLines indent)).Reprints k := by
  obtain ⟨supply', body, hbody, hitems, hposition⟩ := hk.from_lines
  have htexts : ∀ s ∈ body, '\n' ∉ s.toList := fun s hs => hls s (hbody s hs)
  have hrestored := hk.restored
  have hread := Body.read_printed indent (ahead supply front).supply htexts
    (by rw [← hposition]; exact hrestored.position) (by rw [← hitems]; exact hrestored.lines)
  dsimp only at hread
  rw [← hitems, ← hposition] at hread
  -- the blank line behind the knot belongs to its body, but nothing is read from it
  have hempty : ∀ s ∈ [""], (Line.ofText s).form.isBlank = true := by decide
  have hblank := Body.read_append_blank (ahead supply front).supply
    (hrestored.opensBlock_position_append indent) hempty
  have hstanding : (standing supply front k.name (renderKnotHeader k.name)
      (k.bodyLines indent)).items =
        (Body.read (ahead supply front).supply (k.bodyLines indent)).1.items := by
    change (Body.read (ahead supply front).supply (k.bodyLines indent).reverse.reverse).1.items = _
    rw [List.reverse_reverse]
  have hplace : (standing supply front k.name (renderKnotHeader k.name)
      (k.bodyLines indent)).position =
        (Body.read (ahead supply front).supply (k.bodyLines indent)).1.position := by
    change (Body.read (ahead supply front).supply (k.bodyLines indent).reverse.reverse).1.position = _
    rw [List.reverse_reverse]
  have houtline : Item.outlineIn 0 (Body.read supply' body).1.items = Item.outlineIn 0
      (Body.read (ahead supply front).supply (k.bodyLines indent)).1.items := by
    rw [← hitems, Knot.bodyLines, hblank.1, hread.2]
  obtain ⟨hsame, hlines⟩ := Body.same_of_outlineIn htexts houtline
  refine ⟨rfl, hregion, ?_, ?_, fun indent' => ?_⟩
  · rw [hplace, Knot.bodyLines, hblank.2, hread.1]
  · rw [hstanding, hitems]
    exact Item.sameList_symm hsame
  · rw [hstanding, hitems]
    exact (hlines indent').symm

/-! ### What stands in front of the chapters -/

/-- States that hold the same of what stands in front of the first chapter. -/
structure SameFront (s t : ScriptState) : Prop where
  externals : s.externals = t.externals
  inclusions : s.inclusions = t.inclusions
  initialDivert : s.initialDivert = t.initialDivert
  startPosition : s.startPosition = t.startPosition
  endPosition : s.endPosition = t.endPosition
  preamble : s.preamble = t.preamble

theorem SameFront.refl (s : ScriptState) : s.SameFront s := ⟨rfl, rfl, rfl, rfl, rfl, rfl⟩

theorem SameFront.trans {s t u : ScriptState} (h : s.SameFront t) (h' : t.SameFront u) :
    s.SameFront u :=
  ⟨h.externals.trans h'.externals, h.inclusions.trans h'.inclusions,
    h.initialDivert.trans h'.initialDivert, h.startPosition.trans h'.startPosition,
    h.endPosition.trans h'.endPosition, h.preamble.trans h'.preamble⟩

theorem sameFront_closeKnot (last : Nat) (s : ScriptState) : (s.closeKnot last).SameFront s := by
  cases hk : s.knot with
  | none =>
    rw [closeKnot_of_none last hk]
    exact SameFront.refl s
  | some k =>
    rw [closeKnot_of_some last hk]
    exact ⟨rfl, rfl, rfl, rfl, rfl, rfl⟩

/-! ### Paragraphs -/

/-- What has been read when the lines in front leave no comment open: chapters, and the knots of the
region that is open, if one is. -/
structure Reads (supply : Nat) (front : List String) (cs : List Chapter) (ks : List Knot) : Prop where
  clear : Line.opensBlock false front = false
  composed : (ahead supply front).ComposedOf (front.length + 1) cs ks

variable {cs : List Chapter} {ks : List Knot}

/-- Behind the lines of a knot, that knot is closed. -/
theorem Reads.ahead_renderLines (h : Reads supply front cs ks) {k : Knot} {ls : List String}
    (hk : k.Returns ls) (indent : Nat) :
    let lines := k.renderLines indent ++ [""]
    let s := within supply front k.name (renderKnotHeader k.name) (k.bodyLines indent)
    Line.opensBlock false (front ++ lines) = false ∧
      s.ComposedOf ((front ++ lines).length + 1) cs ks ∧
      ahead supply (front ++ lines) =
        s.closeKnot (front.length + 1 + (k.bodyLines indent).length) := by
  have haround := hk.restored.aroundKnot hk.name indent h.clear
  have hopened : (within supply front k.name (renderKnotHeader k.name)
      (k.bodyLines indent)).ComposedOf (front.length + 1 + 1) cs ks :=
    h.composed.openKnot rfl rfl rfl rfl rfl
  dsimp only
  rw [k.renderLines_append indent]
  refine ⟨?_, hopened.mono (by simp), ahead_around supply haround⟩
  rw [Line.opensBlock_append, h.clear, Line.opensBlock_false_cons, haround.opens]
  exact hk.restored.opensBlock_bodyLines indent

/-- A knot outside regions. -/
theorem Reads.knot (h : Reads supply front cs []) (hregion : (ahead supply front).region = none)
    {k : Knot} {ls : List String} (hls : ∀ s ∈ ls, '\n' ∉ s.toList) (hk : k.Returns ls)
    (hnone : k.region = none) (indent : Nat) :
    let lines := k.renderLines indent ++ [""]
    ∃ k' : Knot, k'.Reprints k ∧ Reads supply (front ++ lines) (cs ++ [.knot k']) [] ∧
      (ahead supply (front ++ lines)).region = none ∧
      (ahead supply (front ++ lines)).SameFront (ahead supply front) := by
  obtain ⟨hclear, hwithin, hahead⟩ := h.ahead_renderLines hk indent
  refine ⟨_, reprints_standing hls hk indent (by rw [hregion, hnone]; rfl), ⟨hclear, ?_⟩, ?_, ?_⟩
  · rw [hahead]
    exact hwithin.closeKnot_outside rfl hregion (k.length_renderLines_append indent _)
  · rw [hahead, closeKnot_of_some _ rfl]
    change (ahead supply front).region.map _ = none
    rw [hregion]
    rfl
  · rw [hahead]
    exact (sameFront_closeKnot _ _).trans ⟨rfl, rfl, rfl, rfl, rfl, rfl⟩

/-- A knot in the region that is open. -/
theorem Reads.knotInside (h : Reads supply front cs ks) {r : OpenRegion}
    (hregion : (ahead supply front).region = some r) {k : Knot} {ls : List String}
    (hls : ∀ s ∈ ls, '\n' ∉ s.toList) (hk : k.Returns ls) (hname : k.region = some r.name)
    (indent : Nat) :
    let lines := k.renderLines indent ++ [""]
    ∃ k' : Knot, k'.Reprints k ∧ Reads supply (front ++ lines) cs (ks ++ [k']) ∧
      (ahead supply (front ++ lines)).region = some { r with knots := k.name :: r.knots } ∧
      (ahead supply (front ++ lines)).SameFront (ahead supply front) := by
  obtain ⟨hclear, hwithin, hahead⟩ := h.ahead_renderLines hk indent
  refine ⟨_, reprints_standing hls hk indent (by rw [hregion, hname]; rfl), ⟨hclear, ?_⟩, ?_, ?_⟩
  · rw [hahead]
    exact hwithin.closeKnot_inside rfl hregion (k.length_renderLines_append indent _)
  · rw [hahead, closeKnot_of_some _ rfl]
    change (ahead supply front).region.map _ = _
    rw [hregion]
    rfl
  · rw [hahead]
    exact (sameFront_closeKnot _ _).trans ⟨rfl, rfl, rfl, rfl, rfl, rfl⟩

/-- The knots of the region that is open. -/
theorem Reads.knotsInside (h : Reads supply front cs ks) {r : OpenRegion}
    (hregion : (ahead supply front).region = some r) {ls : List String}
    (hls : ∀ s ∈ ls, '\n' ∉ s.toList) {new : List Knot}
    (hnew : ∀ k ∈ new, k.Returns ls ∧ k.region = some r.name) (indent : Nat) :
    let lines := new.flatMap fun k => k.renderLines indent ++ [""]
    ∃ new' : List Knot, List.Forall₂ Knot.Reprints new' new ∧
      Reads supply (front ++ lines) cs (ks ++ new') ∧
      (∃ r', (ahead supply (front ++ lines)).region = some r' ∧ r'.name = r.name ∧
        r'.position = r.position) ∧
      (ahead supply (front ++ lines)).SameFront (ahead supply front) := by
  induction new generalizing front ks r with
  | nil =>
    dsimp only
    rw [List.flatMap_nil, List.append_nil]
    exact ⟨[], .nil, by rwa [List.append_nil], ⟨r, hregion, rfl, rfl⟩, .refl _⟩
  | cons k new ih =>
    rw [List.forall_mem_cons] at hnew
    obtain ⟨k', hk', hreads, hregion', hfront⟩ :=
      h.knotInside hregion hls hnew.1.1 hnew.1.2 indent
    obtain ⟨new', hnew', hreads', ⟨r', hr', hname, hposition⟩, hfront'⟩ := ih hreads hregion' hnew.2
    dsimp only
    rw [List.flatMap_cons, ← List.append_assoc]
    refine ⟨k' :: new', .cons hk' hnew', ?_, ⟨r', hr', hname, hposition⟩, hfront'.trans hfront⟩
    rw [← List.append_cons ks k' new'] at hreads'
    exact hreads'

/-! ### Regions -/

/-- The lines that open a region: the marker, the position if there is one, and an empty line. -/
def regionLines (name : String) (position : Option Position) : List String :=
  renderRegionStart name :: (position.map Position.comment).toList ++ [""]

/-- A line that opens no comment is read by itself, and the others behind it. -/
theorem readFrom_cons_of_ne (s : ScriptState) (n : Nat) {p : String}
    (h : (Line.ofText p).form ≠ .blockComment true) (ls : List String) :
    s.readFrom n ((p :: ls).zip (Line.ofTexts (p :: ls))) =
      (s.step n p (Line.ofText p)).readFrom (n + 1) (ls.zip (Line.ofTexts ls)) := by
  have hlines : Line.ofTexts (p :: ls) = Line.ofText p :: Line.ofTexts ls := by
    rw [Line.ofTexts, Line.readFrom_false_cons, decide_eq_false h, Line.ofTexts]
  rw [hlines, List.zip_cons_cons, readFrom]

/-- An empty line outside knots changes nothing. -/
theorem step_empty {s : ScriptState} (hknot : s.knot = none) (n : Nat) :
    s.step n "" (Line.ofText "") = s := by
  rw [step_of_not_endsKnot n "" s (by decide), hknot]
  exact if_pos (by decide)

/-- An empty line behind others that leave no knot open changes nothing. -/
theorem readFrom_empty {s : ScriptState} (hknot : s.knot = none) (n : Nat) :
    s.readFrom n ([""].zip (Line.ofTexts [""])) = s :=
  step_empty hknot n

theorem step_regionStart {s : ScriptState} (hknot : s.knot = none) (hregion : s.region = none)
    (n : Nat) {p name : String} (h : (Line.ofText p).form = .regionStart name) :
    s.step n p (Line.ofText p) = { s with
      inPreamble := false
      positionMayFollow := true
      region := some ⟨name, n, none, []⟩ } := by
  rw [step, h]
  dsimp only
  rw [closeKnot_of_none _ hknot, closeUnclosedRegion, hregion]

/-- The position of a region stands directly behind its marker. -/
theorem step_position {s : ScriptState} {text : String} {p : Position}
    (h : (Line.ofText text).form = .position p) (n : Nat) (hknot : s.knot = none) {r : OpenRegion}
    (hregion : s.region = some r) (hfollow : s.positionMayFollow = true) :
    s.step n text (Line.ofText text) = { s with
      positionMayFollow := false
      region := some { r with position := some p } } := by
  rw [step_of_not_endsKnot n text s (by rw [h]; rfl), hknot]
  dsimp only
  rw [if_neg (by simp [h, LineForm.isBlank]), looseLine, if_pos hfollow]
  dsimp only
  rw [h, hregion, hknot]

theorem step_regionEnd_of_some {s : ScriptState} (hknot : s.knot = none) {r : OpenRegion}
    (hregion : s.region = some r) (n : Nat) {p : String} (h : (Line.ofText p).form = .regionEnd) :
    s.step n p (Line.ofText p) = s.closeRegion n := by
  rw [step, h]
  dsimp only
  rw [closeKnot_of_none _ hknot, if_neg (by simp [hregion])]

/-- The state behind the lines that open a region. -/
theorem exists_ahead_regionLines (hclear : Line.opensBlock false front = false)
    (hregion : (ahead supply front).region = none) {name : String} {position : Option Position}
    (hform : (Line.ofText (renderRegionStart name)).form = .regionStart name)
    (hposition : ∀ p ∈ position, p.ReturnsAs p.comment .position) :
    ∃ follow position', position'.map Position.render = position.map Position.render ∧
      ahead supply (front ++ regionLines name position) = { ahead supply front with
        inPreamble := false
        positionMayFollow := follow
        region := some ⟨name, front.length + 1, position', []⟩ } := by
  have hknot := knot_ahead supply front
  have hhead : ∀ p ∈ (regionLines name position).head?, (Line.ofText p).form.endsKnot = true := by
    intro p hp
    obtain rfl : renderRegionStart name = p := by simpa [regionLines] using hp
    rw [hform]
    rfl
  have hne : (Line.ofText (renderRegionStart name)).form ≠ .blockComment true := by
    rw [hform]
    simp
  rw [ahead_append supply hclear hhead]
  unfold regionLines
  rw [List.cons_append, readFrom_cons_of_ne _ _ hne, step_regionStart hknot hregion _ hform]
  -- the state behind the marker waits for a position, and an empty line does not end that
  cases position with
  | none =>
    refine ⟨true, none, rfl, ?_⟩
    rw [Option.map_none, Option.toList_none, List.nil_append, readFrom_empty, closeKnot_of_none]
    · exact hknot
    · exact hknot
  | some p =>
    obtain ⟨q, hp, hrender⟩ := hposition p rfl
    have hne' : (Line.ofText p.comment).form ≠ .blockComment true := by
      rw [hp]
      simp
    refine ⟨false, some q, congrArg some hrender, ?_⟩
    rw [Option.map_some, Option.toList_some, List.singleton_append, readFrom_cons_of_ne _ _ hne',
      step_position (r := ⟨name, front.length + 1, none, []⟩) hp, readFrom_empty, closeKnot_of_none]
    · exact hknot
    · exact hknot
    · exact hknot
    · rfl
    · rfl

theorem opensBlock_regionLines {name : String} {position : Option Position}
    (hform : (Line.ofText (renderRegionStart name)).form = .regionStart name) :
    Line.opensBlock false (regionLines name position) = false := by
  have hne : decide ((Line.ofText (renderRegionStart name)).form = .blockComment true) = false := by
    rw [hform]
    rfl
  rw [regionLines, List.cons_append, Line.opensBlock_false_cons, hne,
    Line.opensBlock_append_of_silent (Line.silent_position _)]
  rfl

/-- A region opens. -/
theorem Reads.regionStart (h : Reads supply front cs []) (hregion : (ahead supply front).region = none)
    {name : String} {position : Option Position}
    (hform : (Line.ofText (renderRegionStart name)).form = .regionStart name)
    (hposition : ∀ p ∈ position, p.ReturnsAs p.comment .position) :
    ∃ position', position'.map Position.render = position.map Position.render ∧
      Reads supply (front ++ regionLines name position) cs [] ∧
      (ahead supply (front ++ regionLines name position)).region =
        some ⟨name, front.length + 1, position', []⟩ ∧
      (ahead supply (front ++ regionLines name position)).SameFront (ahead supply front) := by
  obtain ⟨follow, position', hrender, hstate⟩ :=
    exists_ahead_regionLines h.clear hregion hform hposition
  refine ⟨position', hrender, ⟨?_, ?_⟩, ?_, ?_⟩
  · rw [Line.opensBlock_append, h.clear, opensBlock_regionLines hform]
  · rw [hstate]
    have hopened := h.composed.openRegion (t := { ahead supply front with
      inPreamble := false
      positionMayFollow := follow
      region := some ⟨name, front.length + 1, position', []⟩ }) (knot_ahead supply front) rfl rfl rfl rfl
    exact hopened.mono (by simp [regionLines])
  · rw [hstate]
  · rw [hstate]
    exact ⟨rfl, rfl, rfl, rfl, rfl, rfl⟩

/-- A region closes. -/
theorem Reads.regionEnd (h : Reads supply front cs ks) {r : OpenRegion}
    (hregion : (ahead supply front).region = some r) :
    Reads supply (front ++ [renderRegionEnd, ""])
        (cs ++ [.region ⟨r.name, r.line, front.length + 1, r.position, r.knots.reverse⟩ ks]) [] ∧
      (ahead supply (front ++ [renderRegionEnd, ""])).region = none ∧
      (ahead supply (front ++ [renderRegionEnd, ""])).SameFront (ahead supply front) := by
  have hknot := knot_ahead supply front
  have hform : (Line.ofText renderRegionEnd).form = .regionEnd := by decide
  have hclosed : (ahead supply front).closeRegion (front.length + 1) = { ahead supply front with
      region := none
      regions := ⟨r.name, r.line, front.length + 1, r.position, r.knots.reverse⟩ ::
        (ahead supply front).regions } := by
    rw [closeRegion, hregion]
  have hhead : ∀ p ∈ [renderRegionEnd, ""].head?, (Line.ofText p).form.endsKnot = true := by
    intro p hp
    obtain rfl := Option.some.inj hp
    rw [hform]
    rfl
  -- no knot is open, so the marker does nothing but close the region
  have hstate : ahead supply (front ++ [renderRegionEnd, ""]) =
      (ahead supply front).closeRegion (front.length + 1) := by
    have hclosedKnot := (sameKnots_closeRegion (front.length + 1) (ahead supply front)).2.1.trans hknot
    rw [ahead_append supply h.clear hhead, readFrom_cons_of_ne _ _ (by rw [hform]; simp),
      step_regionEnd_of_some hknot hregion _ hform, readFrom_empty hclosedKnot,
      closeKnot_of_none _ hclosedKnot]
  refine ⟨⟨?_, ?_⟩, ?_, ?_⟩
  · rw [Line.opensBlock_append, h.clear, Line.opensBlock_false_cons, hform]
    rfl
  · rw [hstate]
    refine h.composed.closeRegion hknot hregion (Nat.le_succ _) ?_
    simp
  · rw [hstate, hclosed]
  · rw [hstate, hclosed]
    exact ⟨rfl, rfl, rfl, rfl, rfl, rfl⟩

end ScriptState

/-! ### Chapters -/

/-- A chapter with the same content as another, by structure and in writing. -/
inductive Chapter.Reprints : Chapter → Chapter → Prop
  | knot {k l : Knot} (h : k.Reprints l) : Reprints (.knot k) (.knot l)
  | region {r r' : Region} {ks ls : List Knot} (name : r.name = r'.name)
    (position : r.position.map Position.render = r'.position.map Position.render)
    (knots : List.Forall₂ Knot.Reprints ks ls) : Reprints (.region r ks) (.region r' ls)

/-- What is written for a chapter is read back, knot by knot and, for a region, its marker and its
position. -/
def Chapter.Returns (ls : List String) : Chapter → Prop
  | .knot k => k.Returns ls
  | .region r ks =>
    (Line.ofText (renderRegionStart r.name)).form = .regionStart r.name ∧
      (∀ p ∈ r.position, p.ReturnsAs p.comment .position) ∧ ∀ k ∈ ks, k.Returns ls

/-- The lines of paragraphs, with an empty line behind each. -/
def paragraphLines (ps : List (List String)) : List String := ps.flatMap (· ++ [""])

theorem paragraphLines_append (ps qs : List (List String)) :
    paragraphLines (ps ++ qs) = paragraphLines ps ++ paragraphLines qs := List.flatMap_append

theorem Chapter.paragraphLines_region (indent : Nat) (r : Region) (ks : List Knot) :
    paragraphLines ((Chapter.region r ks).paragraphs indent) =
      ScriptState.regionLines r.name r.position ++
        (ks.flatMap fun k => k.renderLines indent ++ [""]) ++ [renderRegionEnd, ""] := by
  rw [Chapter.paragraphs, paragraphLines_append, paragraphLines, List.flatMap_cons, List.flatMap_map]
  rfl

theorem Chapter.Reprints.paragraphs {c c' : Chapter} (h : c.Reprints c') (indent : Nat) :
    c.paragraphs indent = c'.paragraphs indent := by
  cases h with
  | knot hk => rw [Chapter.paragraphs, Chapter.paragraphs, hk.renderLines]
  | @region r r' ks ls hname hposition hknots =>
    have hlines : ks.map (Knot.renderLines indent) = ls.map (Knot.renderLines indent) := by
      induction hknots with
      | nil => rfl
      | cons hk _ ih => rw [List.map_cons, List.map_cons, hk.renderLines, ih]
    have hcomment : r.position.map Position.comment = r'.position.map Position.comment :=
      Position.map_eq_of_map_render hposition fun coordinates => "// <" ++ coordinates ++ ">"
    rw [Chapter.paragraphs, Chapter.paragraphs, hname, hcomment, hlines]

namespace ScriptState

variable {supply : Nat} {front : List String} {cs : List Chapter}

/-- One chapter. -/
theorem Reads.chapter (h : Reads supply front cs []) (hregion : (ahead supply front).region = none)
    {ls : List String} (hls : ∀ s ∈ ls, '\n' ∉ s.toList) {c : Chapter} (hwhole : c.Whole)
    (hc : c.Returns ls) (indent : Nat) :
    let lines := paragraphLines (c.paragraphs indent)
    ∃ c' : Chapter, c'.Reprints c ∧ Reads supply (front ++ lines) (cs ++ [c']) [] ∧
      (ahead supply (front ++ lines)).region = none ∧
      (ahead supply (front ++ lines)).SameFront (ahead supply front) := by
  dsimp only
  cases c with
  | knot k =>
    have hlines : paragraphLines ((Chapter.knot k).paragraphs indent) = k.renderLines indent ++ [""] :=
      List.flatMap_singleton _ _
    obtain ⟨k', hk', hreads⟩ := h.knot hregion hls hc hwhole.1 indent
    rw [hlines]
    exact ⟨.knot k', .knot hk', hreads⟩
  | region r ks =>
    obtain ⟨hform, hposition, hks⟩ := hc
    obtain ⟨position, hrender, hstart, hopen, hfront⟩ := h.regionStart hregion hform hposition
    obtain ⟨ks', hks', hmiddle, ⟨r', hr', hname, hplace⟩, hfront'⟩ := hstart.knotsInside hopen hls
      (fun k hk => ⟨hks k hk, (hwhole.2.2.1 k hk).1⟩) indent
    obtain ⟨hend, hclosed, hfront''⟩ := hmiddle.regionEnd hr'
    rw [Chapter.paragraphLines_region, ← List.append_assoc, ← List.append_assoc]
    refine ⟨_, ?_, hend, hclosed, (hfront''.trans hfront').trans hfront⟩
    exact .region hname ((congrArg (Option.map Position.render) hplace).trans hrender) hks'

/-- All chapters: the lines that are written for them are read as the same chapters again. -/
theorem Reads.chapters (h : Reads supply front cs []) (hregion : (ahead supply front).region = none)
    {ls : List String} (hls : ∀ s ∈ ls, '\n' ∉ s.toList) {new : List Chapter}
    (hnew : ∀ c ∈ new, c.Whole ∧ c.Returns ls) (indent : Nat) :
    let lines := paragraphLines (new.flatMap (Chapter.paragraphs indent))
    ∃ new' : List Chapter, List.Forall₂ Chapter.Reprints new' new ∧
      Reads supply (front ++ lines) (cs ++ new') [] ∧
      (ahead supply (front ++ lines)).region = none ∧
      (ahead supply (front ++ lines)).SameFront (ahead supply front) := by
  induction new generalizing front cs with
  | nil =>
    dsimp only
    rw [List.flatMap_nil, paragraphLines, List.flatMap_nil, List.append_nil]
    exact ⟨[], .nil, by rwa [List.append_nil], hregion, .refl _⟩
  | cons c new ih =>
    rw [List.forall_mem_cons] at hnew
    obtain ⟨c', hc', hreads, hregion', hfront⟩ := h.chapter hregion hls hnew.1.1 hnew.1.2 indent
    obtain ⟨new', hnew', hreads', hregion'', hfront'⟩ := ih hreads hregion' hnew.2
    dsimp only
    rw [List.flatMap_cons, paragraphLines_append, ← List.append_assoc]
    refine ⟨c' :: new', .cons hc' hnew', ?_, hregion'', hfront'.trans hfront⟩
    rw [← List.append_cons cs c' new'] at hreads'
    exact hreads'

end ScriptState

end StoryScript
