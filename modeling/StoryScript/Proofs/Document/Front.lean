import StoryScript.Proofs.Document.Reprinted
import StoryScript.Proofs.Document.Tiling
import StoryScript.Proofs.Line.Directive

/-!
# The front of a script

Up to the first header or region marker, a reader sorts the lines: it takes out the positions of the two
nodes that are no knots, the declarations, the inclusions and the first divert, and keeps the others in
their order. What it holds can be written again: the declarations and the inclusions come back from the
lines that are written for them, and the lines that are kept are kept again (`ScriptState.SortedFront`).

A script is written with what was taken out in front of what was kept, and the divert in a paragraph of its
own. These lines are read as the same front (`ScriptState.reads_frontParagraphs`) if each position is
read back as one that is written in the same way, no divert is among the lines that are kept, where it would
be the first, and they leave no comment open, which would swallow the paragraphs behind them
(`Document.FrontReturns`).

The sorting takes single lines out of the script, so it matters which comment a line stands in. A line that
is taken out stands in no comment and opens none; so in front of each line, the kept lines leave a comment
open if the lines of the script do (`ScriptState.SortedFront.comment`).
-/

namespace StoryScript

open Text

/-- Forms of the lines that the front keeps, the first divert apart. -/
def LineForm.isKept : LineForm → Bool
  | blank | knotHeader _ | regionStart _ | regionEnd | startPosition _ | endPosition _ | external _ _
  | inclusion _ => false
  | _ => true

/-- Forms of the lines that the front may take out. -/
def LineForm.isTaken : LineForm → Bool
  | startPosition _ | endPosition _ | external _ _ | inclusion _ | divert _ => true
  | _ => false

theorem LineForm.of_isKept {form : LineForm} (h : form.isKept = true) :
    form.endsKnot = false ∧ form.isBlank = false := by
  cases form <;> first | exact ⟨rfl, rfl⟩ | simp [isKept] at h

theorem LineForm.of_isTaken {form : LineForm} (h : form.isTaken = true) :
    form ≠ .blockComment true ∧ form.endsKnot = false ∧ form.isBlank = false := by
  cases form <;> first | (simp [isTaken] at h; done) | exact ⟨by simp, rfl, rfl⟩

/-! ### Single lines -/

namespace Line

variable {inBlock : Bool} {p : String} {l : Line}

/-- A line is read as the lines in front of it demand. -/
theorem readFrom_singleton {ls : List String} {n : Nat} (hp : ls[n]? = some p)
    (hl : (ofTexts ls)[n]? = some l) : readFrom (opensBlock false (ls.take n)) [p] = [l] := by
  have hlines : ofTexts (ls.take (n + 1)) = ofTexts (ls.take n) ++ [l] := by
    rw [ScriptState.ofTexts_take, ScriptState.ofTexts_take, take_succ_eq hl]
  rw [take_succ_eq hp, ofTexts, readFrom_append] at hlines
  exact List.append_cancel_left hlines

/-- The text of a line is the line without the blanks around it. -/
theorem text_of_readFrom (h : readFrom inBlock [p] = [l]) : l.text = strip p := by
  rw [readFrom_cons] at h
  rw [← (List.cons.inj h).1, text_lineIn]

/-- A line without the blanks around it is read as it was with them. -/
theorem readFrom_text (h : readFrom inBlock [p] = [l]) : readFrom inBlock [l.text] = [l] := by
  rw [← h]
  refine readFrom_congr ?_ inBlock
  rw [List.map_singleton, List.map_singleton, text_of_readFrom h, strip_strip]

theorem opensBlock_text (h : readFrom inBlock [p] = [l]) :
    opensBlock inBlock [l.text] = opensBlock inBlock [p] := by
  refine opensBlock_congr ?_ inBlock
  rw [List.map_singleton, List.map_singleton, text_of_readFrom h, strip_strip]

/-- A line that is no comment stands in none and opens none. -/
theorem alone_of_not_comment (h : readFrom inBlock [p] = [l]) (hcomment : l.form ≠ .comment)
    (hblock : l.form ≠ .blockComment true) :
    inBlock = false ∧ l = ofText p ∧ opensBlock inBlock [p] = false := by
  cases inBlock with
  | true =>
    rw [readFrom_true_cons] at h
    exact absurd (congrArg Line.form (List.cons.inj h).1).symm hcomment
  | false =>
    rw [readFrom_false_cons] at h
    obtain rfl := (List.cons.inj h).1
    refine ⟨rfl, rfl, ?_⟩
    rw [opensBlock_false_cons, decide_eq_false hblock, opensBlock_nil]

end Line

namespace ScriptState

variable {supply : Nat} {ls : List String} {n : Nat} {s t : ScriptState} {p : String} {l : Line}

/-! ### What leaves the front alone -/

theorem sameFront_closeRegion (last : Nat) (s : ScriptState) : (s.closeRegion last).SameFront s := by
  unfold closeRegion
  split <;> exact ⟨rfl, rfl, rfl, rfl, rfl, rfl⟩

theorem sameFront_closeUnclosedRegion (line last : Nat) (s : ScriptState) :
    (s.closeUnclosedRegion line last).SameFront s := by
  unfold closeUnclosedRegion
  split
  · exact .refl s
  · exact (sameFront_closeRegion last _).trans ⟨rfl, rfl, rfl, rfl, rfl, rfl⟩

/-- Headers and markers leave the front alone. -/
theorem sameFront_step_of_endsKnot (n : Nat) (p : String) (s : ScriptState)
    (hends : l.form.endsKnot = true) : (s.step n p l).SameFront s := by
  have hclosed := sameFront_closeKnot (n - 1) s
  have hsteps := steps n p l s
  generalize s.step n p l = t at hsteps ⊢
  cases hsteps with
  | header _ => exact { hclosed with }
  | regionStart _ => exact { (sameFront_closeUnclosedRegion n (n - 1) _).trans hclosed with }
  | strayEnd _ _ => exact { hclosed with }
  | regionEnd _ _ => exact (sameFront_closeRegion n _).trans hclosed
  | body hother _ => simp [hother] at hends
  | blank hblank _ => simp [LineForm.endsKnot_of_isBlank hblank] at hends
  | loose hother _ _ => simp [hother] at hends

/-- Behind the front, so does every line. -/
theorem sameFront_step (n : Nat) (p : String) (l : Line) (hover : s.inPreamble = false) :
    (s.step n p l).SameFront s := by
  have houtside : ∀ s : ScriptState, s.inPreamble = false → (s.outsideLine n l).SameFront s := by
    intro s hover
    rw [outsideLine, if_neg (by simp [hover])]
    split <;> exact ⟨rfl, rfl, rfl, rfl, rfl, rfl⟩
  by_cases hends : l.form.endsKnot = true
  · exact sameFront_step_of_endsKnot n p s hends
  · rw [step_of_not_endsKnot n p s (by simpa using hends)]
    split
    · exact ⟨rfl, rfl, rfl, rfl, rfl, rfl⟩
    · split
      · exact .refl s
      · have hsteps := stepsOutside n l s
        generalize s.looseLine n l = t at hsteps ⊢
        cases hsteps with
        | placed _ _ _ => exact ⟨rfl, rfl, rfl, rfl, rfl, rfl⟩
        | passed _ _ =>
          have hfollow := houtside { s with positionMayFollow := false } hover
          exact hfollow.trans ⟨rfl, rfl, rfl, rfl, rfl, rfl⟩
        | outside _ => exact houtside s hover

/-! ### Reading the front -/

/-- What was sorted out of the front can be written and read again. -/
structure SortableFront (s : ScriptState) : Prop where
  kept : ∀ l ∈ Line.ofTexts s.preamble.reverse, l.form.isKept = true
  stripped : ∀ p ∈ s.preamble, strip p = p ∧ '\n' ∉ p.toList
  externals : ∀ e ∈ s.externals, e.Returns
  inclusions : ∀ path ∈ s.inclusions, ReturnsInclusion path
  target : ∀ target ∈ s.initialDivert, IsTarget target.toList

/-- The state behind the first `n` lines. -/
structure SortedFront (ls : List String) (n : Nat) (s : ScriptState) : Prop extends s.SortableFront where
  outside : s.inPreamble = true → s.knot = none ∧ s.region = none
  comment : s.inPreamble = true →
    Line.opensBlock false s.preamble.reverse = Line.opensBlock false (ls.take n)

theorem SortableFront.of_sameFront (h : s.SortableFront) (hsame : t.SameFront s) : t.SortableFront where
  kept := by
    rw [hsame.preamble]
    exact h.kept
  stripped := by
    rw [hsame.preamble]
    exact h.stripped
  externals := by
    rw [hsame.externals]
    exact h.externals
  inclusions := by
    rw [hsame.inclusions]
    exact h.inclusions
  target := by
    rw [hsame.initialDivert]
    exact h.target

namespace SortedFront

theorem start (supply : Nat) (ls : List String) : SortedFront ls 0 { supply } := by
  refine ⟨⟨?_, ?_, ?_, ?_, ?_⟩, ?_, ?_⟩ <;> simp [Line.ofTexts, Line.readFrom]

/-- The front is over. -/
theorem behind (h : s.SortedFront ls n) (hsame : t.SameFront s) (hover : t.inPreamble = false)
    (m : Nat) : t.SortedFront ls m :=
  ⟨h.of_sameFront hsame, by simp [hover], by simp [hover]⟩

/-- A line that is no comment is not missed among the lines that are kept. -/
theorem comment_of_not_comment (h : s.SortedFront ls n) (hin : s.inPreamble = true)
    (hp : ls[n]? = some p) (hl : (Line.ofTexts ls)[n]? = some l) (hcomment : l.form ≠ .comment)
    (hblock : l.form ≠ .blockComment true) : l = Line.ofText p ∧
      Line.opensBlock false s.preamble.reverse = Line.opensBlock false (ls.take (n + 1)) := by
  obtain ⟨hclear, htext, hopens⟩ :=
    Line.alone_of_not_comment (Line.readFrom_singleton hp hl) hcomment hblock
  refine ⟨htext, ?_⟩
  rw [h.comment hin, Line.take_succ_eq hp, Line.opensBlock_append, hopens, hclear]

/-- A line that is kept. -/
theorem keep (h : s.SortedFront ls n) (hin : s.inPreamble = true) (hp : ls[n]? = some p)
    (hl : (Line.ofTexts ls)[n]? = some l) (hline : '\n' ∉ p.toList) (hkept : l.form.isKept = true) :
    ({ s with preamble := l.text :: s.preamble } : ScriptState).SortedFront ls (n + 1) := by
  have hread := Line.readFrom_singleton hp hl
  rw [← h.comment hin] at hread
  refine ⟨⟨fun l' hl' => ?_, ?_, h.externals, h.inclusions, h.target⟩, h.outside, fun _ => ?_⟩
  · change l' ∈ Line.ofTexts (l.text :: s.preamble).reverse at hl'
    rw [List.reverse_cons, Line.ofTexts, Line.readFrom_append, Line.readFrom_text hread] at hl'
    rcases List.mem_append.mp hl' with hl' | hl'
    · exact h.kept l' hl'
    · rw [List.mem_singleton.mp hl']
      exact hkept
  · rw [List.forall_mem_cons]
    refine ⟨?_, h.stripped⟩
    rw [Line.text_of_readFrom hread, strip_strip]
    exact ⟨rfl, fun hmem => hline (mem_of_mem_stripChars (by simpa [strip] using hmem))⟩
  · change Line.opensBlock false (l.text :: s.preamble).reverse = _
    rw [List.reverse_cons, Line.opensBlock_append, Line.opensBlock_text hread, h.comment hin,
      Line.take_succ_eq hp, Line.opensBlock_append]

/-- A line of the front is sorted. -/
theorem preambleLine (h : s.SortedFront ls n) (hin : s.inPreamble = true) (hp : ls[n]? = some p)
    (hl : (Line.ofTexts ls)[n]? = some l) (hline : '\n' ∉ p.toList)
    (hends : l.form.endsKnot = false) (hblank : l.form.isBlank = false) :
    (s.preambleLine (n + 1) l).SortedFront ls (n + 1) := by
  have htaken := h.comment_of_not_comment hin hp hl
  -- a line that the front takes up adds what it says, and any other line is kept as it stands
  unfold ScriptState.preambleLine
  split
  · next q hform =>
    exact ⟨⟨h.kept, h.stripped, h.externals, h.inclusions, h.target⟩, h.outside,
      fun _ => (htaken (by simp [hform]) (by simp [hform])).2⟩
  · next q hform =>
    exact ⟨⟨h.kept, h.stripped, h.externals, h.inclusions, h.target⟩, h.outside,
      fun _ => (htaken (by simp [hform]) (by simp [hform])).2⟩
  · next name params hform =>
    obtain ⟨htext, hcomment⟩ := htaken (by simp [hform]) (by simp [hform])
    have hreturns : External.Returns ⟨name, params, n + 1⟩ :=
      Line.returns_of_external hline (by rw [← htext, hform])
    exact ⟨⟨h.kept, h.stripped, List.forall_mem_cons.mpr ⟨hreturns, h.externals⟩, h.inclusions,
      h.target⟩, h.outside, fun _ => hcomment⟩
  · next path hform =>
    obtain ⟨htext, hcomment⟩ := htaken (by simp [hform]) (by simp [hform])
    have hreturns : ReturnsInclusion path := Line.returns_of_inclusion hline (by rw [← htext, hform])
    exact ⟨⟨h.kept, h.stripped, h.externals, List.forall_mem_cons.mpr ⟨hreturns, h.inclusions⟩,
      h.target⟩, h.outside, fun _ => hcomment⟩
  · next target hform hnone =>
    obtain ⟨htext, hcomment⟩ := htaken (by simp [hform]) (by simp [hform])
    have htarget : IsTarget target.toList := by
      have hsingle := Line.single_ofText hline
      rw [← htext] at hsingle
      have hrecognised := hsingle.recognised (by simp [hform]) (by simp [hform])
      rw [hform] at hrecognised
      exact hrecognised.1
    refine ⟨⟨h.kept, h.stripped, h.externals, h.inclusions, fun t ht => ?_⟩, h.outside,
      fun _ => hcomment⟩
    obtain rfl := Option.some.inj ht
    exact htarget
  · next hstart hend hexternal hinclusion hdivert =>
    refine h.keep hin hp hl hline ?_
    cases hform : l.form with
    | blank => simp [hform, LineForm.isBlank] at hblank
    | knotHeader name => simp [hform, LineForm.endsKnot] at hends
    | regionStart name => simp [hform, LineForm.endsKnot] at hends
    | regionEnd => simp [hform, LineForm.endsKnot] at hends
    | startPosition q => exact (hstart _ hform).elim
    | endPosition q => exact (hend _ hform).elim
    | external name params => exact (hexternal _ _ hform).elim
    | inclusion path => exact (hinclusion _ hform).elim
    | _ => rfl

theorem step (h : s.SortedFront ls n) (hp : ls[n]? = some p) (hl : (Line.ofTexts ls)[n]? = some l)
    (hline : '\n' ∉ p.toList) : (s.step (n + 1) p l).SortedFront ls (n + 1) := by
  have hflag := inPreamble_step (n + 1) p l s
  -- behind the front nothing of it changes any more
  cases hin : s.inPreamble with
  | false => exact h.behind (sameFront_step (n + 1) p l hin) (by rw [hflag, hin]; rfl) (n + 1)
  | true =>
    obtain ⟨hknot, hregion⟩ := h.outside hin
    by_cases hends : l.form.endsKnot = true
    · have hsame := sameFront_step_of_endsKnot (n + 1) p s hends
      cases hform : l.form with
      | knotHeader name => exact h.behind hsame (by simp [hflag, hform, LineForm.header?]) (n + 1)
      | regionStart name => exact h.behind hsame (by simp [hflag, hform, LineForm.regionName?]) (n + 1)
      | regionEnd =>
        obtain ⟨-, hknot', hregion'⟩ := step_regionEnd (n + 1) p s hform
        refine ⟨h.of_sameFront hsame, fun _ => ⟨hknot', hregion'⟩, fun _ => ?_⟩
        rw [hsame.preamble]
        exact (h.comment_of_not_comment hin hp hl (by simp [hform]) (by simp [hform])).2
      | _ => simp [hform, LineForm.endsKnot] at hends
    · rw [Bool.not_eq_true] at hends
      rw [step_of_not_endsKnot (n + 1) p s hends, hknot]
      dsimp only
      split
      · next hblank =>
        have hform : l.form = .blank := LineForm.isBlank_iff.mp hblank
        exact ⟨h.toSortableFront, h.outside, fun _ =>
          (h.comment_of_not_comment hin hp hl (by simp [hform]) (by simp [hform])).2⟩
      · next hblank =>
        rw [Bool.not_eq_true] at hblank
        -- no region is open in the front, so that the line reaches the preamble in any case
        have hloose : ∃ follow, s.looseLine (n + 1) l =
            ({ s with positionMayFollow := follow } : ScriptState).preambleLine (n + 1) l := by
          have hsteps := stepsOutside (n + 1) l s
          generalize s.looseLine (n + 1) l = t at hsteps ⊢
          cases hsteps with
          | placed _ _ hsome => simp [hregion] at hsome
          | passed _ _ => exact ⟨false, if_pos hin⟩
          | outside _ => exact ⟨s.positionMayFollow, if_pos hin⟩
        obtain ⟨follow, hloose⟩ := hloose
        have hfollow : ({ s with positionMayFollow := follow } : ScriptState).SortedFront ls n :=
          ⟨⟨h.kept, h.stripped, h.externals, h.inclusions, h.target⟩, h.outside, h.comment⟩
        rw [hloose]
        exact hfollow.preambleLine hin hp hl hline hends hblank

end SortedFront

/-- What is sorted out of the front of a script can be written and read again. -/
theorem sortableFront_ofLines (supply : Nat) {ls : List String} (hls : ∀ p ∈ ls, '\n' ∉ p.toList) :
    (ofLines supply ls).SortableFront := by
  have hread : (behindFirst supply ls ls.length).SortedFront ls ls.length :=
    behindFirst_induction (.start supply ls) fun n p l s hp hl h =>
      h.step hp hl (hls p (List.mem_of_getElem? hp))
  rw [ofLines_eq_finish, finish]
  exact hread.of_sameFront ((sameFront_closeUnclosedRegion _ _ _).trans (sameFront_closeKnot _ _))

end ScriptState

/-! ### Reading what was written -/

/-- What is written for a front is read back: the positions of the two nodes, and lines that are kept, none
of which is taken for the divert, and which leave no comment open. -/
structure Document.FrontReturns (d : Document) : Prop where
  start : ∀ p ∈ d.startPosition, p.ReturnsAs (p.nodeComment "start") .startPosition
  finish : ∀ p ∈ d.endPosition, p.ReturnsAs (p.nodeComment "end") .endPosition
  divert : ∀ l ∈ Line.ofTexts d.preamble, ∀ target, l.form ≠ .divert target
  closed : Line.opensBlock false d.preamble = false

/-- The paragraphs in front of the chapters. -/
def Document.frontParagraphs (d : Document) : List (List String) :=
  (if d.renderFront.isEmpty then [] else [d.renderFront]) ++
    (d.initialDivert.map fun target => [renderDivert target]).toList

namespace ScriptState

variable {n : Nat} {front behind : List String} {s t u : ScriptState} {p : String} {l : Line}

/-- From line `n` on, lines that leave no comment open lead from one state to another. -/
structure ReadsTo (n : Nat) (ls : List String) (s t : ScriptState) : Prop where
  clear : Line.opensBlock false ls = false
  state : s.readFrom n (ls.zip (Line.ofTexts ls)) = t

/-- States whose fronts are written alike. -/
structure RewritesFront (s t : ScriptState) : Prop where
  externals : s.externals.map (fun e => (e.name, e.params)) = t.externals.map fun e => (e.name, e.params)
  inclusions : s.inclusions = t.inclusions
  initialDivert : s.initialDivert = t.initialDivert
  startPosition : s.startPosition.map Position.render = t.startPosition.map Position.render
  endPosition : s.endPosition.map Position.render = t.endPosition.map Position.render
  preamble : s.preamble = t.preamble

theorem RewritesFront.of_sameFront (h : t.RewritesFront u) (hsame : s.SameFront t) :
    s.RewritesFront u where
  externals := by rw [hsame.externals, h.externals]
  inclusions := by rw [hsame.inclusions, h.inclusions]
  initialDivert := by rw [hsame.initialDivert, h.initialDivert]
  startPosition := by rw [hsame.startPosition, h.startPosition]
  endPosition := by rw [hsame.endPosition, h.endPosition]
  preamble := by rw [hsame.preamble, h.preamble]

/-- Nothing but lines of the front has been read. -/
structure InFront (s : ScriptState) : Prop where
  knot : s.knot = none
  region : s.region = none
  inPreamble : s.inPreamble = true
  follow : s.positionMayFollow = false

theorem step_of_inFront (h : s.InFront) (n : Nat) (p : String) (hends : l.form.endsKnot = false)
    (hblank : l.form.isBlank = false) : s.step n p l = s.preambleLine n l := by
  rw [step_of_not_endsKnot n p s hends, h.knot]
  dsimp only
  rw [if_neg (by simp [hblank]), looseLine, if_neg (by simp [h.follow]), outsideLine,
    if_pos h.inPreamble]

namespace ReadsTo

theorem nil (n : Nat) (s : ScriptState) : ReadsTo n [] s s := ⟨rfl, rfl⟩

theorem cons (hopens : (Line.ofText p).form ≠ .blockComment true)
    (h : ReadsTo (n + 1) behind (s.step n p (Line.ofText p)) t) : ReadsTo n (p :: behind) s t := by
  refine ⟨?_, ?_⟩
  · rw [Line.opensBlock_false_cons, decide_eq_false hopens, h.clear]
  · rw [readFrom_cons_of_ne s n hopens, h.state]

theorem append (h : ReadsTo n front s t) (h' : ReadsTo (n + front.length) behind t u) :
    ReadsTo n (front ++ behind) s u := by
  refine ⟨?_, ?_⟩
  · rw [Line.opensBlock_append, h.clear, h'.clear]
  · rw [zip_ofTexts_append h.clear, readFrom_append, length_zip_ofTexts, h.state, h'.state]

theorem empties (hknot : s.knot = none) (n : Nat) {top : List String} (htop : ∀ p ∈ top, p = "") :
    ReadsTo n top s s := by
  induction top generalizing n with
  | nil => exact nil n s
  | cons p top ih =>
    rw [List.forall_mem_cons] at htop
    obtain ⟨rfl, htop⟩ := htop
    refine cons (by decide) ?_
    rw [step_empty hknot]
    exact ih (n + 1) htop

theorem ahead_eq {supply : Nat} (h : ReadsTo 1 front { supply } t) (hknot : t.knot = none) :
    ahead supply front = t := by
  rw [ahead, h.state]
  exact closeKnot_of_none _ hknot

/-- A line that may be taken out stands by itself. -/
theorem taken (hs : s.InFront) (htaken : (Line.ofText p).form.isTaken = true)
    (h : ReadsTo (n + 1) behind (s.preambleLine n (Line.ofText p)) t) :
    ReadsTo n (p :: behind) s t := by
  obtain ⟨hopens, hends, hblank⟩ := LineForm.of_isTaken htaken
  refine cons hopens ?_
  rwa [step_of_inFront hs n p hends hblank]

/-- The position of a node that is no knot is put in its place, up to how it is written. -/
theorem exists_position (hs : s.InFront) (n : Nat) {label : String} {form : Position → LineForm}
    (place : Option Position → ScriptState) (hnone : place none = s)
    (htaken : ∀ q, (form q).isTaken = true)
    (hplace : ∀ l q, Line.form l = form q → s.preambleLine n l = place (some q))
    {position : Option Position}
    (hposition : ∀ p ∈ position, p.ReturnsAs (p.nodeComment label) form) :
    ∃ position', position'.map Position.render = position.map Position.render ∧
      ReadsTo n (position.map (Position.nodeComment label)).toList s (place position') := by
  cases position with
  | none =>
    refine ⟨none, rfl, ?_⟩
    rw [hnone]
    exact nil n s
  | some p =>
    obtain ⟨q, hform, hrender⟩ := hposition p rfl
    refine ⟨some q, congrArg some hrender, taken hs ?_ ?_⟩
    · rw [hform]
      exact htaken q
    · rw [hplace _ q hform]
      exact nil (n + 1) _

/-- Declarations come back in their order, on other lines. -/
theorem exists_externals (hs : s.InFront) (n : Nat) {es : List External} (hes : ∀ e ∈ es, e.Returns) :
    ∃ es' : List External, es'.map (fun e => (e.name, e.params)) =
        (es.map fun e => (e.name, e.params)).reverse ∧
      ReadsTo n (es.map External.render) s { s with externals := es' ++ s.externals } := by
  induction es generalizing s n with
  | nil => exact ⟨[], rfl, nil n s⟩
  | cons e es ih =>
    obtain ⟨he, hes⟩ := List.forall_mem_cons.mp hes
    have hline : s.preambleLine n (Line.ofText e.render) =
        { s with externals := ⟨e.name, e.params, n⟩ :: s.externals } := by
      rw [preambleLine, he.form]
    obtain ⟨es', hes', hbehind⟩ := ih
      (s := { s with externals := ⟨e.name, e.params, n⟩ :: s.externals })
      ⟨hs.knot, hs.region, hs.inPreamble, hs.follow⟩ (n + 1) hes
    refine ⟨es' ++ [⟨e.name, e.params, n⟩], ?_, taken hs ?_ ?_⟩
    · rw [List.map_append, hes', List.map_cons, List.map_cons, List.reverse_cons]
      rfl
    · rw [he.form]
      rfl
    · rw [hline, List.append_assoc]
      exact hbehind

theorem inclusions (hs : s.InFront) (n : Nat) {paths : List String}
    (hpaths : ∀ path ∈ paths, ReturnsInclusion path) :
    ReadsTo n (paths.map ("INCLUDE " ++ ·)) s
      { s with inclusions := paths.reverse ++ s.inclusions } := by
  induction paths generalizing s n with
  | nil => exact nil n s
  | cons path paths ih =>
    obtain ⟨hpath, hpaths⟩ := List.forall_mem_cons.mp hpaths
    have hline : s.preambleLine n (Line.ofText ("INCLUDE " ++ path)) =
        { s with inclusions := path :: s.inclusions } := by
      rw [preambleLine, hpath.form]
    refine taken hs ?_ ?_
    · rw [hpath.form]
      rfl
    · rw [hline, List.reverse_cons, List.append_assoc]
      exact ih (s := { s with inclusions := path :: s.inclusions })
        ⟨hs.knot, hs.region, hs.inPreamble, hs.follow⟩ (n + 1) hpaths

end ReadsTo

theorem preambleLine_of_isKept (s : ScriptState) (n : Nat) (hkept : l.form.isKept = true)
    (hdivert : ∀ target, l.form ≠ .divert target) :
    s.preambleLine n l = { s with preamble := l.text :: s.preamble } := by
  unfold preambleLine
  split
  · next hform => simp [hform, LineForm.isKept] at hkept
  · next hform => simp [hform, LineForm.isKept] at hkept
  · next hform => simp [hform, LineForm.isKept] at hkept
  · next hform => simp [hform, LineForm.isKept] at hkept
  · next hform _ => exact absurd hform (hdivert _)
  · rfl

/-- Lines that are kept and no diverts are put in front of those that were kept before. -/
theorem readFrom_kept (h : s.InFront) (n : Nat) {xs : List (String × Line)}
    (hkept : ∀ x ∈ xs, x.2.form.isKept = true)
    (hdivert : ∀ x ∈ xs, ∀ target, x.2.form ≠ .divert target) :
    s.readFrom n xs = { s with preamble := (xs.map fun x => x.2.text).reverse ++ s.preamble } := by
  induction xs generalizing s n with
  | nil => rfl
  | cons x xs ih =>
    obtain ⟨p, l⟩ := x
    rw [List.forall_mem_cons] at hkept hdivert
    have hl : l.form.isKept = true := hkept.1
    obtain ⟨hends, hblank⟩ := LineForm.of_isKept hl
    rw [readFrom, step_of_inFront h n p hends hblank, preambleLine_of_isKept s n hl hdivert.1,
      ih (s := { s with preamble := l.text :: s.preamble }) ⟨h.knot, h.region, h.inPreamble, h.follow⟩
        (n + 1) hkept.2 hdivert.2, List.map_cons, List.reverse_cons, List.append_assoc]
    rfl

/-- Lines without blanks around them are their texts. -/
theorem map_text_zip_ofTexts {ls : List String} (hls : ∀ p ∈ ls, strip p = p) :
    (ls.zip (Line.ofTexts ls)).map (fun x => x.2.text) = ls := by
  have htexts : ∀ inBlock, (Line.readFrom inBlock ls).map Line.text = ls := by
    induction ls with
    | nil => exact fun _ => rfl
    | cons p ls ih =>
      rw [List.forall_mem_cons] at hls
      intro inBlock
      rw [Line.readFrom_cons, List.map_cons, ih hls.2, Line.text_lineIn, hls.1]
  have hsnd : (ls.zip (Line.ofTexts ls)).map Prod.snd = Line.ofTexts ls :=
    List.map_snd_zip (Nat.le_of_eq (Line.length_ofTexts ls))
  calc (ls.zip (Line.ofTexts ls)).map (fun x => x.2.text)
      = ((ls.zip (Line.ofTexts ls)).map Prod.snd).map Line.text := by rw [List.map_map]; rfl
    _ = ls := by rw [hsnd]; exact htexts false

namespace ReadsTo

/-- Lines that are kept and no diverts stay as they are. -/
theorem kept (hs : s.InFront) (n : Nat) {ls : List String} (hls : ∀ p ∈ ls, strip p = p)
    (hclosed : Line.opensBlock false ls = false) (hkept : ∀ l ∈ Line.ofTexts ls, l.form.isKept = true)
    (hdivert : ∀ l ∈ Line.ofTexts ls, ∀ target, l.form ≠ .divert target) :
    ReadsTo n ls s { s with preamble := ls.reverse ++ s.preamble } := by
  have hmem : ∀ x ∈ ls.zip (Line.ofTexts ls), x.2 ∈ Line.ofTexts ls :=
    fun x hx => (List.of_mem_zip hx).2
  refine ⟨hclosed, ?_⟩
  rw [readFrom_kept hs n (fun x hx => hkept _ (hmem x hx)) (fun x hx => hdivert _ (hmem x hx)),
    map_text_zip_ofTexts hls]

/-- The divert is taken out, in a paragraph of its own. -/
theorem divert (hs : s.InFront) (n : Nat) {target : Option String}
    (htarget : ∀ t ∈ target, IsTarget t.toList) (hnone : s.initialDivert = none) :
    ReadsTo n (paragraphLines (target.map fun t => [renderDivert t]).toList) s
      { s with initialDivert := target } := by
  cases target with
  | none =>
    have hsame : { s with initialDivert := none } = s := by rw [← hnone]
    rw [hsame]
    exact nil n s
  | some t =>
    have hform := Line.form_renderDivert (htarget t rfl)
    rw [String.ofList_toList] at hform
    have hline : s.preambleLine n (Line.ofText (renderDivert t)) = { s with initialDivert := some t } := by
      rw [preambleLine, hform, hnone]
    refine taken hs ?_ ?_
    · rw [hform]
      rfl
    · rw [hline]
      have hempty : ∀ p ∈ [""], p = "" := fun _ => List.mem_singleton.mp
      exact empties (s := { s with initialDivert := some t }) hs.knot (n + 1) hempty

/-- The lines that are written for what was sorted out are sorted in the same way. -/
theorem exists_renderFront (hu : u.SortableFront) {ls : List String}
    (h : (u.document ls).FrontReturns) (supply n : Nat) : ∃ es start finish,
      es.map (fun e => (External.name e, e.params)) = u.externals.map (fun e => (e.name, e.params)) ∧
      start.map Position.render = u.startPosition.map Position.render ∧
      finish.map Position.render = u.endPosition.map Position.render ∧
      ReadsTo n (u.document ls).renderFront { supply }
        { supply
          externals := es
          inclusions := u.inclusions
          startPosition := start
          endPosition := finish
          preamble := u.preamble } := by
  -- the paragraph in the order in which it is written
  have hlines : (u.document ls).renderFront =
      (u.startPosition.map (Position.nodeComment "start")).toList ++
        (u.endPosition.map (Position.nodeComment "end")).toList ++
        u.externals.reverse.map External.render ++
        u.inclusions.reverse.map ("INCLUDE " ++ ·) ++ u.preamble.reverse := rfl
  obtain ⟨start, hstart, hreadStart⟩ := exists_position (s := { supply })
    ⟨rfl, rfl, rfl, rfl⟩ n (fun p => { supply, startPosition := p }) rfl (fun _ => rfl)
    (fun l q hform => by rw [preambleLine, hform]) h.start
  obtain ⟨finish, hfinish, hreadFinish⟩ := exists_position (s := { supply, startPosition := start })
    ⟨rfl, rfl, rfl, rfl⟩ (n + (u.startPosition.map (Position.nodeComment "start")).toList.length)
    (fun p => { supply, startPosition := start, endPosition := p }) rfl (fun _ => rfl)
    (fun l q hform => by rw [preambleLine, hform]) h.finish
  have hnodes := hreadStart.append hreadFinish
  obtain ⟨es, hes, hreadExternals⟩ := exists_externals
    (s := { supply, startPosition := start, endPosition := finish }) ⟨rfl, rfl, rfl, rfl⟩
    (n + ((u.startPosition.map (Position.nodeComment "start")).toList ++
      (u.endPosition.map (Position.nodeComment "end")).toList).length)
    fun e (he : e ∈ u.externals.reverse) => hu.externals e (List.mem_reverse.mp he)
  have hreadInclusions := hnodes.append hreadExternals |>.append <|
    inclusions ⟨rfl, rfl, rfl, rfl⟩ _ fun path (hpath : path ∈ u.inclusions.reverse) =>
      hu.inclusions path (List.mem_reverse.mp hpath)
  have hreadKept := hreadInclusions.append <| kept ⟨rfl, rfl, rfl, rfl⟩ _
    (fun p hp => (hu.stripped p (List.mem_reverse.mp hp)).1) h.closed hu.kept h.divert
  rw [List.map_reverse, List.reverse_reverse] at hes
  refine ⟨es, start, finish, hes, hstart, hfinish, ?_⟩
  rw [hlines]
  simp only [List.append_nil, List.reverse_reverse] at hreadKept
  exact hreadKept

end ReadsTo

/-- The paragraphs in front of the chapters, behind empty lines, are read as the same front. -/
theorem reads_frontParagraphs (hu : u.SortableFront) {ls : List String}
    (h : (u.document ls).FrontReturns) (supply : Nat) {top : List String} (htop : ∀ p ∈ top, p = "") :
    let front := top ++ paragraphLines (u.document ls).frontParagraphs
    Reads supply front [] [] ∧ (ahead supply front).region = none ∧ (ahead supply front).RewritesFront u := by
  -- the empty line behind the paragraph is missing along with it
  obtain ⟨gap, hgap, hparagraph⟩ : ∃ gap : List String, (∀ p ∈ gap, p = "") ∧
      paragraphLines (if (u.document ls).renderFront.isEmpty then []
        else [(u.document ls).renderFront]) = (u.document ls).renderFront ++ gap := by
    cases hfront : (u.document ls).renderFront with
    | nil => exact ⟨[], by simp, rfl⟩
    | cons p ps => exact ⟨[""], by simp, List.flatMap_singleton _ _⟩
  have hlines : top ++ paragraphLines (u.document ls).frontParagraphs =
      top ++ (u.document ls).renderFront ++ gap ++ paragraphLines
        (u.initialDivert.map fun target => [renderDivert target]).toList := by
    rw [Document.frontParagraphs, paragraphLines_append, hparagraph]
    simp only [List.append_assoc]
    rfl
  obtain ⟨es, start, finish, hes, hstart, hfinish, hfront⟩ :=
    ReadsTo.exists_renderFront hu h supply (1 + top.length)
  have hread := (ReadsTo.empties rfl 1 htop).append hfront |>.append (.empties rfl _ hgap) |>.append
    (.divert ⟨rfl, rfl, rfl, rfl⟩ _ hu.target rfl)
  rw [← hlines] at hread
  have hahead := hread.ahead_eq rfl
  intro front
  rw [hahead]
  refine ⟨⟨hread.clear, ?_⟩, rfl, hes, rfl, rfl, hstart, hfinish, rfl⟩
  rw [hahead]
  exact ((ComposedOf.start 1 supply).mono (by omega)).of_eq rfl rfl rfl (by simp)

end ScriptState

end StoryScript
