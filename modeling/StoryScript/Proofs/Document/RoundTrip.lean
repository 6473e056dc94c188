import StoryScript.Proofs.Body.Rewritten
import StoryScript.Proofs.Document.Front
import StoryScript.Proofs.Document.Reread

/-!
# The round trip of a script

A script that is written and read again has the same structure, and is then written in the same way
(`Document.sameStructure_and_render_reread`). Two documents that were read are the same in
this sense if they hold the same front, and chapters that are written alike and structurally equal
(`Document.Reprints`).

Not every script comes back: a line that is written for one thing may be read as another, or end a knot, or
open a comment. `Document.Returns` asks this of each line that is written, in its place, and of no more than
single lines; that the whole comes back then follows.

What is written is read from its lines up to blanks around them, since a carriage return in front of a line
feed is lost. Writing and comparing pass over identities and the spelling of lines, so it is enough to
compare with a reading of the lines themselves (`Document.render_plain`, `Document.sameStructure_plain`).
-/

namespace StoryScript

open Text

/-! ### Writing passes over identities -/

theorem inlineDivert_unlabelledIn (h : ChoiceHead) (is : List Item) :
    inlineDivert h (Item.unlabelledIn is) = inlineDivert h is := by
  have hkind : ∀ i : Item, (i.unlabelled.isChoice || i.unlabelled.isDivert) =
      (i.isChoice || i.isDivert) := by
    intro i
    cases i with
    | leaf m l => cases l <;> rfl
    | choice m h c => rfl
    | conditional m bs => rfl
  rw [inlineDivert, inlineDivert, Item.unlabelledIn_eq_map, List.getLast?_map]
  cases is.getLast? with
  | none => rfl
  | some last =>
    rw [Option.map_some]
    dsimp only
    rw [hkind last]

section

variable {indent : Nat}

mutual

theorem Item.render_unlabelled : ∀ (i : Item) (level depth : Nat),
    i.unlabelled.render indent level depth = i.render indent level depth
  | .leaf _ _, _, _ => rfl
  | .choice _ h c, level, depth => by
    rw [Item.unlabelled, Item.render, Item.render, inlineDivert_unlabelledIn,
      Item.renderIn_unlabelledIn c]
  | .conditional _ bs, level, depth => by
    rw [Item.unlabelled, Item.render, Item.render, Branch.renderIn_unlabelledIn bs]

theorem Branch.render_unlabelled : ∀ (b : Branch) (level : Nat),
    b.unlabelled.render indent level = b.render indent level
  | .mk _ g d c, level => by
    rw [Branch.unlabelled, Branch.render, Branch.render, Item.renderIn_unlabelledIn c]

theorem Item.renderIn_unlabelledIn : ∀ (is : List Item) (level depth : Nat),
    Item.renderIn indent level depth (Item.unlabelledIn is) = Item.renderIn indent level depth is
  | [], _, _ => rfl
  | i :: is, level, depth => by
    rw [Item.unlabelledIn, Item.renderIn, Item.renderIn, Item.render_unlabelled i,
      Item.renderIn_unlabelledIn is]

theorem Branch.renderIn_unlabelledIn : ∀ (bs : List Branch) (level : Nat),
    Branch.renderIn indent level (Branch.unlabelledIn bs) = Branch.renderIn indent level bs
  | [], _ => rfl
  | b :: bs, level => by
    rw [Branch.unlabelledIn, Branch.renderIn, Branch.renderIn, Branch.render_unlabelled b,
      Branch.renderIn_unlabelledIn bs]

end

end

theorem Knot.renderLines_plain (indent : Nat) (k : Knot) :
    k.plain.renderLines indent = k.renderLines indent := by
  have hitems : Item.renderList indent (Item.unlabelledIn k.items) = Item.renderList indent k.items :=
    Item.renderIn_unlabelledIn k.items 0 1
  change renderKnotHeader k.name :: (k.position.map Position.comment).toList ++
    Item.renderList indent (Item.unlabelledIn k.items) = _
  rw [hitems]
  rfl

namespace Document

/-- Writing passes over identities and the spelling of lines. -/
theorem render_plain (d : Document) (indent : Nat) : d.plain.render indent = d.render indent := by
  have hlines : ∀ ks : List Knot, (ks.map Knot.plain).map (Knot.renderLines indent) =
      ks.map (Knot.renderLines indent) := by
    intro ks
    rw [List.map_map]
    exact List.map_congr_left fun k _ => k.renderLines_plain indent
  have hin : ∀ r, d.plain.knotsIn r = (d.knotsIn r).map Knot.plain := by
    intro r
    rw [knotsIn, plain, List.filter_map]
    rfl
  have hregion : ∀ r, d.plain.renderRegion indent r = d.renderRegion indent r := by
    intro r
    rw [renderRegion, renderRegion, hin, hlines]
  have hfree : (d.plain.knots.filter (·.region.isNone)).map
      (fun k => (k.lineStart, [k.renderLines indent])) =
        (d.knots.filter (·.region.isNone)).map fun k => (k.lineStart, [k.renderLines indent]) := by
    rw [plain, List.filter_map, List.map_map]
    refine List.map_congr_left fun k _ => ?_
    rw [Function.comp_apply, k.renderLines_plain]
    rfl
  have hblocks : d.plain.renderBlocks indent = d.renderBlocks indent := by
    unfold renderBlocks
    rw [hfree]
    simp only [hregion]
    rfl
  unfold render renderParagraphs
  rw [hblocks]
  rfl

theorem sameStructure_plain (d e : Document) : d.plain.sameStructure e = d.sameStructure e := by
  unfold sameStructure
  change (_ && _ && _ && decide ((d.knots.map Knot.plain).length = _) &&
    ((d.knots.map Knot.plain).zip e.knots).all _) = _
  rw [List.zip_map_left, List.all_map, List.length_map]
  refine congrArg (_ && ·) (List.all_congr rfl fun x => ?_)
  change (_ && Item.sameList (Item.unlabelledIn x.1.items) x.2.items) = _
  rw [Item.sameList_unlabelledIn]
  rfl

/-! ### Documents that are written alike -/

/-- A document with the same front as another, and the same chapters. -/
structure Reprints (e d : Document) : Prop where
  externals : e.externals.map (fun x => (x.name, x.params)) =
    d.externals.map fun x => (x.name, x.params)
  inclusions : e.inclusions = d.inclusions
  initialDivert : e.initialDivert = d.initialDivert
  startPosition : e.startPosition.map Position.render = d.startPosition.map Position.render
  endPosition : e.endPosition.map Position.render = d.endPosition.map Position.render
  preamble : e.preamble = d.preamble
  chapters : ∃ cs' cs, e.ComposedOf cs' ∧ d.ComposedOf cs ∧ List.Forall₂ Chapter.Reprints cs' cs

namespace Reprints

variable {d e : Document}

theorem renderFront (h : e.Reprints d) : e.renderFront = d.renderFront := by
  have hexternals : ∀ f : Document, f.externals.map External.render =
      (f.externals.map fun x => (x.name, x.params)).map fun x =>
        "EXTERNAL " ++ x.1 ++ "(" ++ Text.join ", " x.2 ++ ")" := by
    intro f
    rw [List.map_map]
    rfl
  have hstart : e.startPosition.map (Position.nodeComment "start") =
      d.startPosition.map (Position.nodeComment "start") :=
    Position.map_eq_of_map_render h.startPosition fun coordinates => "// <# start: " ++ coordinates ++ " #>"
  have hend : e.endPosition.map (Position.nodeComment "end") =
      d.endPosition.map (Position.nodeComment "end") :=
    Position.map_eq_of_map_render h.endPosition fun coordinates => "// <# end: " ++ coordinates ++ " #>"
  unfold Document.renderFront
  rw [hexternals e, hexternals d, h.externals, h.inclusions, hstart, hend, h.preamble]

theorem render (h : e.Reprints d) (indent : Nat) : e.render indent = d.render indent := by
  obtain ⟨cs', cs, he, hd, hcs⟩ := h.chapters
  have hblocks : e.renderBlocks indent = d.renderBlocks indent := by
    rw [he.renderBlocks, hd.renderBlocks]
    clear he hd
    induction hcs with
    | nil => rfl
    | cons hc _ ih => rw [List.flatMap_cons, List.flatMap_cons, hc.paragraphs, ih]
  unfold Document.render renderParagraphs
  rw [h.renderFront, h.initialDivert, hblocks]

/-- The knots are the same one by one. -/
theorem knots (h : e.Reprints d) : List.Forall₂ Knot.Reprints e.knots d.knots := by
  obtain ⟨cs', cs, he, hd, hcs⟩ := h.chapters
  rw [he.knots, hd.knots]
  clear he hd
  induction hcs with
  | nil => exact .nil
  | @cons c' c cs' cs hc _ ih =>
    rw [List.flatMap_cons, List.flatMap_cons]
    refine List.rel_append ?_ ih
    cases hc with
    | knot hk => exact .cons hk .nil
    | region _ _ hks => exact hks

/-- The regions have the same names, and name the same knots. -/
theorem regions (h : e.Reprints d) : e.regions.map (fun r => (r.name, r.knots)) =
    d.regions.map fun r => (r.name, r.knots) := by
  obtain ⟨cs', cs, he, hd, hcs⟩ := h.chapters
  have hwhole' := he.whole
  have hwhole := hd.whole
  rw [he.regions, hd.regions]
  clear he hd
  induction hcs with
  | nil => rfl
  | @cons c' c cs' cs hc _ ih =>
    rw [List.forall_mem_cons] at hwhole hwhole'
    have hrest := ih hwhole'.2 hwhole.2
    cases hc with
    | knot _ => exact hrest
    | @region r' r ks' ks hname _ hknots =>
      have hnames : ks'.map Knot.name = ks.map Knot.name := by
        clear hwhole hwhole'
        induction hknots with
        | nil => rfl
        | cons hk _ ihk => rw [List.map_cons, List.map_cons, hk.name, ihk]
      rw [List.filterMap_cons_some (rfl : Chapter.region? (.region r' ks') = some r'),
        List.filterMap_cons_some (rfl : Chapter.region? (.region r ks) = some r), List.map_cons,
        List.map_cons, hrest, hname, hwhole'.1.1, hwhole.1.1, hnames]

theorem sameStructure (h : e.Reprints d)
    (hposition : ∀ k ∈ d.knots, ∀ p ∈ k.position, p.equal p = true) : e.sameStructure d = true := by
  have hknots : ∀ {ks ls : List Knot}, List.Forall₂ Knot.Reprints ks ls →
      (∀ l ∈ ls, ∀ p ∈ l.position, p.equal p = true) → (ks.zip ls).all (fun x =>
        x.1.name = x.2.name && samePosition x.1.position x.2.position && x.1.region = x.2.region &&
          Item.sameList x.1.items x.2.items) = true := by
    intro ks ls hall hposition
    induction hall with
    | nil => rfl
    | @cons k l ks ls hkl _ ih =>
      rw [List.forall_mem_cons] at hposition
      have hself : samePosition k.position l.position = true := by
        rw [hkl.position]
        cases hp : l.position with
        | none => rfl
        | some p => exact hposition.1 p hp
      rw [List.zip_cons_cons, List.all_cons, ih hposition.2, Bool.and_true]
      simp [hkl.name, hself, hkl.region, hkl.items]
  have hall : (e.knots.zip d.knots).all _ = true := hknots h.knots hposition
  unfold Document.sameStructure
  rw [h.initialDivert, h.externals, h.regions, h.knots.length_eq]
  simpa using hall

end Reprints

/-! ### The lines that are written -/

/-- Every line that is written for a script is read back: those of the front, those of each knot, and the
markers and positions of the regions. -/
structure Returns (d : Document) : Prop extends d.FrontReturns where
  regions : ∀ r ∈ d.regions, (Line.ofText (renderRegionStart r.name)).form = .regionStart r.name ∧
    ∀ p ∈ r.position, p.ReturnsAs p.comment .position
  knots : ∀ k ∈ d.knots, k.Restored

/-- The paragraphs of a script are those of its front and those of its chapters. -/
theorem ComposedOf.renderParagraphs {d : Document} {cs : List Chapter} (h : d.ComposedOf cs)
    (indent : Nat) : d.renderParagraphs indent =
      d.frontParagraphs ++ cs.flatMap (Chapter.paragraphs indent) := by
  rw [← h.renderBlocks]
  rfl

/-- Paragraphs with empty lines between them, up to empty lines at the top. -/
theorem exists_unlines_paragraphs (ps : List (List String)) :
    ∃ top : List String, (∀ p ∈ top, p = "") ∧ top ++ paragraphLines ps ≠ [] ∧
      unlines (ps.intersperse [""]).flatten ++ "\n" = unlines (top ++ paragraphLines ps) := by
  cases ps with
  | nil => exact ⟨["", ""], by simp, by simp, rfl⟩
  | cons p ps =>
    have hlines : ((p :: ps).intersperse [""]).flatten ++ [""] = paragraphLines (p :: ps) := by
      induction ps generalizing p with
      | nil => simp [paragraphLines]
      | cons q ps ih =>
        rw [List.intersperse_cons_cons, List.flatten_cons, List.flatten_cons, List.append_assoc,
          List.append_assoc, ih q]
        simp [paragraphLines]
    rw [← hlines]
    cases hflat : ((p :: ps).intersperse [""]).flatten with
    | nil => exact ⟨[""], by simp, by simp, rfl⟩
    | cons l ls => exact ⟨[], by simp, by simp, (unlines_concat_empty (by simp)).symm⟩

end Document

namespace ScriptState

variable {ls : List String} {u : ScriptState}

/-- Each line of the front is one line of the script. -/
theorem newline_not_mem_frontParagraphs (hu : u.SortableFront) :
    ∀ ps ∈ (u.document ls).frontParagraphs, ∀ p ∈ ps, '\n' ∉ p.toList := by
  intro ps hps p hp
  rcases List.mem_append.mp hps with hps | hps
  · have hfront : p ∈ (u.document ls).renderFront := by
      split at hps
      · simp at hps
      · rwa [List.mem_singleton.mp hps] at hp
    unfold Document.renderFront at hfront
    simp only [List.mem_append, Option.mem_toList, Option.map_eq_some_iff, List.mem_map] at hfront
    rcases hfront with (((⟨q, -, rfl⟩ | ⟨q, -, rfl⟩) | ⟨e, he, rfl⟩) | ⟨path, hpath, rfl⟩) | hkept
    · exact Line.newline_not_mem_nodeComment q (by decide)
    · exact Line.newline_not_mem_nodeComment q (by decide)
    · exact (hu.externals e (List.mem_reverse.mp he)).line
    · exact (hu.inclusions path (List.mem_reverse.mp hpath)).line
    · exact (hu.stripped p (List.mem_reverse.mp hkept)).2
  · obtain ⟨target, htarget, rfl⟩ := Option.map_eq_some_iff.mp (Option.mem_toList.mp hps)
    obtain rfl := List.mem_singleton.mp hp
    have hline := (hu.target target htarget).newline_not_mem
    simp [renderDivert, hline]

end ScriptState

/-- Each line of a knot that was read is one line of the script. -/
theorem Knot.Returns.newline_not_mem {ls : List String} (hls : ∀ s ∈ ls, '\n' ∉ s.toList) {k : Knot}
    (h : k.Returns ls) (indent : Nat) : ∀ p ∈ k.renderLines indent, '\n' ∉ p.toList := by
  obtain ⟨supply, body, hbody, hitems, -⟩ := h.from_lines
  intro p hp
  rcases List.mem_cons.mp hp with rfl | hp
  · have hname : '\n' ∉ k.name.toList := fun hmem => absurd (h.name.isWord _ hmem) (by decide)
    simp [renderKnotHeader, hname]
  · change p ∈ Body.printed indent k.position k.items at hp
    refine Body.newline_not_mem_printed (fun e he => ?_) p hp
    rw [hitems] at he
    exact Body.readable_of_mem_outlineIn supply (fun s hs => hls s (hbody s hs)) he

/-- Each line of a chapter that was read is one line of the script. -/
theorem Chapter.Returns.newline_not_mem {ls : List String} (hls : ∀ s ∈ ls, '\n' ∉ s.toList)
    {c : Chapter} (h : c.Returns ls) (hname : ∀ r ∈ c.region?, '\n' ∉ r.name.toList) (indent : Nat) :
    ∀ ps ∈ c.paragraphs indent, ∀ p ∈ ps, '\n' ∉ p.toList := by
  intro ps hps p hp
  cases c with
  | knot k =>
    rw [List.mem_singleton.mp hps] at hp
    exact Knot.Returns.newline_not_mem hls h indent p hp
  | region r ks =>
    obtain ⟨-, -, hks⟩ := h
    rcases List.mem_append.mp hps with hps | hps
    · rcases List.mem_cons.mp hps with rfl | hps
      · rcases List.mem_cons.mp hp with rfl | hp
        · have hself : r ∈ (Chapter.region r ks).region? := Option.mem_some_self r
          unfold renderRegionStart
          simp only [String.toList_append, List.mem_append, not_or]
          exact ⟨⟨by decide, hname r hself⟩, by decide⟩
        · obtain ⟨q, -, rfl⟩ := Option.map_eq_some_iff.mp (Option.mem_toList.mp hp)
          exact Line.newline_not_mem_positionComment q
      · obtain ⟨k, hk, rfl⟩ := List.mem_map.mp hps
        exact (hks k hk).newline_not_mem hls indent p hp
    · rw [List.mem_singleton.mp hps] at hp
      rw [List.mem_singleton.mp hp]
      decide

/-! ### The round trip -/

namespace ScriptState

variable {supply : Nat} {ls : List String}

/-- A line that is no comment stands for itself. -/
theorem exists_ofText_of_mem (hls : ∀ s ∈ ls, '\n' ∉ s.toList) {l : Line} (hl : l ∈ Line.ofTexts ls)
    (hcomment : l.form ≠ .comment) : ∃ s, '\n' ∉ s.toList ∧ l = Line.ofText s := by
  obtain ⟨s, hs, rfl | rfl⟩ := Line.single_of_mem_readFrom hls hl
  · exact ⟨s, hs, rfl⟩
  · exact absurd rfl hcomment

theorem isName_of_mem (hls : ∀ s ∈ ls, '\n' ∉ s.toList) {k : Knot}
    (hk : k ∈ (ofLines supply ls).knots) : IsName k.name.toList := by
  obtain ⟨l, hl, hform⟩ := exists_header_of_mem hk
  obtain ⟨s, hs, rfl⟩ := exists_ofText_of_mem hls hl (by simp [hform])
  exact Line.isName_of_header hs hform

theorem newline_not_mem_of_region (hls : ∀ s ∈ ls, '\n' ∉ s.toList) {r : Region}
    (hr : r ∈ (ofLines supply ls).regions) : '\n' ∉ r.name.toList := by
  have hmem : (r.lineStart, r.name) ∈ Line.located LineForm.regionName? (Line.ofTexts ls) := by
    rw [← (marked_ofLines supply ls).1]
    exact List.mem_map_of_mem (List.mem_reverse.mpr hr)
  obtain ⟨x, hx, hfound⟩ := List.mem_filterMap.mp hmem
  obtain ⟨name, hname, heq⟩ := Option.map_eq_some_iff.mp hfound
  obtain rfl : name = r.name := (Prod.mk.inj heq).2
  have hform : x.1.form = .regionStart r.name := by
    cases hform : x.1.form with
    | regionStart name' =>
      rw [hform] at hname
      rw [Option.some.inj hname]
    | _ => simp [hform, LineForm.regionName?] at hname
  obtain ⟨s, hs, htext⟩ := exists_ofText_of_mem hls (List.fst_mem_of_mem_zipIdx hx) (by simp [hform])
  rw [htext] at hform
  exact Line.newline_not_mem_of_regionStart hs hform

/-- What is written for each chapter of a script that returns comes back, on single lines. -/
theorem returns_of_mem (hls : ∀ s ∈ ls, '\n' ∉ s.toList) {cs : List Chapter}
    (hcs : ((ofLines supply ls).document ls).ComposedOf cs)
    (h : ((ofLines supply ls).document ls).Returns) {c : Chapter} (hc : c ∈ cs) :
    c.Returns ls ∧ ∀ r ∈ c.region?, '\n' ∉ r.name.toList := by
  have hknot : ∀ k ∈ c.knots, k.Returns ls := by
    intro k hk
    have hmem : k ∈ ((ofLines supply ls).document ls).knots := by
      rw [hcs.knots]
      exact List.mem_flatMap.mpr ⟨c, hc, hk⟩
    have hread : k ∈ (ofLines supply ls).knots := List.mem_reverse.mp hmem
    exact ⟨fromLines_of_mem hread, isName_of_mem hls hread, h.knots k hmem⟩
  have hregion : ∀ r ∈ c.region?, r ∈ ((ofLines supply ls).document ls).regions := by
    intro r hr
    rw [hcs.regions]
    exact List.mem_filterMap.mpr ⟨c, hc, hr⟩
  refine ⟨?_, fun r hr => newline_not_mem_of_region hls (List.mem_reverse.mp (hregion r hr))⟩
  cases c with
  | knot k => exact hknot k (List.mem_singleton_self k)
  | region r ks =>
    obtain ⟨hmarker, hposition⟩ := h.regions r (hregion r (Option.mem_some_self r))
    exact ⟨hmarker, hposition, hknot⟩

/-- The lines of paragraphs are single if those of each paragraph are. -/
theorem newline_not_mem_paragraphLines {pss : List (List String)}
    (h : ∀ ps ∈ pss, ∀ p ∈ ps, '\n' ∉ p.toList) : ∀ p ∈ paragraphLines pss, '\n' ∉ p.toList := by
  intro p hp
  obtain ⟨ps, hps, hp⟩ := List.mem_flatMap.mp hp
  rcases List.mem_append.mp hp with hp | hp
  · exact h ps hps p hp
  · rw [List.mem_singleton.mp hp]
    decide

/-- The lines that are written for a script that returns are single lines, and are read as the same front
and the same chapters. -/
theorem exists_reads_written (supply' indent : Nat) (hls : ∀ s ∈ ls, '\n' ∉ s.toList)
    {cs : List Chapter} (hcs : ((ofLines supply ls).document ls).ComposedOf cs)
    (h : ((ofLines supply ls).document ls).Returns) {top : List String} (htop : ∀ p ∈ top, p = "") :
    let written := top ++ paragraphLines (((ofLines supply ls).document ls).renderParagraphs indent)
    (∀ p ∈ written, '\n' ∉ p.toList) ∧ ∃ cs', List.Forall₂ Chapter.Reprints cs' cs ∧
      Reads supply' written cs' [] ∧ (ahead supply' written).region = none ∧
      (ahead supply' written).RewritesFront (ofLines supply ls) := by
  have hfront := sortableFront_ofLines supply hls
  have hback := fun c hc => returns_of_mem hls hcs h (c := c) hc
  obtain ⟨hreads, hregion, hsame⟩ := reads_frontParagraphs hfront h.toFrontReturns supply' htop
  obtain ⟨cs', hcs', hwritten, hregion', hsame'⟩ := hreads.chapters hregion hls
    (fun c hc => ⟨hcs.whole c hc, (hback c hc).1⟩) indent
  dsimp only
  rw [hcs.renderParagraphs, paragraphLines_append, ← List.append_assoc]
  refine ⟨?_, cs', hcs', hwritten, hregion', hsame.of_sameFront hsame'⟩
  rw [List.forall_mem_append, List.forall_mem_append]
  refine ⟨⟨fun p hp => ?_, ?_⟩, ?_⟩
  · rw [htop p hp]
    decide
  · exact newline_not_mem_paragraphLines (newline_not_mem_frontParagraphs hfront)
  · refine newline_not_mem_paragraphLines fun ps hps => ?_
    obtain ⟨c, hc, hps⟩ := List.mem_flatMap.mp hps
    exact (hback c hc).1.newline_not_mem hls (hback c hc).2 indent ps hps

/-- Lines that leave no region open are read to their end. -/
theorem ofLines_of_region (h : (ahead supply ls).region = none) : ofLines supply ls = ahead supply ls := by
  change (ahead supply ls).closeUnclosedRegion _ _ = _
  rw [closeUnclosedRegion, h]

theorem Reads.document {cs : List Chapter} (h : Reads supply ls cs []) (ms : List String) :
    ((ahead supply ls).document ms).ComposedOf cs :=
  Document.composedOf_of_state h.composed rfl rfl

/-- Documents with the same front and the same chapters. -/
theorem RewritesFront.reprints {s t : ScriptState} (h : s.RewritesFront t) (ms : List String)
    {cs cs' : List Chapter} (hs : (s.document ms).ComposedOf cs') (ht : (t.document ls).ComposedOf cs)
    (hcs : List.Forall₂ Chapter.Reprints cs' cs) : (s.document ms).Reprints (t.document ls) where
  externals := by
    change s.externals.reverse.map _ = t.externals.reverse.map _
    rw [List.map_reverse, List.map_reverse, h.externals]
  inclusions := congrArg List.reverse h.inclusions
  initialDivert := h.initialDivert
  startPosition := h.startPosition
  endPosition := h.endPosition
  preamble := congrArg List.reverse h.preamble
  chapters := ⟨cs', cs, hs, ht, hcs⟩

end ScriptState

/-- The coordinates of a position that was read are numbers. -/
theorem Line.equal_of_position {s : String} (hs : '\n' ∉ s.toList) {p : Position}
    (h : (ofText s).form = .position p) : p.equal p = true := by
  have hrecognised := (single_ofText hs).recognised (by simp [h]) (by simp [h])
  rw [h] at hrecognised
  exact hrecognised.2

namespace Document

/-- Documents of states that differ in identities and spelling alone differ in these alone. -/
theorem plain_document {s t : ScriptState} (h : s.plain = t.plain) (ls ms : List String) :
    (s.document ls).plain = (t.document ms).plain := by
  simp only [ScriptState.plain, ScriptState.mk.injEq] at h
  simp only [ScriptState.document, plain, List.map_reverse, h]

/-- If every line that is written for a script is read back, the lines are read as a document with the same
front and the same chapters. -/
theorem exists_reprints (supply supply' indent : Nat) (text : String)
    (h : (read supply text).1.Returns) : ∃ e : Document,
    (read supply' ((read supply text).1.render indent)).1.plain = e.plain ∧
      e.Reprints (read supply text).1 := by
  have hls : ∀ s ∈ Text.lines text, '\n' ∉ s.toList := fun s hs => newline_not_mem_lines hs
  obtain ⟨cs, hcs⟩ := exists_composedOf supply text
  rw [ScriptState.document_ofLines supply text] at h hcs ⊢
  obtain ⟨top, htop, hne, hrender⟩ := exists_unlines_paragraphs
    (((ScriptState.ofLines supply (Text.lines text)).document (Text.lines text)).renderParagraphs indent)
  obtain ⟨hsingle, cs', hcs', hwritten, hregion, hsame⟩ :=
    ScriptState.exists_reads_written supply' indent hls hcs h htop
  have hplain := ScriptState.plain_ofLines supply' supply' (map_strip_lines_unlines hne hsingle)
  rw [ScriptState.ofLines_of_region hregion] at hplain
  refine ⟨_, ?_, hsame.reprints [] (hwritten.document []) hcs hcs'⟩
  change (read supply' (unlines _ ++ "\n")).1.plain = _
  rw [hrender, ScriptState.document_ofLines]
  exact plain_document hplain _ _

/-- The positions of the knots equal themselves, since they come back from their annotations. -/
theorem Returns.equal_position {d : Document} (h : d.Returns) :
    ∀ k ∈ d.knots, ∀ p ∈ k.position, p.equal p = true := by
  intro k hk p hp
  have hline := Line.newline_not_mem_positionComment p
  exact Line.equal_of_position hline ((h.knots k hk).position p hp)

/-- The round trip: if every line that is written for a script is read back, the script that is read from
them has the same structure, and the same text is written for it. -/
theorem sameStructure_and_render_reread (supply supply' indent : Nat) (text : String)
    (h : (read supply text).1.Returns) :
    let d := (read supply text).1
    let reread := (read supply' (d.render indent)).1
    reread.sameStructure d = true ∧ reread.render indent = d.render indent := by
  obtain ⟨e, hplain, he⟩ := exists_reprints supply supply' indent text h
  dsimp only
  constructor
  · rw [← sameStructure_plain, hplain, sameStructure_plain]
    exact he.sameStructure h.equal_position
  · rw [← render_plain, hplain, render_plain]
    exact he.render indent

/-- A second divert of the front is written in front of the first, and is read as the first then. -/
theorem not_sameStructure_of_second_divert :
    let d := (read 0 "-> a\n-> b\n").1
    let reread := (read 0 (d.render 4)).1
    d.initialDivert = some "a" ∧ reread.initialDivert = some "b" ∧
      ¬ (reread.sameStructure d = true ∧ reread.render 4 = d.render 4) := by
  decide +kernel

/-- A script with a front, and a region that holds a choice and a conditional. -/
def mansion : String :=
  "// <# start: \x7b \"pos-x\": 10.0, \"pos-y\": 20.5 \x7d #>\nEXTERNAL play(sound)\nVAR lamp = 0\n-> hall\n" ++
    "// <# StartRegion: manor #>\n=== hall ===\n* [Look]\n  -> attic\n\x7b\n- lamp: Light.\n\x7d\n" ++
    "// <# EndRegion #>"

theorem sameStructure_and_render_reread_mansion :
    let d := (read 0 mansion).1
    let reread := (read 0 (d.render 2)).1
    d.Returns ∧ reread.sameStructure d = true ∧ reread.render 2 = d.render 2 := by
  intro d reread
  have hlines : ((∀ p ∈ d.startPosition, (Line.ofText (p.nodeComment "start")).form = .startPosition p) ∧
      d.endPosition = none ∧ d.preamble = ["VAR lamp = 0"]) ∧
      (∀ r ∈ d.regions, (Line.ofText (renderRegionStart r.name)).form = .regionStart r.name ∧
        ∀ p ∈ r.position, (Line.ofText p.comment).form = .position p) ∧
      ∀ k ∈ d.knots, (∀ p ∈ k.position, (Line.ofText p.comment).form = .position p) ∧
        Item.Restored k.items ∧ (∀ l ∈ Line.ofTexts (Item.printed k.items), l.form.endsKnot = false) ∧
        Line.opensBlock false (Item.printed k.items) = false := by decide +kernel
  obtain ⟨⟨hstart, hend, hkept⟩, hregions, hknots⟩ := hlines
  have hvariable : Line.ofTexts ["VAR lamp = 0"] = [⟨"VAR lamp = 0", .raw⟩] := by decide +kernel
  have hreturns : d.Returns := by
    refine ⟨⟨fun p hp => ⟨p, hstart p hp, rfl⟩, by simp [hend], ?_, ?_⟩, fun r hr => ?_, fun k hk => ?_⟩
    · rw [hkept, hvariable]
      simp
    · rw [hkept]
      decide +kernel
    · exact ⟨(hregions r hr).1, fun p hp => ⟨p, (hregions r hr).2 p hp, rfl⟩⟩
    · obtain ⟨hposition, hrestored, hinside, hclosed⟩ := hknots k hk
      exact ⟨hposition, hrestored, hinside, hclosed⟩
  exact ⟨hreturns, sameStructure_and_render_reread 0 0 2 mansion hreturns⟩

end Document

end StoryScript
