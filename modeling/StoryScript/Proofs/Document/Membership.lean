import StoryScript.Proofs.Document.Chapters

/-!
# Knots and their regions

A knot is given its region when it ends, and a region the names of its knots; which knots are written with a
region is decided by names and lines again. For a document that was read all of this agrees
(`Document.region_membership`): the regions are ranges of lines apart from each other, and the knots that
begin in a range are those that name its region, that the region lists, and that are written with it. So
the text of the document has each knot once and in its place, whether or not regions share a name or lack an
end.

The proof reads everything off the chapters of the document (`Document.exists_composedOf`); what is written
for a chapter is taken apart into `Paragraph`s.
-/

namespace StoryScript

/-- What one paragraph behind the front of a script is written for. -/
inductive Paragraph where
  | opening (region : Region)
  | knot (knot : Knot)
  | closing

namespace Paragraph

def lines (indent : Nat) : Paragraph → List String
  | opening r => renderRegionStart r.name :: (r.position.map Position.comment).toList
  | knot k => k.renderLines indent
  | closing => [renderRegionEnd]

def knot? : Paragraph → Option Knot
  | knot k => some k
  | _ => none

def region? : Paragraph → Option Region
  | opening r => some r
  | _ => none

end Paragraph

/-- The paragraphs of a chapter. The knots of a region stand between its markers. -/
def Chapter.parts : Chapter → List Paragraph
  | knot k => [.knot k]
  | region r ks => .opening r :: ks.map .knot ++ [.closing]

namespace Chapter

theorem map_lines_parts (indent : Nat) (c : Chapter) :
    c.parts.map (Paragraph.lines indent) = c.paragraphs indent := by
  cases c with
  | knot k => rfl
  | region r ks =>
    rw [parts, paragraphs, List.map_append, List.map_cons, List.map_map]
    rfl

theorem filterMap_knot?_parts (c : Chapter) : c.parts.filterMap Paragraph.knot? = c.knots := by
  cases c with
  | knot k => rfl
  | region r ks =>
    have hknots : (ks.map Paragraph.knot).filterMap Paragraph.knot? = ks := by
      rw [List.filterMap_map]
      exact List.filterMap_some
    rw [parts, List.filterMap_append, List.filterMap_cons_none rfl, hknots]
    exact List.append_nil ks

theorem filterMap_region?_parts (c : Chapter) :
    c.parts.filterMap Paragraph.region? = c.region?.toList := by
  cases c with
  | knot k => rfl
  | region r ks =>
    have hknots : (ks.map Paragraph.knot).filterMap Paragraph.region? = [] := by
      rw [List.filterMap_map]
      exact List.filterMap_none ks
    have hopening : Paragraph.region? (.opening r) = some r := rfl
    rw [parts, List.filterMap_append, List.filterMap_cons_some hopening, hknots]
    rfl

end Chapter

namespace Document.ComposedOf

variable {d : Document} {cs : List Chapter}

theorem pairwise_regions (h : d.ComposedOf cs) :
    d.regions.Pairwise fun r r' => r.lineEnd < r'.lineStart := by
  rw [h.regions, List.pairwise_filterMap]
  refine h.ordered.imp fun {c c'} hlt r hr r' hr' => ?_
  cases c with
  | knot k => simp [Chapter.region?] at hr
  | region _ _ =>
    cases c' with
    | knot k => simp [Chapter.region?] at hr'
    | region _ _ =>
      obtain rfl := Option.some.inj hr
      obtain rfl := Option.some.inj hr'
      exact hlt

theorem pairwise_knots (h : d.ComposedOf cs) :
    d.knots.Pairwise fun k k' => k.lineEnd < k'.lineStart := by
  rw [h.knots, List.pairwise_flatMap]
  refine ⟨fun c hc => (h.whole c hc).pairwise_knots, ?_⟩
  refine h.ordered.imp_of_mem fun {c c'} hc hc' hlt k hk k' hk' => ?_
  have hlast := ((h.whole c hc).knot_mem hk).2.2
  have hfirst := ((h.whole c' hc').knot_mem hk').1
  omega

/-- A region of the document is that of a chapter. -/
theorem exists_mem_of_mem_regions (h : d.ComposedOf cs) {r : Region} (hr : r ∈ d.regions) :
    ∃ ks, Chapter.region r ks ∈ cs := by
  rw [h.regions] at hr
  obtain ⟨c, hc, hregion⟩ := List.mem_filterMap.mp hr
  cases c with
  | knot k => simp [Chapter.region?] at hregion
  | region r' ks =>
    obtain rfl := Option.some.inj hregion
    exact ⟨ks, hc⟩

/-- A knot that begins in a region lies in it and names it. -/
theorem of_beginsIn (h : d.ComposedOf cs) {r : Region} (hr : r ∈ d.regions) {k : Knot}
    (hk : k ∈ d.knots) (hin : k.BeginsIn r) :
    k.region = some r.name ∧ r.lineStart < k.lineStart ∧ k.lineStart ≤ k.lineEnd ∧
      k.lineEnd ≤ r.lineEnd := by
  obtain ⟨ks, hc⟩ := h.exists_mem_of_mem_regions hr
  have hks : k ∈ ks := by
    rw [← h.filter_beginsIn hc]
    exact List.mem_filter.mpr ⟨hk, decide_eq_true hin⟩
  exact (h.whole _ hc).2.2.1 k hks

/-- A knot that begins in no region names none. -/
theorem region_eq_none (h : d.ComposedOf cs) {k : Knot} (hk : k ∈ d.knots)
    (hout : ∀ r ∈ d.regions, ¬ k.BeginsIn r) : k.region = none := by
  rw [h.knots] at hk
  obtain ⟨c, hc, hkc⟩ := List.mem_flatMap.mp hk
  have hwhole := h.whole c hc
  cases c with
  | knot k' =>
    obtain rfl := List.mem_singleton.mp hkc
    exact hwhole.1
  | region r ks =>
    have hr : r ∈ d.regions := by
      rw [h.regions]
      exact List.mem_filterMap.mpr ⟨_, hc, rfl⟩
    obtain ⟨hfirst, hself, hlast⟩ := hwhole.knot_mem hkc
    exact absurd ⟨hfirst, Nat.le_trans hself hlast⟩ (hout r hr)

theorem knots_region (h : d.ComposedOf cs) {r : Region} (hr : r ∈ d.regions) :
    r.knots = (d.knots.filter fun k => decide (k.BeginsIn r)).map Knot.name := by
  obtain ⟨ks, hc⟩ := h.exists_mem_of_mem_regions hr
  rw [h.filter_beginsIn hc]
  exact (h.whole _ hc).1

/-- What is written behind the front, paragraph by paragraph. -/
theorem exists_paragraphs (h : d.ComposedOf cs) (indent : Nat) : ∃ ps : List Paragraph,
    d.renderBlocks indent = ps.map (Paragraph.lines indent) ∧
      ps.filterMap Paragraph.knot? = d.knots ∧ ps.filterMap Paragraph.region? = d.regions := by
  refine ⟨cs.flatMap Chapter.parts, ?_, ?_, ?_⟩
  · rw [h.renderBlocks, List.map_flatMap]
    simp only [Chapter.map_lines_parts]
  · rw [h.knots, List.filterMap_flatMap]
    simp only [Chapter.filterMap_knot?_parts]
  · rw [h.regions, List.filterMap_flatMap, List.filterMap_eq_flatMap_toList]
    simp only [Chapter.filterMap_region?_parts]

end Document.ComposedOf

/-- Of the document of any text: regions follow one another; a knot that begins in a region lies in it and
names it, and one that begins in none names none; a region lists the names of the knots that begin in it;
and the text that is written for the document has behind its front one paragraph for each knot, which begins
with the header of the knot, one after the other, as it has for the regions. -/
theorem Document.region_membership (supply : Nat) (text : String) (indent : Nat) :
    let d := (Document.read supply text).1
    (∀ r ∈ d.regions, r.lineStart ≤ r.lineEnd) ∧
    (d.regions.Pairwise fun r r' => r.lineEnd < r'.lineStart) ∧
    (∀ r ∈ d.regions, ∀ k ∈ d.knots, k.BeginsIn r →
      k.region = some r.name ∧ r.lineStart < k.lineStart ∧ k.lineStart ≤ k.lineEnd ∧
        k.lineEnd ≤ r.lineEnd) ∧
    (∀ r ∈ d.regions,
      r.knots = (d.knots.filter fun k => decide (k.BeginsIn r)).map Knot.name) ∧
    (∀ k ∈ d.knots, (∀ r ∈ d.regions, ¬ k.BeginsIn r) → k.region = none) ∧
    (∀ k ∈ d.knots, ∃ body,
      (Paragraph.knot k).lines indent = ("=== " ++ k.name ++ " ===") :: body) ∧
    ∃ ps : List Paragraph,
      d.render indent = Text.unlines (((if d.renderFront.isEmpty then [] else [d.renderFront]) ++
        (d.initialDivert.map fun t => ["-> " ++ t]).toList ++
        ps.map (Paragraph.lines indent)).intersperse [""]).flatten ++ "\n" ∧
      ps.filterMap Paragraph.knot? = d.knots ∧ ps.filterMap Paragraph.region? = d.regions := by
  intro d
  obtain ⟨cs, h⟩ := exists_composedOf supply text
  refine ⟨fun r hr => ?_, h.pairwise_regions, fun r hr k hk => h.of_beginsIn hr hk,
    fun r => h.knots_region, fun k => h.region_eq_none, fun k _ => ⟨_, rfl⟩, ?_⟩
  · obtain ⟨ks, hc⟩ := h.exists_mem_of_mem_regions hr
    exact (h.whole _ hc).2.1
  · obtain ⟨ps, hblocks, hknots, hregions⟩ := h.exists_paragraphs indent
    refine ⟨ps, ?_, hknots, hregions⟩
    rw [render, renderParagraphs, hblocks]
    rfl

/-- Three regions of one name: the first lacks its end where the second starts, the last lacks it at the end
of the text. -/
def regionsRestarted : String :=
  "// <# StartRegion: r #>\n=== a ===\n// <# StartRegion: r #>\n=== a ===\n=== b ===\nHello.\n" ++
    "// <# EndRegion #>\n=== c ===\n// <# StartRegion: r #>\n=== d ==="

theorem Document.region_membership_restarted :
    let d := (Document.read 0 regionsRestarted).1
    (∃ r ∈ d.regions, ∃ k ∈ d.knots, r.lineStart = 3 ∧ k.name = "b" ∧ k.BeginsIn r ∧
      k.region = some r.name ∧ k.lineEnd ≤ r.lineEnd) ∧
    (∃ k ∈ d.knots, k.name = "c" ∧ (∀ r ∈ d.regions, ¬ k.BeginsIn r) ∧ k.region = none) ∧
    d.render 4 = "// <# StartRegion: r #>\n\n=== a ===\n\n// <# EndRegion #>\n\n" ++
      "// <# StartRegion: r #>\n\n=== a ===\n\n=== b ===\nHello.\n\n// <# EndRegion #>\n\n" ++
      "=== c ===\n\n// <# StartRegion: r #>\n\n=== d ===\n\n// <# EndRegion #>\n" ∧
    ∃ ps : List Paragraph,
      d.render 4 = Text.unlines ((ps.map (Paragraph.lines 4)).intersperse [""]).flatten ++ "\n" ∧
      (ps.filterMap Paragraph.knot?).map Knot.name = ["a", "a", "b", "c", "d"] := by
  intro d
  obtain ⟨-, -, hin, -, hout, -, ps, hrender, hknots, -⟩ := region_membership 0 regionsRestarted 4
  have hread :
      (∃ r ∈ d.regions, ∃ k ∈ d.knots, r.lineStart = 3 ∧ k.name = "b" ∧ k.BeginsIn r) ∧
      (∃ k ∈ d.knots, k.name = "c" ∧ ∀ r ∈ d.regions, ¬ k.BeginsIn r) ∧
      (d.renderFront = [] ∧ d.initialDivert = none ∧
        d.knots.map Knot.name = ["a", "a", "b", "c", "d"]) ∧
      d.regions.map (fun r => (r.lineStart, d.renderRegion 4 r)) =
        [(1, [["// <# StartRegion: r #>"], ["=== a ==="], ["// <# EndRegion #>"]]),
          (3, [["// <# StartRegion: r #>"], ["=== a ==="], ["=== b ===", "Hello."],
            ["// <# EndRegion #>"]]),
          (9, [["// <# StartRegion: r #>"], ["=== d ==="], ["// <# EndRegion #>"]])] ∧
      (d.knots.filter (·.region.isNone)).map (fun k => (k.lineStart, [k.renderLines 4])) =
        [(8, [["=== c ==="]])] := by
    decide +kernel
  obtain ⟨⟨r, hr, k, hk, hline, hname, hbegins⟩, ⟨c, hc, hname', hnone⟩,
    ⟨hempty, hinitial, hnames⟩, hregions, hfree⟩ := hread
  -- the blocks are sorted by their first lines
  have hblocks : d.renderBlocks 4 = [["// <# StartRegion: r #>"], ["=== a ==="], ["// <# EndRegion #>"],
      ["// <# StartRegion: r #>"], ["=== a ==="], ["=== b ===", "Hello."], ["// <# EndRegion #>"],
      ["=== c ==="], ["// <# StartRegion: r #>"], ["=== d ==="], ["// <# EndRegion #>"]] := by
    rw [renderBlocks, hregions, hfree]
    simp [List.mergeSort, List.MergeSort.Internal.splitInTwo]
  have htext : d.render 4 = "// <# StartRegion: r #>\n\n=== a ===\n\n// <# EndRegion #>\n\n" ++
      "// <# StartRegion: r #>\n\n=== a ===\n\n=== b ===\nHello.\n\n// <# EndRegion #>\n\n" ++
      "=== c ===\n\n// <# StartRegion: r #>\n\n=== d ===\n\n// <# EndRegion #>\n" := by
    rw [render, renderParagraphs, hblocks, hempty, hinitial]
    decide +kernel
  obtain ⟨hregion, -, -, hlast⟩ := hin r hr k hk hbegins
  rw [hempty, hinitial] at hrender
  exact ⟨⟨r, hr, k, hk, hline, hname, hbegins, hregion, hlast⟩,
    ⟨c, hc, hname', hnone, hout c hc hnone⟩, htext, ps, hrender, by rw [hknots, hnames]⟩

end StoryScript
