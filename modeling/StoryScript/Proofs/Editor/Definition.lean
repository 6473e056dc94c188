import StoryScript.Editor.Workspace
import StoryScript.Proofs.Document.Arrows
import StoryScript.Proofs.Document.Links
import StoryScript.Proofs.Document.Ranges
import StoryScript.Proofs.Document.Target
import StoryScript.Proofs.Editor.Arrows
import StoryScript.Proofs.Line.Written

/-!
# Where a divert leads in an editor

An editor looks for the divert under the cursor on the lines of the present text, and for its target in the
document that is read from it. Both find what the reader found: every divert of a knot is written at the end
of a line (`Line.exists_ends_of_mem_chain`), there the cursor finds it (`divertAt?_toArrow`), and a target
leads to the knot or the stitch that it resolves to (`Document.definitionAt?_read`). A stitch that is named
without its knot leads nowhere, though it resolves (`Document.not_definitionAt?_of_bare_stitch`).
-/

namespace StoryScript

open Text

/-! ### The lines of a text -/

/-- An editor keeps the carriage return of a line break, a script drops it. -/
theorem Text.forall₂_splitAt_dropCarriageReturns (cs : List Char) :
    List.Forall₂ (fun x y => ∃ cr, x = y ++ cr ∧ ∀ c ∈ cr, isBlank c = true)
      (splitAt '\n' cs) (splitAt '\n' (dropCarriageReturns cs)) := by
  induction cs using dropCarriageReturns.induct with
  | case1 cs ih =>
    have hleft : splitAt '\n' ('\r' :: '\n' :: cs) = ['\r'] :: splitAt '\n' cs :=
      splitAt_append '\n' (p := ['\r']) (by decide) cs
    have hright : splitAt '\n' (dropCarriageReturns ('\r' :: '\n' :: cs)) =
        [] :: splitAt '\n' (dropCarriageReturns cs) := rfl
    rw [hleft, hright]
    exact .cons ⟨['\r'], rfl, List.forall_mem_singleton.mpr (by decide)⟩ ih
  | case2 c cs hcs ih =>
    rw [dropCarriageReturns.eq_2 c cs hcs, splitAt, splitAt]
    split
    · exact .cons ⟨[], rfl, by simp⟩ ih
    · generalize splitAt '\n' cs = xs, splitAt '\n' (dropCarriageReturns cs) = ys at ih ⊢
      cases ih with
      | nil => exact .cons ⟨[], rfl, by simp⟩ .nil
      | cons h hrest =>
        obtain ⟨cr, rfl, hcr⟩ := h
        exact .cons ⟨cr, rfl, hcr⟩ hrest
  | case3 => exact .cons ⟨[], rfl, by simp⟩ .nil

/-- A line of a script as an editor has it. -/
theorem Text.exists_splitAt_of_lines {text p : String} {n : Nat} (h : (lines text)[n]? = some p) :
    ∃ cr, (splitAt '\n' text.toList)[n]? = some (p.toList ++ cr) ∧ ∀ c ∈ cr, isBlank c = true := by
  rw [lines, List.getElem?_map, Option.map_eq_some_iff] at h
  obtain ⟨y, hy, rfl⟩ := h
  have hlines := forall₂_splitAt_dropCarriageReturns text.toList
  obtain ⟨hn, hy⟩ := List.getElem?_eq_some_iff.mp hy
  have hn' : n < (splitAt '\n' text.toList).length := hlines.length_eq ▸ hn
  obtain ⟨cr, hx, hcr⟩ := hlines.get hn' hn
  refine ⟨cr, ?_, hcr⟩
  rw [List.getElem?_eq_getElem hn', String.toList_ofList, ← hy]
  exact congrArg some hx

namespace Line

variable {ls : List String} {n : Nat} {l : Line}

/-- A line was read from its text, or it is in a comment. -/
theorem exists_of_getElem?_readFrom {inBlock : Bool} (h : (readFrom inBlock ls)[n]? = some l) :
    ∃ p, ls[n]? = some p ∧ (l = ofText p ∨ l = insideComment p) := by
  induction ls generalizing inBlock n with
  | nil => simp [readFrom] at h
  | cons p ls ih =>
    rw [readFrom_cons] at h
    cases n with
    | zero =>
      obtain rfl := Option.some.inj h
      exact ⟨p, rfl, lineIn_cases inBlock p⟩
    | succ n => exact ih h

/-- The arrows that are written on lines, each in the chain of its line. -/
theorem mem_arrows {m : Nat} {ms : List Line} {t : String} : (n, t) ∈ arrows m ms ↔
    ∃ i l, ms[i]? = some l ∧ n = m + i ∧ ∃ l' ∈ l.chain, l'.form.divert? = some t := by
  induction ms generalizing m with
  | nil => simp [arrows]
  | cons l ms ih =>
    rw [arrows, List.mem_append, ih, List.mem_map]
    constructor
    · rintro (⟨t', ht, heq⟩ | ⟨i, l', hi, rfl, hl'⟩)
      · obtain ⟨rfl, rfl⟩ := Prod.mk.inj heq
        exact ⟨0, l, rfl, rfl, List.mem_filterMap.mp ht⟩
      · exact ⟨i + 1, l', hi, by omega, hl'⟩
    · rintro ⟨i, l', hi, rfl, hl'⟩
      cases i with
      | zero =>
        obtain rfl := Option.some.inj hi
        exact Or.inl ⟨t, List.mem_filterMap.mpr hl', rfl⟩
      | succ i => exact Or.inr ⟨i, l', hi, by omega, hl'⟩

end Line

/-! ### The diverts of a knot -/

/-- Every reference to a divert is written in the body of the knot. -/
theorem Knot.Spans.exists_arrow {ls : List String} {k : Knot} (h : k.Spans ls) {r : DivertRef}
    (hr : r ∈ k.divertRefs) : ∃ n, (n, r.target) ∈ Line.arrows k.lineStart (k.linesIn ls) := by
  obtain ⟨supply, hitems, -⟩ := h.body
  have hlines : k.linesIn ls = Line.ofTexts ((ls.take k.lineEnd).drop k.lineStart) := h.ofTexts_body.symm
  generalize (ls.take k.lineEnd).drop k.lineStart = body at hitems hlines
  have hsound := (BodyState.start_quiet supply).sound (branchFirst (Body.content (Line.ofTexts body)))
  -- the reference comes from a divert of the tree, the divert from an act, and the act from a line
  have htree : r.target ∈ Item.divertTargetsIn k.items := by
    have htargets := Item.targets_divertRefsIn k.lineStart 0 .standalone k.items
    rw [← Item.targets_divertRefsIn 0 0 .standalone k.items] at htargets
    rw [Item.divertTargetsIn, ← htargets]
    exact List.mem_map_of_mem hr
  rw [hitems] at htree
  have hact := (Body.perm_diverts_read supply body).subset htree
  rw [Body.captures, ← BodyState.diverts_ofLines _ _ hsound,
    ← Act.map_snd_located _ (Body.skipped (Line.ofTexts body)), List.flatMap_map] at hact
  obtain ⟨⟨n, a⟩, ha, hdivert⟩ := List.mem_flatMap.mp hact
  have hlocated : (n, r.target) ∈ Act.arrows (Act.located [] (Body.skipped (Line.ofTexts body))
      (Body.content (Line.ofTexts body))) :=
    List.mem_flatMap.mpr ⟨(n, a), ha, List.mem_map_of_mem hdivert⟩
  have hwritten := (Act.arrows_located_sublist [] _ _).subset hlocated
  have hdrop := Line.arrows_drop_sublist 0 (Body.skipped (Line.ofTexts body)) (Line.ofTexts body)
  rw [Nat.zero_add] at hdrop
  have hshift := Line.map_arrows k.lineStart 0 (Line.ofTexts body)
  rw [Nat.add_zero] at hshift
  rw [hlines, ← hshift]
  exact ⟨_, List.mem_map_of_mem (hdrop.subset hwritten)⟩

/-- An arrow of a knot as an editor has its line. -/
theorem Knot.exists_ends {text : String} {k : Knot} {n : Nat} {t : String}
    (h : (n, t) ∈ Line.arrows k.lineStart (k.linesIn (lines text))) : IsTarget t.toList ∧
      ∃ x, (splitAt '\n' text.toList)[n]? = some x ∧ ∃ f bs ds, Line.Ends f bs t.toList ds x := by
  obtain ⟨i, l, hi, rfl, l', hl', hdivert⟩ := Line.mem_arrows.mp h
  rw [Knot.linesIn, List.getElem?_drop, List.getElem?_take] at hi
  split at hi
  case isFalse => simp at hi
  case isTrue =>
  obtain ⟨p, hp, rfl | rfl⟩ := Line.exists_of_getElem?_readFrom hi
  · have hline : '\n' ∉ p.toList := newline_not_mem_lines (List.mem_of_getElem? hp)
    obtain ⟨ht, f, bs, ds, hends⟩ := Line.exists_ends_of_mem_chain hline hl' hdivert
    obtain ⟨cr, hx, hcr⟩ := exists_splitAt_of_lines hp
    refine ⟨ht, _, hx, f, bs, ds ++ cr, ?_, hends.between, fun c hc => ?_⟩
    · rw [hends.text]
      simp [Line.toArrow]
    · exact (List.mem_append.mp hc).elim (hends.behind c) (hcr c)
  · -- a line in a comment is no divert
    rw [Line.chain_of_not_branch (by simp [Line.insideComment]), List.mem_singleton] at hl'
    rw [hl'] at hdivert
    simp [Line.insideComment, LineForm.divert?] at hdivert

/-! ### Targets -/

/-- The first knot of a name is the visible one. -/
theorem ScriptState.Flagged.find?_eq {ks : List Knot} (h : Flagged ks) (name : String) :
    ks.reverse.find? (·.name = name) = (ks.reverse.filter (!·.duplicate)).find? (·.name = name) := by
  induction ks with
  | nil => rfl
  | cons k ks ih =>
    rw [List.reverse_cons, List.find?_append, List.filter_append, List.find?_append, ← ih h.2]
    cases hfound : ks.reverse.find? (·.name = name) with
    | some k' => rfl
    | none =>
      cases hmark : k.duplicate with
      | false => simp [hmark]
      | true =>
        -- a duplicate has the name of an earlier knot
        have hname : k.name ≠ name := by
          rintro rfl
          have hany := h.1
          rw [hmark, eq_comm, List.any_eq_true] at hany
          obtain ⟨k', hk', hsame⟩ := hany
          have hnone := List.find?_eq_none.mp hfound k' (List.mem_reverse.mpr hk')
          simp_all
        simp [hmark, hname]

namespace Document

theorem findKnot?_eq_visibleKnot? (supply : Nat) (text : String) (name : String) :
    (read supply text).1.findKnot? name = (read supply text).1.visibleKnot? name := by
  rw [findKnot?, visibleKnot?, visibleKnots, read_eq]
  exact (ScriptState.flagged_ofLines supply (Text.lines text)).find?_eq name

end Document

/-- The line of the first stitch of a name. -/
theorem Knot.Spans.stitchLine? {ls : List String} {k : Knot} (h : k.Spans ls) {s : String}
    (hs : s ∈ k.stitches) : ∃ i span, k.items.find? (fun i => i.stitchName? = some s) = some i ∧
      i.mark.linesFrom k.lineStart = some span ∧ k.stitchLine? s = some span.first := by
  have hfind : k.stitchLine? s = (k.items.find? fun i => i.stitchName? = some s).bind fun i =>
      (k.lineRange i.id).map Span.first := by
    unfold Knot.stitchLine?
    congr 2
    funext i
    cases i with
    | leaf m leaf => cases leaf <;> simp [Item.stitchName?]
    | _ => simp [Item.stitchName?]
  have hsome : (k.items.find? fun i => i.stitchName? = some s).isSome = true := by
    rw [List.find?_isSome]
    obtain ⟨i, hi, hname⟩ := List.mem_filterMap.mp hs
    exact ⟨i, hi, by simpa using hname⟩
  obtain ⟨i, hi⟩ := Option.isSome_iff_exists.mp hsome
  obtain ⟨span, hlines, hrange⟩ :=
    h.exists_linesFrom (Item.item_mem_nodesIn (List.mem_of_find?_eq_some hi))
  refine ⟨i, span, hi, hlines, ?_⟩
  rw [hfind, hi, Option.bind_some, show k.lineRange i.id = some span from hrange]
  rfl

/-- The answer for the divert under the cursor, if there is one. -/
theorem definitionAt?_of_target {text t : String} {n column : Nat} {x : List Char}
    (hx : (splitAt '\n' text.toList)[n]? = some x)
    (ht : (divertAt? (String.ofList x) column).map ArrowMatch.target = some t) :
    definitionAt? text n column = ((Document.read 0 text).1.definitionLine? t).map (· - 1) := by
  obtain ⟨m, hm, rfl⟩ := Option.map_eq_some_iff.mp ht
  have hdivert : divertIn? text n column = some m := by rw [divertIn?, hx, Option.bind_some, hm]
  rw [definitionAt?, hdivert]
  rfl

namespace Document

/-- Where an editor leads from a divert of a knot. The divert is written at the end of its line, and the
cursor stands on the arrow or on the target. Where the target names a knot, the answer is the line of its
header, and where it names a stitch with its knot, the line of the first stitch of that name. There is no
answer for a stitch that is named without its knot. A cursor at the front of the arrow may stand at the end of
another one, which is then taken instead. -/
theorem definitionAt?_read (text : String) :
    ∀ k ∈ (read 0 text).1.visibleKnots,
      (∀ r ∈ k.divertRefs, ∃ n,
        (n, r.target) ∈ Line.arrows k.lineStart (k.linesIn (Text.lines text))) ∧
      ∀ n t, (n, t) ∈ Line.arrows k.lineStart (k.linesIn (Text.lines text)) →
        ∃ x, (splitAt '\n' text.toList)[n]? = some x ∧ (∃ f bs ds, Line.Ends f bs t.toList ds x) ∧
          ∀ f bs ds, Line.Ends f bs t.toList ds x →
          ∀ column, f.length ≤ column → column ≤ f.length + 2 + bs.length + t.length →
            (∀ m ∈ arrows (String.ofList f), m.stop ≠ column) →
            (∀ name, (read 0 text).1.resolve? (some k.name) t = some (name, none) →
              ∃ l, (read 0 text).1.visibleKnot? name = some l ∧
                definitionAt? text n column = some (l.lineStart - 1)) ∧
            ∀ name s, (read 0 text).1.resolve? (some k.name) t = some (name, some s) →
              if stitchPart? t = none then definitionAt? text n column = none
              else ∃ l i span, (read 0 text).1.visibleKnot? name = some l ∧
                l.items.find? (fun i => i.stitchName? = some s) = some i ∧
                i.mark.linesFrom l.lineStart = some span ∧
                definitionAt? text n column = some (span.first - 1) := by
  intro k hk
  have hspans : ∀ k ∈ (read 0 text).1.visibleKnots, k.Spans (Text.lines text) := fun k hk =>
    spans_of_mem_knots (List.mem_of_mem_filter hk)
  refine ⟨fun r hr => (hspans k hk).exists_arrow hr, fun n t hn => ?_⟩
  obtain ⟨ht, x, hx, hwritten⟩ := Knot.exists_ends hn
  refine ⟨x, hx, hwritten, fun f bs ds hends column hstart hstop hfree => ?_⟩
  have htarget := divertAt?_toArrow ht hends.between hends.behind hstart
    (by rwa [String.length_toList]) hfree
  rw [← hends.text, String.ofList_toList] at htarget
  rw [definitionAt?_of_target hx htarget, definitionLine?, findKnot?_eq_visibleKnot?]
  -- of the three things that a target can mean, the editor looks for the first two
  refine ⟨fun name hresolve => ?_, fun name s hresolve => ?_⟩
  · obtain ⟨-, hmeans⟩ := resolve?_eq_some_iff.mp hresolve
    cases hmeans with
    | @knot l hs hl =>
      rw [hs, knotPart_of_stitchPart? hs, hl]
      exact ⟨l, rfl, rfl⟩
  · obtain ⟨-, hmeans⟩ := resolve?_eq_some_iff.mp hresolve
    cases hmeans with
    | @named l _ hs hl hmem =>
      obtain ⟨i, span, hi, hspan, hline⟩ := (hspans l (List.mem_of_find?_eq_some hl)).stitchLine? hmem
      rw [hs, if_neg (by simp), hl]
      exact ⟨l, i, span, rfl, hi, hspan, by simp [hline]⟩
    | own hs hnone _ _ =>
      rw [if_pos hs, knotPart_of_stitchPart? hs, hnone]
      rfl

/-- The divert of a choice leads to the stitch that it names. -/
theorem definitionAt?_read_gate :
    let text := "=== inn ===\n* [Go] -> yard.gate\n=== yard ===\nhi\n= gate\n= gate\n"
    (read 0 text).1.resolve? (some "inn") "yard.gate" = some ("yard", some "gate") ∧
      ∃ l i span, (read 0 text).1.visibleKnot? "yard" = some l ∧
        l.items.find? (fun i => i.stitchName? = some "gate") = some i ∧
        i.mark.linesFrom l.lineStart = some span ∧ definitionAt? text 1 8 = some (span.first - 1) := by
  intro text
  have hresolve : (read 0 text).1.resolve? (some "inn") "yard.gate" = some ("yard", some "gate") := by
    decide +kernel
  have hk : ∃ k ∈ (read 0 text).1.visibleKnots, k.name = "inn" ∧
      (1, "yard.gate") ∈ Line.arrows k.lineStart (k.linesIn (Text.lines text)) := by decide +kernel
  obtain ⟨k, hk, hname, harrow⟩ := hk
  obtain ⟨x, hx, -, hleads⟩ := (definitionAt?_read text k hk).2 1 "yard.gate" harrow
  have hline : (splitAt '\n' text.toList)[1]? = some "* [Go] -> yard.gate".toList := by decide +kernel
  obtain rfl := Option.some.inj (hline.symm.trans hx)
  have hends : Line.Ends "* [Go] ".toList [' '] "yard.gate".toList [] "* [Go] -> yard.gate".toList :=
    ⟨by decide +kernel, List.forall_mem_singleton.mpr (by decide +kernel), by simp⟩
  obtain ⟨-, hstitch⟩ := hleads _ _ _ hends 8 (by decide +kernel) (by decide +kernel) (by decide +kernel)
  have hanswer := hstitch "yard" "gate" (hname ▸ hresolve)
  rw [if_neg (by decide +kernel)] at hanswer
  exact ⟨hresolve, hanswer⟩

/-- A stitch of the same knot can be named alone, but then an editor does not find it. -/
theorem not_definitionAt?_of_bare_stitch :
    let text := "=== a ===\n-> s\n= s\nhi\n"
    (read 0 text).1.resolve? (some "a") "s" = some ("a", some "s") ∧
      definitionAt? text 1 3 = none := by
  decide +kernel

end Document

end StoryScript
