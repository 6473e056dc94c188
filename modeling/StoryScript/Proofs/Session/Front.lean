import StoryScript.Proofs.Document.Changes
import StoryScript.Proofs.Document.Tiling
import StoryScript.Proofs.Session.Reachable

/-!
# The front of a document

A document is cut in front of its first knot or region (`Document.IsReading.exists_front`): the lines before hold
no header and no region marker, and leave no comment open for the lines behind.

The edit of the initial divert changes lines of the front only (`Session.divertedFront`). The lines that it takes
out and puts in are diverts and empty lines. Such lines come and go without a trace in what is read behind them
(`Session.Slips`): they begin nothing, and they open no comment and close none. So the front that is edited is a
front again, and leaves the same comment open (`Session.exists_divertedFront`).
-/

namespace StoryScript

open Text

namespace Line

theorem isFront_append (ls ms : List Line) : isFront (ls ++ ms) = (isFront ls && isFront ms) := List.all_append

/-- Lines can be cut in front of the first header or region. -/
theorem exists_front (inBlock : Bool) (ls : List String) : ∃ front behind, ls = front ++ behind ∧
    isFront (readFrom inBlock front) = true ∧ (behind ≠ [] → opensBlock inBlock front = false) ∧
      ∀ p ∈ behind.head?, isFront [ofText p] = false := by
  induction ls generalizing inBlock with
  | nil => exact ⟨[], [], rfl, rfl, by simp, by simp⟩
  | cons s ls ih =>
    by_cases hs : isFront [lineIn inBlock s] = true
    · obtain ⟨front, behind, rfl, hfront, hclear, hbegins⟩ := ih (opensBehind inBlock s)
      refine ⟨s :: front, behind, rfl, ?_, ?_, hbegins⟩
      · rw [readFrom_cons, ← List.singleton_append, isFront_append, hfront, hs]
        rfl
      · rwa [opensBlock_cons]
    · -- no line of a comment ends the front
      cases inBlock with
      | true => exact absurd rfl hs
      | false =>
        refine ⟨[], s :: ls, rfl, rfl, fun _ => rfl, fun p hp => ?_⟩
        obtain rfl := Option.some.inj hp
        exact Bool.not_eq_true _ ▸ hs

/-- No header stands among lines of the front. -/
theorem ne_header_of_isFront {ls : List Line} (h : isFront ls = true) :
    ∀ l ∈ ls, ∀ name, l.form ≠ .knotHeader name := by
  intro l hl name hform
  have hline := List.all_eq_true.mp h l hl
  simp [hform, LineForm.header?] at hline

end Line

namespace Document

variable {d : Document}

/-- Knots and regions begin with the headers and markers. -/
theorem IsReading.mem_starts (h : d.IsReading) {m : Nat} :
    m ∈ d.knots.map Knot.lineStart ++ d.regions.map Region.lineStart ↔
      ∃ n l, (Line.ofTexts d.lines)[n]? = some l ∧ Line.isFront [l] = false ∧ m = n + 1 := by
  have hknots : d.knots.map Knot.lineStart =
      (Line.located LineForm.header? (Line.ofTexts d.lines)).map Prod.fst := by
    obtain ⟨supply, hread⟩ := h.knots
    have hmap := congrArg (List.map Knot.lineStart) hread
    rw [List.map_map, List.map_map] at hmap
    rw [← (ScriptState.spanned_ofLines supply d.lines).1, List.map_map]
    exact hmap
  have hregions : d.regions.map Region.lineStart =
      (Line.located LineForm.regionName? (Line.ofTexts d.lines)).map Prod.fst := by
    obtain ⟨supply, hread⟩ := h.regions
    rw [hread, ← (ScriptState.marked_ofLines supply d.lines).1, List.map_map]
    rfl
  have hmarker : ∀ l : Line, Line.isFront [l] = false ↔
      l.form.header?.isSome = true ∨ l.form.regionName?.isSome = true := by
    intro l
    rw [Line.isFront, List.all_cons, List.all_nil, Bool.and_true, Bool.and_eq_false_iff]
    simp
  -- knots are located by their headers and regions by their start markers
  rw [List.mem_append, hknots, hregions, Line.mem_map_fst_located, Line.mem_map_fst_located]
  constructor
  · rintro (⟨n, l, hl, hform, rfl⟩ | ⟨n, l, hl, hform, rfl⟩)
    · exact ⟨n, l, hl, (hmarker l).mpr (Or.inl hform), rfl⟩
    · exact ⟨n, l, hl, (hmarker l).mpr (Or.inr hform), rfl⟩
  · rintro ⟨n, l, hl, hform, rfl⟩
    rcases (hmarker l).mp hform with hform | hform
    · exact Or.inl ⟨n, l, hl, hform, rfl⟩
    · exact Or.inr ⟨n, l, hl, hform, rfl⟩

/-- The lines of a document up to the first knot or region. -/
theorem IsReading.exists_front (h : d.IsReading) : ∃ front behind, d.lines = front ++ behind ∧
    front.length = Session.frontLength d ∧ Line.isFront (Line.ofTexts front) = true ∧
      (behind ≠ [] → Line.opensBlock false front = false) ∧
        ∀ p ∈ behind.head?, Line.isFront [Line.ofText p] = false := by
  obtain ⟨front, behind, hlines, hfront, hclear, hbegins⟩ := Line.exists_front false d.lines
  refine ⟨front, behind, hlines, ?_, hfront, hclear, hbegins⟩
  have hread : Line.ofTexts d.lines = Line.ofTexts front ++
      Line.readFrom (Line.opensBlock false front) behind := by
    rw [hlines, Line.ofTexts, Line.readFrom_append]
    rfl
  -- no header or marker stands in the front
  have hafter : ∀ n l, (Line.ofTexts d.lines)[n]? = some l → Line.isFront [l] = false → front.length ≤ n := by
    intro n l hl hform
    by_contra hlt
    rw [hread, List.getElem?_append_left (by rw [Line.length_ofTexts]; omega)] at hl
    have hall := List.all_eq_true.mp hfront l (List.mem_of_getElem? hl)
    rw [Line.isFront, List.all_cons, List.all_nil, Bool.and_true, hall] at hform
    simp at hform
  -- the first line behind the front, if there is one, is the first place of all knots and regions
  unfold Session.frontLength
  cases hbehind : behind with
  | nil =>
    have hnone : d.knots.map Knot.lineStart ++ d.regions.map Region.lineStart = [] := by
      rw [List.eq_nil_iff_forall_not_mem]
      intro m hm
      obtain ⟨n, l, hl, hform, -⟩ := h.mem_starts.mp hm
      have hlt := (List.getElem?_eq_some_iff.mp hl).1
      rw [Line.length_ofTexts, hlines, hbehind, List.append_nil] at hlt
      have hle := hafter n l hl hform
      omega
    rw [hnone, hlines, hbehind, List.append_nil]
    rfl
  | cons p ps =>
    have hp : (Line.ofTexts d.lines)[front.length]? = some (Line.ofText p) := by
      rw [hread, hclear (by simp [hbehind]), hbehind, Line.readFrom_false_cons,
        List.getElem?_append_right (by rw [Line.length_ofTexts]), Line.length_ofTexts, Nat.sub_self]
      rfl
    have hmin : (d.knots.map Knot.lineStart ++ d.regions.map Region.lineStart).min? = some (front.length + 1) := by
      rw [List.min?_eq_some_iff]
      refine ⟨h.mem_starts.mpr ⟨_, _, hp, hbegins p (by rw [hbehind]; rfl), rfl⟩, fun m hm => ?_⟩
      obtain ⟨n, l, hl, hform, rfl⟩ := h.mem_starts.mp hm
      exact Nat.succ_le_succ (hafter n l hl hform)
    rw [hmin]
    rfl

end Document

namespace Session

variable {front behind before rest : List String} {old line : String} {target : Option String}

/-! ### The line that is changed -/

/-- The lines of the front with another initial divert, or with none. -/
def divertedFront (front : List String) (target : Option String) : List String :=
  match front.findIdx? isDivertLine, target with
  | some i, none => front.eraseIdx i
  | some i, some t => front.set i (renderDivert t)
  | none, some t => front ++ [renderDivert t, ""]
  | none, none => front

theorem initialDivertLines_eq {d : Document} (hlines : d.lines = front ++ behind)
    (hlength : front.length = frontLength d) (target : Option String) :
    initialDivertLines d target = divertedFront front target ++ behind := by
  unfold initialDivertLines divertedFront
  dsimp only
  rw [hlines, ← hlength, List.take_left, List.drop_left]
  cases hfound : front.findIdx? isDivertLine with
  | none =>
    cases target with
    | none => rfl
    | some t => simp
  | some i =>
    obtain ⟨hi, -⟩ := List.findIdx?_eq_some_iff_getElem.mp hfound
    cases target with
    | none => exact List.eraseIdx_append_of_lt_length hi _
    | some t => exact List.set_append_left _ _ hi

/-- The front around the line that the edit finds. -/
theorem exists_cut {i : Nat} (hfound : front.findIdx? isDivertLine = some i) :
    ∃ before old rest, front = before ++ old :: rest ∧ before.length = i ∧ isDivertLine old = true ∧
      ∀ s ∈ before, isDivertLine s = false := by
  obtain ⟨hi, hdivert, hbefore⟩ := List.findIdx?_eq_some_iff_getElem.mp hfound
  refine ⟨front.take i, front[i], front.drop (i + 1), ?_, ?_, hdivert, fun s hs => ?_⟩
  · rw [← List.drop_eq_getElem_cons hi, List.take_append_drop]
  · exact List.length_take_of_le (Nat.le_of_lt hi)
  · obtain ⟨j, hj, rfl⟩ := List.mem_take_iff_getElem.mp hs
    simpa using hbefore j (by omega)

/-- The line that is found gives way to the new divert. -/
theorem divertedFront_of_cut (hold : isDivertLine old = true) (hbefore : ∀ s ∈ before, isDivertLine s = false)
    (target : Option String) :
    divertedFront (before ++ old :: rest) target = before ++ (target.map renderDivert).toList ++ rest := by
  have hfound : (before ++ old :: rest).findIdx? isDivertLine = some before.length := by
    rw [List.findIdx?_append, List.findIdx?_eq_none_iff.mpr hbefore, List.findIdx?_cons, if_pos hold]
    simp
  unfold divertedFront
  rw [hfound]
  cases target with
  | none => simp [List.eraseIdx_append_of_length_le]
  | some t => simp [List.set_append_right]

/-- Where none is found, the new divert comes last. -/
theorem divertedFront_of_none (hfound : front.findIdx? isDivertLine = none) (target : Option String) :
    divertedFront front target = front ++ target.elim [] fun t => [renderDivert t, ""] := by
  unfold divertedFront
  rw [hfound]
  cases target with
  | none => rw [Option.elim_none, List.append_nil]
  | some t => rfl

/-! ### Lines that come and go -/

theorem form_of_isDivertLine (h : isDivertLine line = true) :
    ∃ target, (Line.ofText line).form = .divert target := by
  unfold isDivertLine at h
  split at h
  · next target hform => exact ⟨target, hform⟩
  · simp at h

/-- A line that can come and go in the front: a divert, or an empty line. -/
structure Slips (s : String) : Prop extends Line.Inert s where
  front : Line.isFront [Line.ofText s] = true
  line : '\n' ∉ s.toList

/-- A line that is a divert does nothing to the lines behind it. -/
theorem inert_of_isDivertLine {line : String} (hline : '\n' ∉ line.toList)
    (h : isDivertLine line = true) : Line.Inert line := by
  obtain ⟨target, hform⟩ := form_of_isDivertLine h
  refine ⟨by simp [hform], by simp [hform], ?_⟩
  have hstrip : '\n' ∉ stripChars line.toList := fun hmem => hline (mem_of_mem_stripChars hmem)
  obtain ⟨-, harrow⟩ : IsTarget target.toList ∧
      Line.arrowTarget? (stripChars line.toList) = some target.toList :=
    Line.recognised_of_formOf (trimmed_stripChars _) hstrip hform (by simp) (by simp)
  obtain ⟨ht, bs, ds, hcs, hbs, hds⟩ := Line.arrowTarget?_sound harrow
  -- an arrow and its target hold no star
  have hblank : ∀ {bs : List Char}, (∀ c ∈ bs, isBlank c = true) → '*' ∉ bs := fun h hmem =>
    absurd (h '*' hmem) (by decide)
  have htarget : '*' ∉ target.toList := fun hmem => by
    rcases ht.spec.2.1 '*' hmem with hword | hdot
    · exact absurd hword (by decide)
    · exact absurd hdot (by decide)
  have hstar : '*' ∉ stripChars line.toList := by
    rw [hcs]
    simp [hblank hbs, hblank hds, htarget]
  rw [Line.closesComment, ← List.append_nil (stripChars line.toList), Redirected.occursIn_append hstar]
  rfl

theorem slips_of_isDivertLine (hline : '\n' ∉ line.toList) (h : isDivertLine line = true) : Slips line := by
  obtain ⟨target, hform⟩ := form_of_isDivertLine h
  exact ⟨inert_of_isDivertLine hline h, by simp [Line.isFront, hform, LineForm.header?, LineForm.regionName?], hline⟩

theorem slips_empty : Slips "" := by
  have hform : (Line.ofText "").form = .blank := rfl
  exact ⟨⟨by simp [hform], by simp [hform], rfl⟩, by decide, by decide⟩

/-- Whatever the target, the line that is printed for a divert begins nothing. -/
theorem slips_renderDivert {t : String} (hline : '\n' ∉ t.toList)
    (h : Line.closesComment (renderDivert t) = false) : Slips (renderDivert t) := by
  obtain ⟨cs, hcs⟩ : ∃ cs, stripChars (renderDivert t).toList = '-' :: cs := by
    have hlist : (renderDivert t).toList = '-' :: '>' :: ' ' :: t.toList := by
      simp [renderDivert]
    rw [hlist, stripChars, skipBlanks_of_head (by simp; decide), Redirected.dropTrailingBlanks_cons,
      if_neg fun h => absurd h.2 (by decide)]
    exact ⟨_, rfl⟩
  have hbare : (Line.ofText (renderDivert t)).form.bare =
      if (Line.branchParts? ('-' :: cs)).isSome then .branch default "" else .raw := by
    rw [Line.ofText, hcs]
    exact Line.bare_formOf_minus cs
  refine ⟨⟨fun name hform => ?_, fun hform => ?_, h⟩, ?_, by simp [renderDivert, hline]⟩
  · rw [hform] at hbare
    split at hbare <;> simp [LineForm.bare] at hbare
  · rw [hform] at hbare
    split at hbare <;> simp [LineForm.bare] at hbare
  · cases hform : (Line.ofText (renderDivert t)).form with
    | knotHeader _ | regionStart _ =>
      rw [hform] at hbare
      split at hbare <;> simp [LineForm.bare] at hbare
    | _ => simp [Line.isFront, hform, LineForm.header?, LineForm.regionName?]

section

variable {ms : List String} (h : ∀ s ∈ ms, Slips s)
include h

/-- Lines that slip in and out of the front leave a comment open if there was one. -/
theorem opensBlock_of_slips (inBlock : Bool) :
    Line.opensBlock inBlock ms = inBlock := by
  induction ms with
  | nil => rfl
  | cons s ms ih =>
    rw [List.forall_mem_cons] at h
    rw [← List.singleton_append, Line.opensBlock_append, h.1.opensBlock_singleton, ih h.2]

theorem isFront_of_slips (inBlock : Bool) :
    Line.isFront (Line.readFrom inBlock ms) = true := by
  induction ms with
  | nil => rfl
  | cons s ms ih =>
    rw [List.forall_mem_cons] at h
    rw [h.1.readFrom_cons, Line.isFront_append, ih h.2, Bool.and_true]
    cases inBlock with
    | true => rw [Line.readFrom_true_cons]; rfl
    | false => rw [Line.readFrom_false_cons]; exact h.1.front

theorem readFrom_slips (before rest : List String) :
    Line.ofTexts (before ++ ms ++ rest) = Line.ofTexts before ++
      Line.readFrom (Line.opensBlock false before) ms ++ Line.readFrom (Line.opensBlock false before) rest := by
  rw [Line.ofTexts, Line.readFrom_append, Line.readFrom_append, Line.opensBlock_append, opensBlock_of_slips h]
  rfl

/-- No name comes or goes with them. -/
theorem namesIn_slips (hbefore : Line.isFront (Line.ofTexts before) = true) (rest : List String) :
    Line.namesIn (Line.ofTexts (before ++ ms ++ rest)) = Line.namesIn (Line.ofTexts (before ++ rest)) := by
  induction ms with
  | nil => rw [List.append_nil]
  | cons s ms ih =>
    rw [List.forall_mem_cons] at h
    rw [List.append_assoc, List.cons_append, Line.namesIn_front (Line.ne_header_of_isFront hbefore) h.1.toInert,
      ← List.append_assoc, ih h.2]

end

/-! ### The front that is edited -/

section

variable (hline : ∀ l ∈ front, '\n' ∉ l.toList) (htarget : ∀ t ∈ target, Slips (renderDivert t))
include hline htarget

/-- The front is changed in lines that come and go. -/
theorem exists_divertedFront : ∃ before out new rest, front = before ++ out ++ rest ∧
    divertedFront front target = before ++ new ++ rest ∧ (∀ s ∈ out, Slips s) ∧ ∀ s ∈ new, Slips s := by
  -- the line that is found goes out, or nothing does, and the new divert comes in its place or at the end
  cases hfound : front.findIdx? isDivertLine with
  | none =>
    refine ⟨front, [], target.elim [] fun t => [renderDivert t, ""], [], by simp, ?_, by simp, ?_⟩
    · rw [divertedFront_of_none hfound, List.append_nil]
    · cases target with
      | none => simp
      | some t => simpa using ⟨htarget t rfl, slips_empty⟩
  | some i =>
    obtain ⟨before, old, rest, rfl, -, hold, hbefore⟩ := exists_cut hfound
    refine ⟨before, [old], (target.map renderDivert).toList, rest, by simp, divertedFront_of_cut hold hbefore target,
      List.forall_mem_singleton.mpr (slips_of_isDivertLine (hline old (by simp)) hold), ?_⟩
    cases target with
    | none => simp
    | some t => simpa using htarget t rfl

theorem newline_not_mem_divertedFront : ∀ l ∈ divertedFront front target, '\n' ∉ l.toList := by
  obtain ⟨before, out, new, rest, rfl, hfront, -, hnew⟩ := exists_divertedFront hline htarget
  rw [hfront]
  simp only [List.forall_mem_append] at hline ⊢
  exact ⟨⟨hline.1.1, fun l hl => (hnew l hl).line⟩, hline.2⟩

theorem isFront_divertedFront (h : Line.isFront (Line.ofTexts front) = true) :
    Line.isFront (Line.ofTexts (divertedFront front target)) = true := by
  obtain ⟨before, out, new, rest, rfl, hfront, hout, hnew⟩ := exists_divertedFront hline htarget
  rw [readFrom_slips hout, Line.isFront_append, Line.isFront_append, Bool.and_eq_true_iff,
    Bool.and_eq_true_iff] at h
  rw [hfront, readFrom_slips hnew, Line.isFront_append, Line.isFront_append, h.1.1, h.2, isFront_of_slips hnew]
  rfl

theorem opensBlock_divertedFront :
    Line.opensBlock false (divertedFront front target) = Line.opensBlock false front := by
  obtain ⟨before, out, new, rest, rfl, hfront, hout, hnew⟩ := exists_divertedFront hline htarget
  rw [hfront]
  simp only [Line.opensBlock_append, opensBlock_of_slips hout, opensBlock_of_slips hnew]

theorem namesIn_divertedFront (h : Line.isFront (Line.ofTexts front) = true) (behind : List String) :
    Line.namesIn (Line.ofTexts (divertedFront front target ++ behind)) =
      Line.namesIn (Line.ofTexts (front ++ behind)) := by
  obtain ⟨before, out, new, rest, rfl, hfront, hout, hnew⟩ := exists_divertedFront hline htarget
  rw [readFrom_slips hout, Line.isFront_append, Line.isFront_append, Bool.and_eq_true_iff,
    Bool.and_eq_true_iff] at h
  rw [hfront, List.append_assoc (before ++ new), namesIn_slips hnew h.1.1, List.append_assoc (before ++ out),
    namesIn_slips hout h.1.1]

end

end Session

end StoryScript
