import StoryScript.Session.Names
import StoryScript.Proofs.Body.Stitches
import StoryScript.Proofs.Document.Section

/-!
# The names in a script

The names of the knots of a script, and of the stitches of each, can be read off its lines without
building a tree (`Line.namesIn`, `ScriptState.names_ofLines`). Names so read are put together like lines:
those of a script that is cut where a knot ends are those of its parts (`Line.namesIn_append`,
`Line.namesIn_around`), and blank lines at its end count for nothing.

Raw lines are checked before they are written into a script (`checkLines`). The check goes by the headers
alone; it foresees every name that is read from the lines if none of them hides a stitch behind the label
of a branch (`Line.Foresees`, `Line.foresees_of_checkLines`).
-/

namespace StoryScript

open Text

/-! ### Unique names -/

/-- The name of a knot and those of its stitches. -/
def Knot.names (k : Knot) : String × List String := (k.name, k.stitches)

/-- No two knots have the same name, and no two stitches of one knot. -/
structure UniqueNames (names : List (String × List String)) : Prop where
  knots : (names.map Prod.fst).Nodup
  stitches : ∀ x ∈ names, x.2.Nodup

theorem uniqueNames_iff {names : List (String × List String)} : UniqueNames names ↔
    (names.map Prod.fst).Nodup ∧ ∀ x ∈ names, x.2.Nodup :=
  ⟨fun h => ⟨h.knots, h.stitches⟩, fun h => ⟨h.1, h.2⟩⟩

instance (names : List (String × List String)) : Decidable (UniqueNames names) :=
  decidable_of_iff _ uniqueNames_iff.symm

namespace UniqueNames

variable {front mid behind names : List (String × List String)}

/-- Some of the names, in the same order. -/
theorem sublist (h : UniqueNames names) (hsub : front.Sublist names) : UniqueNames front :=
  ⟨h.knots.sublist (hsub.map _), fun x hx => h.stitches x (hsub.subset hx)⟩

/-- Names can be put among others if they are none of them. -/
theorem insert (h : UniqueNames (front ++ behind)) (hmid : UniqueNames mid)
    (hnew : ∀ x ∈ mid, x.1 ∉ (front ++ behind).map Prod.fst) :
    UniqueNames (front ++ mid ++ behind) := by
  have hperm : (front ++ mid ++ behind).Perm (mid ++ (front ++ behind)) := by
    rw [← List.append_assoc]
    exact List.perm_append_comm.append_right behind
  refine ⟨(hperm.map Prod.fst).nodup_iff.mpr ?_, fun x hx => ?_⟩
  · rw [List.map_append]
    refine List.Nodup.append hmid.knots h.knots fun name hname hold => ?_
    obtain ⟨x, hx, rfl⟩ := List.mem_map.mp hname
    exact hnew x hx hold
  · rcases List.mem_append.mp (hperm.subset hx) with hx | hx
    · exact hmid.stitches x hx
    · exact h.stitches x hx

/-- One entry can be exchanged for another with the same or a new name. -/
theorem exchange {x y : String × List String} (h : UniqueNames (front ++ x :: behind))
    (hname : y.1 = x.1 ∨ y.1 ∉ (front ++ x :: behind).map Prod.fst) (hstitches : y.2.Nodup) :
    UniqueNames (front ++ y :: behind) := by
  have hrest : UniqueNames (front ++ behind) :=
    h.sublist ((List.Sublist.refl front).append (List.sublist_cons_self x behind))
  have hsingle : UniqueNames [y] := ⟨List.nodup_singleton _, by simpa using hstitches⟩
  have hinsert := hrest.insert hsingle ?_
  · simpa using hinsert
  · intro z hz
    obtain rfl : z = y := by simpa using hz
    rcases hname with hname | hname
    · have hknots := h.knots
      rw [List.map_append, List.map_cons, List.perm_middle.nodup_iff, List.nodup_cons,
        ← List.map_append] at hknots
      rw [hname]
      exact hknots.1
    · rw [List.map_append, List.map_cons, List.mem_append, List.mem_cons] at hname
      rw [List.map_append, List.mem_append]
      tauto

end UniqueNames

/-! ### The names of lines -/

namespace Line

/-- The names of the knots that lines hold, each with the names of its stitches. -/
def namesIn : List Line → List (String × List String)
  | [] => []
  | l :: ls =>
    match l.form with
    | .knotHeader name => (name, stitchesIn (section_ ls)) :: namesIn ls
    | _ => namesIn ls

@[simp] theorem namesIn_nil : namesIn [] = [] := rfl

theorem namesIn_cons_of_header {l : Line} {name : String} (ls : List Line)
    (h : l.form = .knotHeader name) :
    namesIn (l :: ls) = (name, stitchesIn (section_ ls)) :: namesIn ls := by
  simp only [namesIn, h]

theorem namesIn_cons_of_ne {l : Line} (ls : List Line) (h : ∀ name, l.form ≠ .knotHeader name) :
    namesIn (l :: ls) = namesIn ls := by
  rw [namesIn]
  split
  · next name hform => exact absurd hform (h name)
  · rfl

/-- A knot ends in front of a line that ends it. -/
theorem section_append (ls : List Line) {ms : List Line}
    (h : ∀ m ∈ ms.head?, m.form.endsKnot = true) : section_ (ls ++ ms) = section_ ls := by
  induction ls with
  | nil =>
    cases ms with
    | nil => rfl
    | cons m ms => exact section_cons_of_endsKnot (h m rfl)
  | cons l ls ih =>
    rw [List.cons_append]
    cases hends : l.form.endsKnot with
    | true => rw [section_cons_of_endsKnot hends, section_cons_of_endsKnot hends]
    | false => rw [section_cons hends, section_cons hends, ih]

/-- The names of lines that are cut where a knot ends are those of both parts. -/
theorem namesIn_append (ls : List Line) {ms : List Line}
    (h : ∀ m ∈ ms.head?, m.form.endsKnot = true) :
    namesIn (ls ++ ms) = namesIn ls ++ namesIn ms := by
  induction ls with
  | nil => rfl
  | cons l ls ih =>
    rw [List.cons_append]
    by_cases hheader : ∃ name, l.form = .knotHeader name
    · obtain ⟨name, hform⟩ := hheader
      rw [namesIn_cons_of_header _ hform, namesIn_cons_of_header _ hform, section_append ls h, ih,
        List.cons_append]
    · rw [namesIn_cons_of_ne _ fun name hform => hheader ⟨name, hform⟩,
        namesIn_cons_of_ne _ fun name hform => hheader ⟨name, hform⟩, ih]

/-- Lines in front of the first header hold no name. -/
theorem namesIn_append_of_ne {ls : List Line} (h : ∀ l ∈ ls, ∀ name, l.form ≠ .knotHeader name)
    (ms : List Line) : namesIn (ls ++ ms) = namesIn ms := by
  induction ls with
  | nil => rfl
  | cons l ls ih =>
    rw [List.forall_mem_cons] at h
    rw [List.cons_append, namesIn_cons_of_ne _ h.1, ih h.2]

/-- The names of knots do not depend on where lines are cut. -/
theorem map_fst_namesIn_append (ls ms : List Line) : (namesIn (ls ++ ms)).map Prod.fst =
    (namesIn ls).map Prod.fst ++ (namesIn ms).map Prod.fst := by
  induction ls with
  | nil => rfl
  | cons l ls ih =>
    rw [List.cons_append]
    by_cases hheader : ∃ name, l.form = .knotHeader name
    · obtain ⟨name, hform⟩ := hheader
      rw [namesIn_cons_of_header _ hform, namesIn_cons_of_header _ hform, List.map_cons,
        List.map_cons, ih, List.cons_append]
    · rw [namesIn_cons_of_ne _ fun name hform => hheader ⟨name, hform⟩,
        namesIn_cons_of_ne _ fun name hform => hheader ⟨name, hform⟩, ih]

/-- A name is that of a header. -/
theorem mem_map_fst_namesIn {ls : List Line} {name : String} :
    name ∈ (namesIn ls).map Prod.fst ↔ ∃ l ∈ ls, l.form = .knotHeader name := by
  induction ls with
  | nil => simp
  | cons l ls ih =>
    simp only [List.mem_cons, exists_eq_or_imp]
    by_cases hheader : ∃ name, l.form = .knotHeader name
    · obtain ⟨other, hform⟩ := hheader
      rw [namesIn_cons_of_header _ hform, List.map_cons, List.mem_cons, ih, hform,
        LineForm.knotHeader.injEq, eq_comm]
    · rw [namesIn_cons_of_ne _ fun name hform => hheader ⟨name, hform⟩, ih]
      exact ⟨Or.inr, fun h => h.resolve_left fun hform => hheader ⟨name, hform⟩⟩

theorem stitchesIn_section_append_of_isBlank (ls : List Line) {bs : List Line}
    (h : ∀ l ∈ bs, l.form.isBlank = true) : stitchesIn (section_ (ls ++ bs)) = stitchesIn (section_ ls) := by
  by_cases hends : ∃ l ∈ ls, l.form.endsKnot = true
  · -- the section ends before the blank lines
    obtain ⟨l, hl, hends⟩ := hends
    obtain ⟨before, after, rfl⟩ := List.append_of_mem hl
    rw [List.append_assoc, List.cons_append, section_append before (by simpa using hends),
      section_append before (by simpa using hends)]
  · have hall : ∀ l ∈ ls, (!l.form.endsKnot) = true := by
      intro l hl
      by_contra hl'
      exact hends ⟨l, hl, by simpa using hl'⟩
    have hblank : ∀ l ∈ bs, (!l.form.endsKnot) = true := by
      intro l hl
      rw [LineForm.endsKnot_of_isBlank (h l hl)]
      rfl
    have hself : ∀ ms : List Line, (∀ l ∈ ms, (!l.form.endsKnot) = true) → section_ ms = ms :=
      fun ms hms => List.takeWhile_eq_self_iff.mpr hms
    rw [hself (ls ++ bs) (List.forall_mem_append.mpr ⟨hall, hblank⟩), hself ls hall,
      stitchesIn_append_of_isBlank ls h]

/-- Blank lines at the end hold no name. -/
theorem namesIn_append_of_isBlank (ls : List Line) {bs : List Line}
    (h : ∀ l ∈ bs, l.form.isBlank = true) : namesIn (ls ++ bs) = namesIn ls := by
  have hnames : namesIn bs = [] := by
    rw [← List.append_nil bs]
    refine namesIn_append_of_ne (fun l hl name hform => ?_) []
    have hblank := h l hl
    simp [hform, LineForm.isBlank] at hblank
  induction ls with
  | nil => rw [List.nil_append, hnames, namesIn_nil]
  | cons l ls ih =>
    rw [List.cons_append]
    by_cases hheader : ∃ name, l.form = .knotHeader name
    · obtain ⟨name, hform⟩ := hheader
      rw [namesIn_cons_of_header _ hform, namesIn_cons_of_header _ hform,
        stitchesIn_section_append_of_isBlank _ h, ih]
    · rw [namesIn_cons_of_ne _ fun name hform => hheader ⟨name, hform⟩,
        namesIn_cons_of_ne _ fun name hform => hheader ⟨name, hform⟩, ih]

/-- The lines of one knot. -/
theorem namesIn_cons_of_inside {l : Line} {name : String} {ls : List Line}
    (h : l.form = .knotHeader name) (hinside : ∀ m ∈ ls, m.form.endsKnot = false) :
    namesIn (l :: ls) = [(name, stitchesIn ls)] := by
  have hsection : section_ ls = ls :=
    List.takeWhile_eq_self_iff.mpr fun m hm => by simp [hinside m hm]
  have hnames : namesIn ls = [] := by
    rw [← List.append_nil ls]
    refine namesIn_append_of_ne (fun m hm name hform => ?_) []
    have hends := hinside m hm
    simp [hform, LineForm.endsKnot] at hends
  rw [namesIn_cons_of_header _ h, hsection, hnames]

theorem head?_ofTexts {ls : List String} (h : ∀ p ∈ ls.head?, (ofText p).form.endsKnot = true) :
    ∀ m ∈ (ofTexts ls).head?, m.form.endsKnot = true := by
  cases ls with
  | nil => simp [ofTexts, readFrom]
  | cons p ps =>
    rw [ofTexts, readFrom_false_cons]
    simpa using h

/-- The names around a knot. -/
theorem namesIn_around {name header : String} {front body behind : List String}
    (h : AroundKnot name front header body behind) :
    namesIn (ofTexts (front ++ header :: (body ++ behind))) = namesIn (ofTexts front) ++
      (name, stitchesIn (ofTexts body)) :: namesIn (ofTexts behind) := by
  have hheader : ∀ ms : List Line, ∀ m ∈ (ofText header :: ms).head?, m.form.endsKnot = true := by
    intro ms m hm
    rw [List.head?_cons, Option.mem_some_iff] at hm
    rw [← hm, h.opens]
    rfl
  have hknot : namesIn (ofText header :: ofTexts body) = [(name, stitchesIn (ofTexts body))] :=
    namesIn_cons_of_inside h.opens h.inside
  rw [h.readFrom_eq, namesIn_append _ (hheader _), ← List.cons_append,
    namesIn_append _ (head?_ofTexts h.ends), hknot]
  rfl

/-- Sections of lines that are alike end at the same line. -/
theorem alike_section {ls ms : List Line} (h : List.Forall₂ Alike ls ms) :
    List.Forall₂ Alike (section_ ls) (section_ ms) := by
  induction h with
  | nil => exact .nil
  | @cons l m ls ms hlm _ ih =>
    have hends : l.form.endsKnot = m.form.endsKnot := by
      rw [← LineForm.endsKnot_bare, hlm.bare, LineForm.endsKnot_bare]
    cases hm : m.form.endsKnot with
    | true =>
      rw [section_cons_of_endsKnot (hends.trans hm), section_cons_of_endsKnot hm]
      exact .nil
    | false =>
      rw [section_cons (hends.trans hm), section_cons hm]
      exact .cons hlm ih

/-- Lines that are alike hold the same names. -/
theorem namesIn_congr {ls ms : List Line} (h : List.Forall₂ Alike ls ms) :
    namesIn ls = namesIn ms := by
  induction h with
  | nil => rfl
  | @cons l m ls ms hlm hrest ih =>
    have hbare := hlm.bare
    have hheader : ∀ name, l.form = .knotHeader name ↔ m.form = .knotHeader name := by
      intro name
      rw [← LineForm.bare_eq_knotHeader_iff, hbare, LineForm.bare_eq_knotHeader_iff]
    by_cases hl : ∃ name, l.form = .knotHeader name
    · obtain ⟨name, hform⟩ := hl
      rw [namesIn_cons_of_header _ hform, namesIn_cons_of_header _ ((hheader name).mp hform),
        stitchesIn_congr (alike_section hrest), ih]
    · rw [namesIn_cons_of_ne _ fun name hform => hl ⟨name, hform⟩,
        namesIn_cons_of_ne _ fun name hform => hl ⟨name, (hheader name).mpr hform⟩, ih]

/-! ### The check of raw lines -/

/-- Lines that pass the check bring in no knot whose name is taken. -/
theorem not_mem_of_checkLines {knot : String} {taken begun : List String} {ls : List Line}
    (h : checkLines knot taken begun ls = .ok ()) :
    ∀ name ∈ (namesIn ls).map Prod.fst, name ∉ taken := by
  induction ls generalizing knot taken begun with
  | nil => simp
  | cons l ls ih =>
    rw [checkLines] at h
    split at h
    · next name hform =>
      split at h
      · simp at h
      · next htaken =>
        rw [namesIn_cons_of_header ls hform, List.map_cons, List.forall_mem_cons]
        exact ⟨by simpa using htaken, fun other hother hmem =>
          ih h other hother (List.mem_cons_of_mem _ hmem)⟩
    · next name hform =>
      split at h
      · simp at h
      · rw [namesIn_cons_of_ne ls (by simp [hform])]
        exact ih h
    · next hknot _ =>
      rw [namesIn_cons_of_ne ls hknot]
      exact ih h

/-- What a check of lines has to foresee: all names in them are unique and none is taken, where `begun`
are the stitches of the knot that they go on with. -/
structure Foresees (taken begun : List String) (ls : List Line) : Prop where
  names : UniqueNames (namesIn ls)
  free : ∀ x ∈ namesIn ls, x.1 ∉ taken
  stitches : (stitchesIn (section_ ls)).Nodup
  freeStitches : ∀ name ∈ stitchesIn (section_ ls), name ∉ begun

namespace Foresees

variable {taken begun : List String} {l : Line} {ls : List Line} {name : String}

/-- A header: its knot is new, and the stitches of the lines before end here. -/
theorem header (h : Foresees (name :: taken) [] ls) (hform : l.form = .knotHeader name)
    (htaken : name ∉ taken) : Foresees taken begun (l :: ls) := by
  have hsection : stitchesIn (section_ (l :: ls)) = [] := by
    rw [section_cons_of_endsKnot (by rw [hform]; rfl)]
    rfl
  have hnames := namesIn_cons_of_header ls hform
  have hnew : name ∉ (namesIn ls).map Prod.fst := by
    intro hmem
    obtain ⟨x, hx, hname⟩ := List.mem_map.mp hmem
    exact h.free x hx (List.mem_cons.mpr (Or.inl hname))
  exact {
    names := by
      rw [hnames]
      exact ⟨List.nodup_cons.mpr ⟨hnew, h.names.knots⟩,
        List.forall_mem_cons.mpr ⟨h.stitches, h.names.stitches⟩⟩
    free := by
      rw [hnames, List.forall_mem_cons]
      exact ⟨htaken, fun x hx hmem => h.free x hx (List.mem_cons_of_mem _ hmem)⟩
    stitches := by
      rw [hsection]
      exact .nil
    freeStitches := by simp [hsection] }

/-- The header of a stitch, which is new among those that the knot has begun. -/
theorem stitch (h : Foresees taken (name :: begun) ls) (hform : l.form = .stitchHeader name)
    (hsection : stitchesIn (section_ (l :: ls)) = name :: stitchesIn (section_ ls))
    (hbegun : name ∉ begun) : Foresees taken begun (l :: ls) := by
  have hnames := namesIn_cons_of_ne (l := l) ls (by simp [hform])
  exact {
    names := hnames ▸ h.names
    free := hnames ▸ h.free
    stitches := by
      rw [hsection, List.nodup_cons]
      exact ⟨fun hmem => h.freeStitches name hmem List.mem_cons_self, h.stitches⟩
    freeStitches := by
      rw [hsection, List.forall_mem_cons]
      exact ⟨hbegun, fun other hother hmem =>
        h.freeStitches other hother (List.mem_cons_of_mem _ hmem)⟩ }

/-- Any other line brings in no name, but a region marker ends the knot. -/
theorem other (h : Foresees taken begun ls) (hform : ∀ name, l.form ≠ .knotHeader name)
    (hsection : stitchesIn (section_ (l :: ls)) = [] ∨
      stitchesIn (section_ (l :: ls)) = stitchesIn (section_ ls)) : Foresees taken begun (l :: ls) := by
  have hnames := namesIn_cons_of_ne ls hform
  refine ⟨hnames ▸ h.names, hnames ▸ h.free, ?_, ?_⟩
  · rcases hsection with hsection | hsection
    · rw [hsection]
      exact .nil
    · rw [hsection]
      exact h.stitches
  · rcases hsection with hsection | hsection
    · rw [hsection]
      simp
    · rw [hsection]
      exact h.freeStitches

end Foresees

/-- Lines that pass the check bring in no name twice and none that is taken. The check goes by headers, so
no stitch must stand behind the label of a branch. -/
theorem foresees_of_checkLines {knot : String} {taken begun : List String} {ls : List Line}
    (h : checkLines knot taken begun ls = .ok ()) (hhides : ∀ l ∈ ls, l.HidesNoStitch) :
    Foresees taken begun ls := by
  -- by induction on the lines: what is taken and begun grows as the check goes on, so what it refuses later
  -- is what came before
  have hheaders : ∀ {ls : List Line}, (∀ l ∈ ls, l.HidesNoStitch) →
      stitchesIn (section_ ls) = (section_ ls).filterMap (·.form.stitchName?) := fun hls =>
    stitchesIn_of_hidesNoStitch fun l hl => hls l ((List.takeWhile_sublist _).subset hl)
  induction ls generalizing knot taken begun with
  | nil => exact ⟨⟨.nil, by simp⟩, by simp, .nil, by simp [stitchesIn, Act.ofLines]⟩
  | cons l ls ih =>
    have hall := hhides
    rw [List.forall_mem_cons] at hhides
    rw [checkLines] at h
    split at h
    · next name hform =>
      split at h
      · simp at h
      · next htaken => exact (ih h hhides.2).header hform (by simpa using htaken)
    · next name hform =>
      split at h
      · simp at h
      · next htaken =>
        refine (ih h hhides.2).stitch hform ?_ (by simpa using htaken)
        rw [hheaders hall, hheaders hhides.2, section_cons (by rw [hform]; rfl),
          List.filterMap_cons_some (by rw [hform]; rfl)]
    · next hknot hstitch =>
      refine (ih h hhides.2).other hknot ?_
      cases hends : l.form.endsKnot with
      | true => exact Or.inl (by rw [section_cons_of_endsKnot hends]; rfl)
      | false =>
        have hnone : l.form.stitchName? = none := by
          cases hform : l.form with
          | stitchHeader name => exact absurd hform (hstitch name)
          | _ => rfl
        refine Or.inr ?_
        rw [hheaders hall, hheaders hhides.2, section_cons hends]
        exact List.filterMap_cons_none hnone

end Line

/-! ### The names of a script -/

namespace ScriptState

/-- The names of the open knot if only the given lines are still to come. -/
def openNames (s : ScriptState) (rest : List Line) : List (String × List String) :=
  (s.knot.map fun k =>
    (k.name, Line.stitchesIn (Line.ofTexts k.body.reverse ++ Line.section_ rest))).toList

theorem names_closeKnot (last : Nat) (s : ScriptState) :
    (s.closeKnot last).knots.reverse.map Knot.names =
      s.knots.reverse.map Knot.names ++ s.openNames [] := by
  cases hs : s.knot with
  | none => simp [closeKnot_of_none last hs, openNames, hs]
  | some k =>
    have hstitches : (s.finished k last).stitches =
        Line.stitchesIn (Line.ofTexts k.body.reverse) := Body.stitchesIn_read s.supply k.body.reverse
    rw [knots_closeKnot last hs, List.reverse_cons, List.map_append, List.map_cons, List.map_nil,
      Knot.names, hstitches]
    simp [openNames, hs, finished]

/-- The comment that may be open at the next line is the one that the lines of the open knot leave open. -/
theorem opensBlock_step {inBlock : Bool} (n : Nat) {p : String} {l : Line} {s : ScriptState}
    (hl : Line.readFrom inBlock [p] = [l])
    (h : ∀ k ∈ s.knot, Line.opensBlock false k.body.reverse = inBlock) :
    ∀ k ∈ (s.step n p l).knot,
      Line.opensBlock false k.body.reverse = Line.opensBlock inBlock [p] := by
  intro k hk
  have hsteps := steps n p l s
  generalize s.step n p l = t at hsteps hk
  cases hsteps with
  | header hform =>
    -- only outside a comment does a line open a knot, and it opens no comment
    have hblock : Line.opensBlock inBlock [p] = false := by
      cases inBlock with
      | true =>
        obtain rfl : Line.insideComment p = l := by simpa [Line.readFrom] using hl
        simp [Line.insideComment] at hform
      | false =>
        obtain rfl : Line.ofText p = l := by simpa [Line.readFrom] using hl
        rw [Line.opensBlock_false_cons, Line.opensBlock_nil, hform]
        rfl
    obtain rfl := Option.some.inj hk
    rw [hblock]
    rfl
  | regionStart _ =>
    change k ∈ (closeUnclosedRegion _ _ _).knot at hk
    simp [(sameKnots_closeUnclosedRegion _ _ _).2.1, knot_closeKnot] at hk
  | strayEnd _ _ =>
    change k ∈ (s.closeKnot (n - 1)).knot at hk
    simp [knot_closeKnot] at hk
  | regionEnd _ _ => simp [(sameKnots_closeRegion _ _).2.1, knot_closeKnot] at hk
  | @body j _ hknot =>
    obtain rfl := Option.some.inj hk
    rw [List.reverse_cons, Line.opensBlock_append, h j hknot]
  | blank _ hknot => simp [hknot] at hk
  | loose _ _ hknot => simp [(sameKnots_looseLine n l s).knot, hknot] at hk

/-- The names that were read and those still to come stay the same while a line comes in. -/
theorem names_step {inBlock : Bool} (n : Nat) {p : String} {l : Line} {s : ScriptState}
    (hl : Line.readFrom inBlock [p] = [l])
    (h : ∀ k ∈ s.knot, Line.opensBlock false k.body.reverse = inBlock) (rest : List Line) :
    (s.step n p l).knots.reverse.map Knot.names ++ (s.step n p l).openNames rest ++
        Line.namesIn rest =
      s.knots.reverse.map Knot.names ++ s.openNames (l :: rest) ++ Line.namesIn (l :: rest) := by
  have hnone := knot_closeKnot (n - 1) s
  have hclosed : l.form.endsKnot = true → (s.closeKnot (n - 1)).knots.reverse.map Knot.names =
      s.knots.reverse.map Knot.names ++ s.openNames (l :: rest) := by
    intro hends
    rw [names_closeKnot]
    simp only [openNames, Line.section_cons_of_endsKnot hends, Line.section_nil]
  -- a region marker leaves the knots that were closed, and no knot is open behind it
  have hmarker : ∀ t : ScriptState, t.knots = (s.closeKnot (n - 1)).knots → t.knot = none →
      l.form.endsKnot = true → (∀ name, l.form ≠ .knotHeader name) →
      t.knots.reverse.map Knot.names ++ t.openNames rest ++ Line.namesIn rest =
        s.knots.reverse.map Knot.names ++ s.openNames (l :: rest) ++ Line.namesIn (l :: rest) := by
    intro t hknots hknot hends hne
    rw [Line.namesIn_cons_of_ne rest hne, ← hclosed hends, hknots]
    simp [openNames, hknot]
  -- outside of knots other lines bring in no names
  have houtside : ∀ t : ScriptState, t.SameKnots s → s.knot = none → l.form.endsKnot = false →
      t.knots.reverse.map Knot.names ++ t.openNames rest ++ Line.namesIn rest =
        s.knots.reverse.map Knot.names ++ s.openNames (l :: rest) ++ Line.namesIn (l :: rest) := by
    intro t ht hknot hends
    rw [Line.namesIn_cons_of_ne rest (fun name hform => by simp [hform, LineForm.endsKnot] at hends),
      ht.knots]
    simp [openNames, ht.knot, hknot]
  have hsteps := steps n p l s
  generalize s.step n p l = t at hsteps ⊢
  cases hsteps with
  | header hform =>
    rw [Line.namesIn_cons_of_header rest hform, ← hclosed (by rw [hform]; rfl)]
    simp [openNames, Line.ofTexts, Line.readFrom]
  | regionStart hform =>
    obtain ⟨hknots, hknot, -⟩ := sameKnots_closeUnclosedRegion n (n - 1) (s.closeKnot (n - 1))
    exact hmarker _ hknots (hknot.trans hnone) (by rw [hform]; rfl) (by simp [hform])
  | strayEnd hform _ => exact hmarker _ rfl hnone (by rw [hform]; rfl) (by simp [hform])
  | regionEnd hform _ =>
    obtain ⟨hknots, hknot, -⟩ := sameKnots_closeRegion n (s.closeKnot (n - 1))
    exact hmarker _ hknots (hknot.trans hnone) (by rw [hform]; rfl) (by simp [hform])
  | @body k hends hknot =>
    have hlines : Line.ofTexts (k.body.reverse ++ [p]) = Line.ofTexts k.body.reverse ++ [l] := by
      rw [Line.ofTexts, Line.readFrom_append, h k hknot, hl, Line.ofTexts]
    rw [Line.namesIn_cons_of_ne rest fun name hform => by simp [hform, LineForm.endsKnot] at hends]
    simp [openNames, hknot, hlines, Line.section_cons hends]
  | blank hblank hknot => exact houtside _ (.refl s) hknot (LineForm.endsKnot_of_isBlank hblank)
  | loose hends _ hknot => exact houtside _ (sameKnots_looseLine n l s) hknot hends

theorem opensBlock_readFrom {inBlock : Bool} (s : ScriptState) (n : Nat) (ls : List String)
    (h : ∀ k ∈ s.knot, Line.opensBlock false k.body.reverse = inBlock) :
    ∀ k ∈ (s.readFrom n (ls.zip (Line.readFrom inBlock ls))).knot,
      Line.opensBlock false k.body.reverse = Line.opensBlock inBlock ls := by
  induction ls generalizing s n inBlock with
  | nil =>
    rw [List.zip_nil_left, readFrom, Line.opensBlock_nil]
    exact h
  | cons p ls ih =>
    rw [Line.readFrom_cons, List.zip_cons_cons, readFrom, Line.opensBlock_cons]
    exact ih _ (n + 1) (opensBlock_step n (Line.readFrom_cons inBlock p []) h)

/-- The names that are read while further lines come in. -/
theorem names_readFrom {inBlock : Bool} (s : ScriptState) (n last : Nat) (ls : List String)
    (h : ∀ k ∈ s.knot, Line.opensBlock false k.body.reverse = inBlock) :
    ((s.readFrom n (ls.zip (Line.readFrom inBlock ls))).closeKnot last).knots.reverse.map Knot.names =
      s.knots.reverse.map Knot.names ++ s.openNames (Line.readFrom inBlock ls) ++
        Line.namesIn (Line.readFrom inBlock ls) := by
  induction ls generalizing s n inBlock with
  | nil =>
    rw [List.zip_nil_left, readFrom, names_closeKnot, Line.readFrom, Line.namesIn_nil,
      List.append_nil]
  | cons p ls ih =>
    have hl : Line.readFrom inBlock [p] = [Line.lineIn inBlock p] := Line.readFrom_cons inBlock p []
    have hopen : ∀ k ∈ (s.step n p (Line.lineIn inBlock p)).knot,
        Line.opensBlock false k.body.reverse = Line.opensBehind inBlock p := opensBlock_step n hl h
    rw [Line.readFrom_cons, List.zip_cons_cons, readFrom, ih _ (n + 1) hopen]
    exact names_step n hl h _

/-- The names of a script are those of its lines. -/
theorem names_ofLines (supply : Nat) (ls : List String) :
    (ofLines supply ls).knots.reverse.map Knot.names = Line.namesIn (Line.ofTexts ls) := by
  rw [knots_ofLines]
  exact names_readFrom { supply } 1 ls.length ls (by simp)

end ScriptState

end StoryScript
