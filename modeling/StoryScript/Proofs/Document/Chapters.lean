import StoryScript.Document.Rendering
import StoryScript.Proofs.Document.Regions

/-!
# The chapters of a script

Behind its preamble a script is a row of chapters: a knot outside any region, or a region with its
knots. A document holds knots and regions in two lists and a region names its knots, so writing a
document first has to find the chapters again, by the lines on which everything stands. They are found
as they stood: a document that was read is composed of chapters that follow one another
(`Document.exists_composedOf`), and the blocks that are written for it are theirs
(`Document.ComposedOf.renderBlocks`).

The invariant of the reader is `ScriptState.ComposedOf`, which also places the region and the knot that
are open: behind all chapters, and the knot inside the region.
-/

namespace StoryScript

/-- Whether a knot begins between the first and the last line of a region. -/
def Knot.BeginsIn (k : Knot) (r : Region) : Prop :=
  r.lineStart ≤ k.lineStart ∧ k.lineStart ≤ r.lineEnd

instance (k : Knot) (r : Region) : Decidable (k.BeginsIn r) := inferInstanceAs (Decidable (_ ∧ _))

/-- A knot outside regions, or a region with its knots. -/
inductive Chapter where
  | knot (knot : Knot)
  | region (region : Region) (knots : List Knot)

namespace Chapter

def knots : Chapter → List Knot
  | knot k => [k]
  | region _ ks => ks

def region? : Chapter → Option Region
  | knot _ => none
  | region r _ => some r

def knot? : Chapter → Option Knot
  | knot k => some k
  | region .. => none

/-- The line on which a chapter begins. -/
def first : Chapter → Nat
  | knot k => k.lineStart
  | region r _ => r.lineStart

/-- The line on which a chapter ends. -/
def last : Chapter → Nat
  | knot k => k.lineEnd
  | region r _ => r.lineEnd

/-- A chapter holds its knots: a region has their names in order and encloses them. -/
def Whole : Chapter → Prop
  | knot k => k.region = none ∧ k.lineStart ≤ k.lineEnd
  | region r ks => r.knots = ks.map Knot.name ∧ r.lineStart ≤ r.lineEnd ∧
      (∀ k ∈ ks, k.region = some r.name ∧ r.lineStart < k.lineStart ∧ k.lineStart ≤ k.lineEnd ∧
        k.lineEnd ≤ r.lineEnd) ∧
      ks.Pairwise fun k k' => k.lineEnd < k'.lineStart

/-- The paragraphs that are written for a chapter. -/
def paragraphs (indent : Nat) : Chapter → List (List String)
  | knot k => [k.renderLines indent]
  | region r ks => (renderRegionStart r.name :: (r.position.map Position.comment).toList) ::
      ks.map (Knot.renderLines indent) ++ [[renderRegionEnd]]

variable {c : Chapter}

theorem Whole.first_le_last (h : c.Whole) : c.first ≤ c.last := by
  cases c with
  | knot k => exact h.2
  | region r ks => exact h.2.1

/-- The knots of a chapter lie inside it. -/
theorem Whole.knot_mem (h : c.Whole) {k : Knot} (hk : k ∈ c.knots) :
    c.first ≤ k.lineStart ∧ k.lineStart ≤ k.lineEnd ∧ k.lineEnd ≤ c.last := by
  cases c with
  | knot k' =>
    obtain rfl := List.mem_singleton.mp hk
    exact ⟨Nat.le_refl _, h.2, Nat.le_refl _⟩
  | region r ks =>
    obtain ⟨-, hfirst, hself, hlast⟩ := h.2.2.1 k hk
    exact ⟨Nat.le_of_lt hfirst, hself, hlast⟩

/-- The knots of a chapter follow one another. -/
theorem Whole.pairwise_knots (h : c.Whole) :
    c.knots.Pairwise fun k k' => k.lineEnd < k'.lineStart := by
  cases c with
  | knot k => exact List.pairwise_singleton _ _
  | region r ks => exact h.2.2.2

end Chapter

/-! ### Writing chapters -/

/-- Sorting by distinct keys gives the one arrangement in which they increase. -/
theorem mergeSort_eq_of_perm {α : Type} {xs ys : List (Nat × α)} (h : xs.Perm ys)
    (hys : ys.Pairwise fun a b => a.1 < b.1) : (xs.mergeSort fun a b => a.1 ≤ b.1) = ys := by
  have hperm := (List.mergeSort_perm xs fun a b => decide (a.1 ≤ b.1)).trans h
  have hsorted : (xs.mergeSort fun a b => a.1 ≤ b.1).Pairwise fun a b => a.1 ≤ b.1 := by
    have hpairwise := @List.pairwise_mergeSort (Nat × α) (fun a b => decide (a.1 ≤ b.1))
      (fun a b c hab hbc => by simp at *; omega) (fun a b => by simp; omega) xs
    exact hpairwise.imp fun hle => by simpa using hle
  have hkeys : (ys.map Prod.fst).Nodup := by
    rw [List.Nodup, List.pairwise_map]
    exact hys.imp fun hlt => Nat.ne_of_lt hlt
  refine List.Perm.eq_of_pairwise (fun a b ha hb hab hba => ?_) hsorted
    (hys.imp fun hlt => Nat.le_of_lt hlt) hperm
  exact List.inj_on_of_nodup_map hkeys (hperm.subset ha) hb (Nat.le_antisymm hab hba)

namespace Document

/-- A document whose knots and regions are those of chapters that follow one another. -/
structure ComposedOf (d : Document) (cs : List Chapter) : Prop where
  knots : d.knots = cs.flatMap Chapter.knots
  regions : d.regions = cs.filterMap Chapter.region?
  whole : ∀ c ∈ cs, c.Whole
  ordered : cs.Pairwise fun c c' => c.last < c'.first

namespace ComposedOf

variable {d : Document} {cs : List Chapter}

/-- The knots that begin between the lines of a region are those of its chapter. -/
theorem filter_beginsIn (h : d.ComposedOf cs) {r : Region} {ks : List Knot}
    (hr : Chapter.region r ks ∈ cs) : d.knots.filter (fun k => decide (k.BeginsIn r)) = ks := by
  obtain ⟨front, behind, rfl⟩ := List.append_of_mem hr
  have hinside : (Chapter.region r ks).Whole := h.whole _ hr
  have hordered := List.pairwise_append.mp h.ordered
  have hbehind := (List.pairwise_cons.mp hordered.2.1).1
  -- every other chapter lies wholly in front of the region or wholly behind it
  have hnone : ∀ cs' : List Chapter,
      (∀ c ∈ cs', c.Whole ∧ (c.last < r.lineStart ∨ r.lineEnd < c.first)) →
        (cs'.flatMap Chapter.knots).filter (fun k => decide (k.BeginsIn r)) = [] := by
    intro cs' hcs
    rw [List.filter_eq_nil_iff]
    intro k hk hin
    obtain ⟨c, hc, hkc⟩ := List.mem_flatMap.mp hk
    obtain ⟨hwhole, hapart⟩ := hcs c hc
    obtain ⟨hfirst, hself, hlast⟩ := hwhole.knot_mem hkc
    obtain ⟨hstart, hend⟩ := of_decide_eq_true hin
    omega
  have hfront := hnone front fun c hc =>
    ⟨h.whole c (List.mem_append_left _ hc), Or.inl (hordered.2.2 c hc _ List.mem_cons_self)⟩
  have hrest := hnone behind fun c hc =>
    ⟨h.whole c (List.mem_append_right _ (List.mem_cons_of_mem _ hc)), Or.inr (hbehind c hc)⟩
  have hself : ks.filter (fun k => decide (k.BeginsIn r)) = ks := by
    rw [List.filter_eq_self]
    intro k hk
    obtain ⟨-, hfirst, hlines, hlast⟩ := hinside.2.2.1 k hk
    exact decide_eq_true ⟨Nat.le_of_lt hfirst, Nat.le_trans hlines hlast⟩
  rw [h.knots, List.flatMap_append, List.flatMap_cons, List.filter_append, List.filter_append,
    hfront, hrest, List.append_nil, List.nil_append]
  exact hself

/-- What a region holds, in a document that is composed of chapters, are the knots of its chapter. -/
theorem knotsIn (h : d.ComposedOf cs) {r : Region} {ks : List Knot} (hr : Chapter.region r ks ∈ cs) :
    d.knotsIn r = ks := by
  have hnames : ∀ k ∈ ks, decide (k.region = some r.name) = true := fun k hk =>
    decide_eq_true ((h.whole _ hr).2.2.1 k hk).1
  calc d.knotsIn r
      = (d.knots.filter (fun k => decide (k.BeginsIn r))).filter
          fun k => decide (k.region = some r.name) := by
        rw [Document.knotsIn, List.filter_filter]
        refine List.filter_congr fun k _ => Bool.eq_iff_iff.mpr ?_
        simp only [Bool.and_eq_true, decide_eq_true_eq]
        exact and_assoc
    _ = ks := by rw [h.filter_beginsIn hr, List.filter_eq_self.mpr hnames]

/-- The knots outside regions are chapters of their own. -/
theorem filter_region_isNone (h : d.ComposedOf cs) :
    d.knots.filter (·.region.isNone) = cs.filterMap Chapter.knot? := by
  rw [h.knots]
  have hwhole := h.whole
  clear h
  induction cs with
  | nil => rfl
  | cons c cs ih =>
    rw [List.forall_mem_cons] at hwhole
    rw [List.flatMap_cons, List.filter_append, ih hwhole.2]
    cases c with
    | knot k =>
      have hk : k.region = none := hwhole.1.1
      simp [Chapter.knots, Chapter.knot?, hk]
    | region r ks =>
      have hks : ks.filter (·.region.isNone) = [] := by
        rw [List.filter_eq_nil_iff]
        intro k hk
        simp [(hwhole.1.2.2.1 k hk).1]
      rw [List.filterMap_cons_none rfl, Chapter.knots, hks, List.nil_append]

/-- The blocks that are sorted are those of the chapters, each with the line on which it begins. -/
theorem perm_blocks (h : d.ComposedOf cs) (indent : Nat) :
    (d.regions.map (fun r => (r.lineStart, d.renderRegion indent r)) ++
      (d.knots.filter (·.region.isNone)).map fun k => (k.lineStart, [k.renderLines indent])).Perm
        (cs.map fun c => (c.first, c.paragraphs indent)) := by
  rw [h.filter_region_isNone, h.regions]
  have hregion : ∀ r ks, Chapter.region r ks ∈ cs →
      d.renderRegion indent r = (Chapter.region r ks).paragraphs indent := by
    intro r ks hr
    rw [renderRegion, h.knotsIn hr]
    rfl
  clear h
  induction cs with
  | nil => exact .nil
  | cons c cs ih =>
    have hrest := ih fun r ks hr => hregion r ks (List.mem_cons_of_mem _ hr)
    cases c with
    | knot k => exact List.perm_middle.trans (hrest.cons _)
    | region r ks =>
      rw [List.map_cons, ← hregion r ks List.mem_cons_self]
      exact hrest.cons _

/-- The blocks that are written for a document are the paragraphs of its chapters, in their order. -/
theorem renderBlocks (h : d.ComposedOf cs) (indent : Nat) :
    d.renderBlocks indent = cs.flatMap (Chapter.paragraphs indent) := by
  have hordered : (cs.map fun c => (c.first, c.paragraphs indent)).Pairwise
      fun a b => a.1 < b.1 := by
    rw [List.pairwise_map]
    refine List.Pairwise.imp_of_mem (fun {c c'} hc _ hlt => ?_) h.ordered
    exact Nat.lt_of_le_of_lt (h.whole c hc).first_le_last hlt
  have hsort := mergeSort_eq_of_perm (h.perm_blocks indent) hordered
  unfold Document.renderBlocks
  dsimp only
  rw [hsort, List.flatMap_map]

end ComposedOf

end Document

/-! ### Reading chapters -/

namespace ScriptState

/-- A state in front of line `n` that holds the chapters `cs` and, if a region is open, its knots `ks`.
What is open begins behind all chapters. -/
structure ComposedOf (n : Nat) (cs : List Chapter) (ks : List Knot) (s : ScriptState) : Prop where
  knots : s.knots.reverse = cs.flatMap Chapter.knots ++ ks
  regions : s.regions.reverse = cs.filterMap Chapter.region?
  whole : ∀ c ∈ cs, c.Whole
  ordered : cs.Pairwise fun c c' => c.last < c'.first
  before : ∀ c ∈ cs, c.last < n
  outside : s.region = none → ks = []
  names : ∀ r ∈ s.region, r.knots.reverse = ks.map Knot.name
  region : ∀ r ∈ s.region, r.line < n ∧ ∀ c ∈ cs, c.last < r.line
  inside : ∀ r ∈ s.region, ∀ k ∈ ks, k.region = some r.name ∧ r.line < k.lineStart
  increasing : ks.Pairwise fun k k' => k.lineEnd < k'.lineStart
  ended : ∀ k ∈ ks, k.lineStart ≤ k.lineEnd ∧ k.lineEnd < n
  knot : ∀ k ∈ s.knot, k.line < n ∧ (∀ c ∈ cs, c.last < k.line) ∧ (∀ r ∈ s.region, r.line < k.line) ∧
    ∀ k' ∈ ks, k'.lineEnd < k.line

namespace ComposedOf

variable {n m : Nat} {cs : List Chapter} {ks : List Knot} {s t : ScriptState}

theorem start (n supply : Nat) : ComposedOf n [] [] { supply } := by
  constructor <;> simp

theorem mono (h : s.ComposedOf n cs ks) (hnm : n ≤ m) : s.ComposedOf m cs ks where
  knots := h.knots
  regions := h.regions
  whole := h.whole
  ordered := h.ordered
  before c hc := Nat.lt_of_lt_of_le (h.before c hc) hnm
  outside := h.outside
  names := h.names
  region r hr := ⟨Nat.lt_of_lt_of_le (h.region r hr).1 hnm, (h.region r hr).2⟩
  inside := h.inside
  increasing := h.increasing
  ended k hk := ⟨(h.ended k hk).1, Nat.lt_of_lt_of_le (h.ended k hk).2 hnm⟩
  knot k hk := ⟨Nat.lt_of_lt_of_le (h.knot k hk).1 hnm, (h.knot k hk).2⟩

/-- A chapter behind all others keeps them in order. -/
theorem ordered_append (h : s.ComposedOf n cs ks) {c' : Chapter} (hc' : ∀ c ∈ cs, c.last < c'.first) :
    (cs ++ [c']).Pairwise fun c c' => c.last < c'.first :=
  List.pairwise_append.mpr ⟨h.ordered, List.pairwise_singleton _ _,
    fun c hc => List.forall_mem_singleton.mpr (hc' c hc)⟩

/-- Only what is held of knots and regions matters. -/
theorem of_eq (h : s.ComposedOf n cs ks) (hknots : t.knots = s.knots)
    (hregions : t.regions = s.regions)
    (hregion : t.region.map (fun r => (r.name, r.line, r.knots)) =
      s.region.map fun r => (r.name, r.line, r.knots))
    (hknot : ∀ k ∈ t.knot, k.line < n ∧ (∀ c ∈ cs, c.last < k.line) ∧
      (∀ r ∈ s.region, r.line < k.line) ∧ ∀ k' ∈ ks, k'.lineEnd < k.line) : t.ComposedOf n cs ks := by
  have hsame : ∀ r ∈ t.region, ∃ r' ∈ s.region, r'.name = r.name ∧ r'.line = r.line ∧
      r'.knots = r.knots := by
    intro r hr
    rw [Option.mem_def] at hr
    rw [hr, Option.map_some, eq_comm, Option.map_eq_some_iff] at hregion
    obtain ⟨r', hr', heq⟩ := hregion
    obtain ⟨hname, heq⟩ := Prod.mk.inj heq
    exact ⟨r', hr', hname, Prod.mk.inj heq⟩
  refine ⟨by rw [hknots]; exact h.knots, by rw [hregions]; exact h.regions, h.whole, h.ordered,
    h.before, fun hnone => h.outside ?_, fun r hr => ?_, fun r hr => ?_, fun r hr k hk => ?_,
    h.increasing, h.ended, fun k hk => ?_⟩
  · rw [hnone, Option.map_none, eq_comm, Option.map_eq_none_iff] at hregion
    exact hregion
  · obtain ⟨r', hr', -, -, hknots'⟩ := hsame r hr
    rw [← hknots']
    exact h.names r' hr'
  · obtain ⟨r', hr', -, hline, -⟩ := hsame r hr
    rw [← hline]
    exact h.region r' hr'
  · obtain ⟨r', hr', hname, hline, -⟩ := hsame r hr
    rw [← hname, ← hline]
    exact h.inside r' hr' k hk
  · obtain ⟨hlt, hcs, hle, hks⟩ := hknot k hk
    refine ⟨hlt, hcs, fun r hr => ?_, hks⟩
    obtain ⟨r', hr', -, hline, -⟩ := hsame r hr
    rw [← hline]
    exact hle r' hr'

/-- A knot outside regions becomes a chapter. -/
theorem closeKnot_outside (h : s.ComposedOf n cs ks) {k : OpenKnot} (hk : s.knot = some k)
    (hregion : s.region = none) {last : Nat} (hn : last + 1 = n) :
    (s.closeKnot last).ComposedOf n (cs ++ [.knot (s.finished k last)]) [] := by
  obtain ⟨hlt, hcs, -⟩ := h.knot k hk
  have hks := h.outside hregion
  have hregion' : (s.closeKnot last).region = none := by
    have hmap := region_closeKnot last s
    rw [hregion] at hmap
    simpa using hmap
  have hwhole : (Chapter.knot (s.finished k last)).Whole := by
    refine ⟨?_, ?_⟩
    · change s.region.map OpenRegion.name = none
      rw [hregion]
      rfl
    · change k.line ≤ last
      omega
  exact {
    knots := by
      rw [knots_closeKnot last hk, List.reverse_cons, h.knots, hks, List.flatMap_append]
      simp [Chapter.knots]
    regions := by
      rw [regions_closeKnot, h.regions, List.filterMap_append]
      simp [Chapter.region?]
    whole := List.forall_mem_append.mpr ⟨h.whole, List.forall_mem_singleton.mpr hwhole⟩
    ordered := h.ordered_append hcs
    before := List.forall_mem_append.mpr
      ⟨h.before, List.forall_mem_singleton.mpr (hn ▸ Nat.lt_succ_self last)⟩
    outside := fun _ => rfl
    names := by simp [hregion']
    region := by simp [hregion']
    inside := by simp [hregion']
    increasing := .nil
    ended := by simp
    knot := by simp [knot_closeKnot] }

/-- A knot in a region joins the knots of the region. -/
theorem closeKnot_inside (h : s.ComposedOf n cs ks) {k : OpenKnot} (hk : s.knot = some k)
    {r : OpenRegion} (hregion : s.region = some r) {last : Nat} (hn : last + 1 = n) :
    (s.closeKnot last).ComposedOf n cs (ks ++ [s.finished k last]) := by
  obtain ⟨hlt, -, hopen, hks⟩ := h.knot k hk
  have hregion' : (s.closeKnot last).region = some { r with knots := k.name :: r.knots } := by
    rw [closeKnot_of_some last hk]
    simp [hregion]
  have hmem : ∀ r' ∈ (s.closeKnot last).region, r' = { r with knots := k.name :: r.knots } := by
    intro r' hr'
    rw [hregion', Option.mem_some_iff] at hr'
    exact hr'.symm
  have hinside : (s.finished k last).region = some r.name ∧ r.line < k.line := by
    refine ⟨?_, hopen r hregion⟩
    change s.region.map OpenRegion.name = some r.name
    rw [hregion]
    rfl
  have hended : k.line ≤ last ∧ last < n := by omega
  exact {
    knots := by rw [knots_closeKnot last hk, List.reverse_cons, h.knots, List.append_assoc]
    regions := by rw [regions_closeKnot, h.regions]
    whole := h.whole
    ordered := h.ordered
    before := h.before
    outside := by simp [hregion']
    names := fun r' hr' => by
      rw [hmem r' hr', List.reverse_cons, h.names r hregion, List.map_append]
      rfl
    region := fun r' hr' => by
      rw [hmem r' hr']
      exact h.region r hregion
    inside := fun r' hr' => by
      rw [hmem r' hr']
      exact List.forall_mem_append.mpr ⟨h.inside r hregion, List.forall_mem_singleton.mpr hinside⟩
    increasing := List.pairwise_append.mpr ⟨h.increasing, List.pairwise_singleton _ _,
      fun x hx => List.forall_mem_singleton.mpr (hks x hx)⟩
    ended := List.forall_mem_append.mpr ⟨h.ended, List.forall_mem_singleton.mpr hended⟩
    knot := by simp [knot_closeKnot] }

/-- A region becomes a chapter, if its last line is not in front of its last knot. -/
theorem closeRegion (h : s.ComposedOf n cs ks) (hknot : s.knot = none) {r : OpenRegion}
    (hregion : s.region = some r) {last : Nat} (hn : n ≤ last + 1) (hm : last < m) :
    (s.closeRegion last).ComposedOf m
      (cs ++ [.region ⟨r.name, r.line, last, r.position, r.knots.reverse⟩ ks]) [] := by
  obtain ⟨hline, hcs⟩ := h.region r hregion
  have hclosed : s.closeRegion last = { s with
      region := none
      regions := ⟨r.name, r.line, last, r.position, r.knots.reverse⟩ :: s.regions } := by
    rw [ScriptState.closeRegion, hregion]
  -- the region spans its knots, since each of them ended before this line
  have hwhole : (Chapter.region ⟨r.name, r.line, last, r.position, r.knots.reverse⟩ ks).Whole := by
    refine ⟨h.names r hregion, by dsimp only; omega, fun k hk => ?_, h.increasing⟩
    obtain ⟨hname, hfirst⟩ := h.inside r hregion k hk
    obtain ⟨hself, hlt⟩ := h.ended k hk
    exact ⟨hname, hfirst, hself, by dsimp only; omega⟩
  rw [hclosed]
  exact {
    knots := by
      change s.knots.reverse = _
      rw [h.knots, List.flatMap_append]
      simp [Chapter.knots]
    regions := by
      change (_ :: s.regions).reverse = _
      rw [List.reverse_cons, h.regions, List.filterMap_append]
      simp [Chapter.region?]
    whole := List.forall_mem_append.mpr ⟨h.whole, List.forall_mem_singleton.mpr hwhole⟩
    ordered := h.ordered_append hcs
    before := List.forall_mem_append.mpr
      ⟨fun c hc => (hcs c hc).trans (by omega), List.forall_mem_singleton.mpr hm⟩
    outside := fun _ => rfl
    names := by simp
    region := by simp
    inside := by simp
    increasing := .nil
    ended := by simp
    knot := by simp [hknot] }

theorem closeKnot (h : s.ComposedOf n cs ks) {last : Nat} (hn : last + 1 = n) :
    ∃ cs' ks', (s.closeKnot last).ComposedOf n cs' ks' := by
  cases hk : s.knot with
  | none => exact ⟨cs, ks, by rwa [closeKnot_of_none last hk]⟩
  | some k =>
    cases hr : s.region with
    | none => exact ⟨_, _, h.closeKnot_outside hk hr hn⟩
    | some r => exact ⟨_, _, h.closeKnot_inside hk hr hn⟩

theorem closeUnclosedRegion (h : s.ComposedOf n cs ks) (hknot : s.knot = none) (line : Nat)
    {last : Nat} (hn : n ≤ last + 1) (hm : last < m) :
    ∃ cs', (s.closeUnclosedRegion line last).ComposedOf m cs' [] := by
  cases hr : s.region with
  | none =>
    have hks := h.outside hr
    refine ⟨cs, ?_⟩
    rw [ScriptState.closeUnclosedRegion, hr]
    rw [hks] at h
    exact h.mono (by omega)
  | some r =>
    have hreport : (s.report line (.regionUnclosed r.name)).ComposedOf n cs ks :=
      h.of_eq rfl rfl rfl h.knot
    rw [ScriptState.closeUnclosedRegion, hr]
    exact ⟨_, hreport.closeRegion hknot hr hn hm⟩

/-- A region opens behind everything that was read. -/
theorem openRegion (h : s.ComposedOf n cs []) (hknot : s.knot = none) {name : String}
    {position : Option Position} (hregion : t.region = some ⟨name, n, position, []⟩) (hknots : t.knots = s.knots)
    (hregions : t.regions = s.regions) (hknot' : t.knot = s.knot) : t.ComposedOf (n + 1) cs [] where
  knots := by rw [hknots]; exact h.knots
  regions := by rw [hregions]; exact h.regions
  whole := h.whole
  ordered := h.ordered
  before c hc := Nat.lt_succ_of_lt (h.before c hc)
  outside _ := rfl
  names r hr := by
    rw [hregion, Option.mem_some_iff] at hr
    rw [← hr]
    rfl
  region r hr := by
    rw [hregion, Option.mem_some_iff] at hr
    rw [← hr]
    exact ⟨Nat.lt_succ_self n, h.before⟩
  inside := by simp
  increasing := .nil
  ended := by simp
  knot := by simp [hknot', hknot]

/-- A knot opens behind everything that was read. -/
theorem openKnot (h : s.ComposedOf n cs ks) {k : OpenKnot} (hknot : t.knot = some k)
    (hline : k.line = n) (hknots : t.knots = s.knots)
    (hregions : t.regions = s.regions) (hregion : t.region = s.region) :
    t.ComposedOf (n + 1) cs ks := by
  refine (h.mono (Nat.le_succ n)).of_eq hknots hregions (by rw [hregion]) fun k' hk' => ?_
  rw [hknot, Option.mem_some_iff] at hk'
  rw [← hk', hline]
  exact ⟨Nat.lt_succ_self n, h.before, fun r hr => (h.region r hr).1, fun k hk => (h.ended k hk).2⟩

theorem looseLine (h : s.ComposedOf n cs ks) (hknot : s.knot = none) (l : Line) :
    (s.looseLine n l).ComposedOf n cs ks := by
  have hsame := sameChapters_looseLine n l s
  refine h.of_eq hsame.knots hsame.regions ?_ (by rw [hsame.knot, hknot]; simp)
  have hsteps := stepsOutside n l s
  generalize s.looseLine n l = t at hsteps ⊢
  cases hsteps with
  | placed _ _ hregion => rw [hregion]; rfl
  | passed _ _ => rw [(sameRest_outsideLine n l _).region]
  | outside _ => rw [(sameRest_outsideLine n l s).region]

/-- One line keeps a state composed of chapters. -/
theorem step (h : s.ComposedOf n cs ks) (hn : 0 < n) (p : String) (l : Line) :
    ∃ cs' ks', (s.step n p l).ComposedOf (n + 1) cs' ks' := by
  obtain ⟨cs', ks', hclosed⟩ := h.closeKnot (Nat.sub_add_cancel hn)
  have hshut := knot_closeKnot (n - 1) s
  have hsteps := steps n p l s
  generalize s.step n p l = t at hsteps ⊢
  cases hsteps with
  | header _ => exact ⟨cs', ks', hclosed.openKnot rfl rfl rfl rfl rfl⟩
  | regionStart _ =>
    obtain ⟨cs'', hregion⟩ := hclosed.closeUnclosedRegion hshut n (by omega) (by omega : n - 1 < n)
    exact ⟨cs'', [], hregion.openRegion
      ((sameKnots_closeUnclosedRegion _ _ _).2.1.trans hshut) rfl rfl rfl rfl⟩
  | strayEnd _ _ =>
    refine ⟨cs', ks', (hclosed.mono (Nat.le_succ n)).of_eq rfl rfl rfl ?_⟩
    change ∀ k ∈ (s.closeKnot (n - 1)).knot, _
    rw [hshut]
    simp
  | regionEnd _ hr => exact ⟨_, _, hclosed.closeRegion hshut hr (by omega) (Nat.lt_succ_self n)⟩
  | @body k _ hk =>
    refine ⟨cs, ks, (h.mono (Nat.le_succ n)).of_eq rfl rfl rfl fun k' hk' => ?_⟩
    obtain rfl := Option.some.inj hk'
    exact (h.mono (Nat.le_succ n)).knot k hk
  | blank _ _ => exact ⟨cs, ks, h.mono (Nat.le_succ n)⟩
  | loose _ _ hk => exact ⟨cs, ks, (h.looseLine hk l).mono (Nat.le_succ n)⟩

theorem readFrom (h : s.ComposedOf n cs ks) (hn : 0 < n) (xs : List (String × Line)) :
    ∃ cs' ks', (s.readFrom n xs).ComposedOf (n + xs.length) cs' ks' := by
  induction xs generalizing s n cs ks with
  | nil => exact ⟨cs, ks, h⟩
  | cons x xs ih =>
    obtain ⟨p, l⟩ := x
    obtain ⟨cs', ks', hstep⟩ := h.step hn p l
    obtain ⟨cs'', ks'', hrest⟩ := ih hstep (Nat.succ_pos n)
    refine ⟨cs'', ks'', ?_⟩
    rwa [List.length_cons, Nat.add_comm xs.length, ← Nat.add_assoc]

end ComposedOf

end ScriptState

namespace Document

theorem composedOf_of_state {n : Nat} {cs : List Chapter} {s : ScriptState} {d : Document}
    (h : s.ComposedOf n cs []) (hknots : d.knots = s.knots.reverse)
    (hregions : d.regions = s.regions.reverse) : d.ComposedOf cs :=
  ⟨by rw [hknots, h.knots, List.append_nil], hregions.trans h.regions, h.whole, h.ordered⟩

/-- A document that was read is composed of chapters. -/
theorem exists_composedOf (supply : Nat) (text : String) :
    ∃ cs, (read supply text).1.ComposedOf cs := by
  obtain ⟨cs, ks, hread⟩ := (ScriptState.ComposedOf.start 1 supply).readFrom Nat.one_pos
    ((Text.lines text).zip (Line.ofTexts (Text.lines text)))
  rw [ScriptState.length_zip_ofTexts] at hread
  obtain ⟨cs', ks', hclosed⟩ := hread.closeKnot (Nat.add_comm _ 1)
  obtain ⟨cs'', hfinish⟩ := hclosed.closeUnclosedRegion (ScriptState.knot_closeKnot _ _)
    (Text.lines text).length (by omega) (Nat.lt_succ_self (Text.lines text).length)
  exact ⟨cs'', composedOf_of_state hfinish rfl rfl⟩

end Document

end StoryScript
