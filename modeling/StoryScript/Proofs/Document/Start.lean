import StoryScript.Proofs.Document.Links

/-!
# Where a story starts

The start of a story is in the divert graph under a name of its own, in the tables that hold the names of
knots. A knot may have that name as well. `Document.StartApart` says that the start and the knots do not get
into each other's way: the root of the story is the knot that the initial divert resolves to or else the
first one that is visible, and among the sources of a knot the start stands in front, once, just if the
initial divert leads there.

This is so in a script just if no link comes from the name of the start while a visible knot has it
(`Document.startApart_iff`). A link from a knot of that name is enough to move the root
(`Document.not_startApart_of_knot`).
-/

namespace StoryScript

/-! ### Visible knots -/

/-- The first of all knots is not marked as a duplicate. -/
theorem ScriptState.Flagged.exists_visible {ks : List Knot} (h : ScriptState.Flagged ks) (hks : ks ≠ []) :
    ∃ k ∈ ks, k.duplicate = false := by
  induction ks with
  | nil => exact absurd rfl hks
  | cons k ks ih =>
    cases ks with
    | nil => exact ⟨k, List.mem_cons_self, h.1⟩
    | cons l ls =>
      obtain ⟨m, hm, hmark⟩ := ih h.2 (List.cons_ne_nil l ls)
      exact ⟨m, List.mem_cons_of_mem k hm, hmark⟩

namespace Document

variable {d : Document}

/-- A script without visible knots has none at all. -/
theorem visibleNames_read_eq_nil_iff (supply : Nat) (text : String) :
    (read supply text).1.visibleNames = [] ↔ (read supply text).1.knots = [] := by
  have hflagged := ScriptState.flagged_ofLines supply (Text.lines text)
  rw [visibleNames, List.map_eq_nil_iff, visibleKnots]
  constructor
  · intro hnone
    by_contra hknots
    rw [knots_read] at hnone hknots
    obtain ⟨k, hk, hmark⟩ := hflagged.exists_visible fun h => hknots (List.reverse_eq_nil_iff.mpr h)
    have hmem : k ∈ (ScriptState.ofLines supply (Text.lines text)).knots.reverse.filter
        (!·.duplicate) := List.mem_filter.mpr ⟨List.mem_reverse.mpr hk, by rw [hmark]; rfl⟩
    rw [hnone] at hmem
    exact List.not_mem_nil hmem
  · intro hknots
    rw [hknots]
    rfl

/-! ### The start among the knots -/

/-- The story begins in a knot: the initial divert resolves to it or to a stitch of it. -/
def StartsIn (d : Document) (name : String) : Prop :=
  ∃ target stitch, d.initialDivert = some target ∧ d.resolve? none target = some (name, stitch)

theorem StartsIn.mem_visibleNames {name : String} (h : d.StartsIn name) : name ∈ d.visibleNames := by
  obtain ⟨target, stitch, -, hresolve⟩ := h
  exact mem_visibleNames_of_resolve? hresolve

theorem StartsIn.unique {a b : String} (ha : d.StartsIn a) (hb : d.StartsIn b) : a = b := by
  obtain ⟨target, stitch, hinitial, hresolve⟩ := ha
  obtain ⟨target', stitch', hinitial', hresolve'⟩ := hb
  obtain rfl : target = target' := Option.some.inj (hinitial.symm.trans hinitial')
  exact (Prod.mk.inj (Option.some.inj (hresolve.symm.trans hresolve'))).1

/-- The start of the story is kept apart from knots. -/
structure StartApart (d : Document) : Prop where
  root_of_startsIn : ∀ name, d.StartsIn name → d.root? = some name
  /-- A story without an initial divert that resolves begins in the first visible knot. -/
  root_of_none : (∀ name, ¬d.StartsIn name) → d.root? = d.visibleNames.head?
  root_eq_none : d.root? = none ↔ d.knots = []
  nodup_sources : ∀ name, (d.sourcesOf name).Nodup
  head_sources : ∀ name, (d.sourcesOf name).head? = some startNode ↔ d.StartsIn name

/-- No link comes from the name of the start while a visible knot has it. -/
def StartUnused (d : Document) : Prop :=
  startNode ∈ d.visibleNames → ∀ l ∈ d.links, l.source ≠ startNode

instance (d : Document) : Decidable d.StartUnused :=
  inferInstanceAs (Decidable (startNode ∈ d.visibleNames → ∀ l ∈ d.links, l.source ≠ startNode))

/-- Then a link from the start is that of the initial divert. -/
theorem StartUnused.hasLink_iff (h : d.StartUnused) {name : String} :
    d.hasLink startNode name = true ↔ d.StartsIn name := by
  by_cases hstart : startNode ∈ d.visibleNames
  · -- the knot takes the name, and nothing leads from it
    have hnone : ¬d.hasLink startNode name = true := by
      intro hlink
      obtain ⟨r, hr⟩ := Document.hasLink_iff.mp hlink
      exact h hstart _ hr rfl
    refine ⟨fun hlink => absurd hlink hnone, ?_⟩
    rintro ⟨target, stitch, hinitial, hresolve⟩
    exact absurd (hasLink_startNode hinitial hresolve) hnone
  · exact startNode_hasLink_iff hstart

/-- Where a link comes from the start, no visible knot has its name. -/
theorem StartUnused.not_mem (h : d.StartUnused) {name : String}
    (hlink : d.hasLink startNode name = true) : startNode ∉ d.visibleNames := by
  intro hstart
  obtain ⟨r, hr⟩ := Document.hasLink_iff.mp hlink
  exact h hstart _ hr rfl

/-! ### The root -/

theorem StartUnused.root_of_startsIn (h : d.StartUnused) {name : String} (hname : d.StartsIn name) :
    d.root? = some name := by
  rw [root?]
  cases htargets : d.targetsOf startNode with
  | nil =>
    have hmem : name ∈ d.targetsOf startNode :=
      mem_targetsOf.mpr ⟨hname.mem_visibleNames, h.hasLink_iff.mpr hname⟩
    rw [htargets] at hmem
    exact absurd hmem List.not_mem_nil
  | cons a rest =>
    have hmem : a ∈ d.targetsOf startNode := by rw [htargets]; exact List.mem_cons_self
    have ha : d.StartsIn a := h.hasLink_iff.mp (mem_targetsOf.mp hmem).2
    exact congrArg some (ha.unique hname)

theorem StartUnused.root_of_none (h : d.StartUnused) (hnone : ∀ name, ¬d.StartsIn name) :
    d.root? = d.visibleNames.head? := by
  have htargets : d.targetsOf startNode = [] := by
    refine List.eq_nil_iff_forall_not_mem.mpr fun name hmem => ?_
    exact hnone name (h.hasLink_iff.mp (mem_targetsOf.mp hmem).2)
  rw [root?, htargets]

/-! ### The sources of a knot -/

theorem StartUnused.nodup_sourcesOf (h : d.StartUnused) (hnames : d.visibleNames.Nodup) (name : String) :
    (d.sourcesOf name).Nodup := by
  have hknots : (d.visibleNames.filter (d.hasLink · name)).Nodup := hnames.filter _
  rw [sourcesOf_eq]
  split
  · next hlink =>
    -- the start is none of the knots
    rw [List.singleton_append, List.nodup_cons]
    exact ⟨fun hmem => h.not_mem hlink (List.mem_filter.mp hmem).1, hknots⟩
  · exact hknots

theorem StartUnused.head_sourcesOf (h : d.StartUnused) (name : String) :
    (d.sourcesOf name).head? = some startNode ↔ d.StartsIn name := by
  rw [← h.hasLink_iff, sourcesOf_eq]
  by_cases hlink : d.hasLink startNode name = true
  · rw [if_pos hlink]
    exact iff_of_true rfl hlink
  · rw [if_neg hlink, List.nil_append]
    refine iff_of_false (fun hhead => ?_) hlink
    exact hlink (List.mem_filter.mp (List.mem_of_mem_head? hhead)).2

/-- A knot of that name that leads anywhere is there twice among the sources. -/
theorem not_nodup_sourcesOf (hstart : startNode ∈ d.visibleNames) {l : Link} (hl : l ∈ d.links)
    (hsource : l.source = startNode) : ¬(d.sourcesOf l.target).Nodup := by
  have hlink : d.hasLink startNode l.target = true := by
    refine hasLink_iff.mpr ⟨l.ref, ?_⟩
    rw [← hsource]
    exact hl
  rw [sourcesOf_eq, if_pos hlink, List.singleton_append, List.nodup_cons]
  intro h
  exact h.1 (List.mem_filter.mpr ⟨hstart, hlink⟩)

/-- In a script the start is kept apart from knots just if no link comes from its name while a visible knot
has it. -/
theorem startApart_iff (supply : Nat) (text : String) :
    (read supply text).1.StartApart ↔ (read supply text).1.StartUnused := by
  have hnames := nodup_visibleNames_read supply text
  have hknots := visibleNames_read_eq_nil_iff supply text
  generalize (read supply text).1 = d at hnames hknots
  constructor
  · -- such a link would put the name of the start among the sources of its target twice
    intro happart hstart l hl hsource
    exact not_nodup_sourcesOf hstart hl hsource (happart.nodup_sources l.target)
  · intro h
    exact {
      root_of_startsIn := fun name => h.root_of_startsIn
      root_of_none := h.root_of_none
      root_eq_none := root?_eq_none_iff.trans hknots
      nodup_sources := h.nodup_sourcesOf hnames
      head_sources := h.head_sourcesOf }

/-- A story that its initial divert ends at once, with a knot of that name to which others lead and which
leads nowhere. -/
theorem startApart_iff_inn :
    let text := "-> END\n=== inn ===\n-> START\n= bar\n-> inn\n=== START ===\nA sign.\n"
    (read 0 text).1.StartUnused ∧ startNode ∈ (read 0 text).1.visibleNames ∧
      (read 0 text).1.StartApart := by
  intro text
  have hunused : (read 0 text).1.StartUnused ∧ startNode ∈ (read 0 text).1.visibleNames := by
    decide +kernel
  exact ⟨hunused.1, hunused.2, (startApart_iff 0 text).mpr hunused.1⟩

/-- A knot with the name of the start that leads to another one makes that the root, although there is no
initial divert and other knots come first. -/
theorem not_startApart_of_knot :
    let text := "=== a ===\nx\n=== START ===\n-> b\n=== b ===\ny\n"
    (read 0 text).1.root? = some "b" ∧ (read 0 text).1.sourcesOf "b" = ["START", "START"] ∧
      ¬(read 0 text).1.StartApart := by
  intro text
  have hread : (read 0 text).1.initialDivert = none ∧ (read 0 text).1.visibleNames.head? = some "a" ∧
      (read 0 text).1.root? = some "b" ∧ (read 0 text).1.sourcesOf "b" = ["START", "START"] := by
    decide +kernel
  obtain ⟨hinitial, hfirst, hroot, hsources⟩ := hread
  refine ⟨hroot, hsources, fun happart => ?_⟩
  have hnone : ∀ name, ¬(read 0 text).1.StartsIn name := by
    rintro name ⟨target, stitch, htarget, -⟩
    rw [hinitial] at htarget
    simp at htarget
  have hroot' := happart.root_of_none hnone
  rw [hroot, hfirst] at hroot'
  exact absurd (Option.some.inj hroot') (by decide)

end Document

end StoryScript
