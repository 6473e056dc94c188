import StoryScript.Lint.Finding
import StoryScript.Proofs.Document.Target
import StoryScript.Proofs.Document.Visible
import Mathlib.Data.List.Nodup

/-!
# What becomes of every divert

A divert of a visible knot ends the story, leads nowhere, stays in its knot or leads to a knot, and just one
of these (`Fate`). Each is seen somewhere else: what leads nowhere is a finding of the lint rules, what leads
to a knot is a link of the graph, noted with the knot that it leads to. `Document.accounted_read` says that
the places agree, and that the graph gives the same links forwards, backwards and one by one.

The tables of the graph hold the same links (`Document.records_graph`), so each of its questions is one about
`Document.links`, and a link from a knot comes from one of its diverts (`Document.mk_mem_links_iff`). Behind this stands that the visible knots of a script have different
names (`Document.nodup_visibleNames_read`), so that a name stands for its knot. The start of the story is in
the graph under a name of its own, which no knot may have.
-/

namespace StoryScript

/-! ### Visible knots -/

/-- Of knots that are marked as duplicates of earlier ones, those without a mark have different names. -/
theorem ScriptState.Flagged.nodup_visible {ks : List Knot} (h : ScriptState.Flagged ks) :
    ((ks.filter (!·.duplicate)).map Knot.name).Nodup := by
  induction ks with
  | nil => exact List.nodup_nil
  | cons k ks ih =>
    obtain ⟨hmark, hrest⟩ := h
    cases hk : k.duplicate with
    | true =>
      rw [List.filter_cons_of_neg (by simp [hk])]
      exact ih hrest
    | false =>
      rw [List.filter_cons_of_pos (by simp [hk]), List.map_cons, List.nodup_cons]
      refine ⟨fun hmem => ?_, ih hrest⟩
      obtain ⟨k', hk', hname⟩ := List.mem_map.mp hmem
      rw [hk, eq_comm, List.any_eq_false] at hmark
      exact hmark k' (List.mem_of_mem_filter hk') (by simpa using hname)

namespace Document

theorem nodup_visibleNames_read (supply : Nat) (text : String) :
    (read supply text).1.visibleNames.Nodup := by
  have hflagged := (ScriptState.flagged_ofLines supply (Text.lines text)).nodup_visible
  have hknots : (read supply text).1.visibleKnots =
      ((ScriptState.ofLines supply (Text.lines text)).knots.filter (!·.duplicate)).reverse := by
    rw [← List.filter_reverse]
    rfl
  rw [visibleNames, hknots, List.map_reverse]
  exact (List.reverse_perm _).nodup_iff.mpr hflagged

variable {d : Document} {k : Knot}

/-- What is found for each visible knot, and named after it, is found for a knot by the name. -/
theorem filter_flatMap_visibleKnots {α : Type} (h : d.visibleNames.Nodup) (hk : k ∈ d.visibleKnots)
    {g : Knot → List α} (name : α → String) (hname : ∀ k, ∀ x ∈ g k, name x = k.name) :
    (d.visibleKnots.flatMap g).filter (fun x => name x = k.name) = g k := by
  -- the knots in front of this one and behind it have other names
  obtain ⟨front, behind, hknots⟩ := List.append_of_mem hk
  rw [visibleNames, hknots, List.map_append, List.map_cons, List.nodup_append, List.nodup_cons] at h
  obtain ⟨-, ⟨hbehind, -⟩, hfront⟩ := h
  have hnone : ∀ ks : List Knot, (∀ k' ∈ ks, k'.name ≠ k.name) →
      (ks.flatMap g).filter (fun x => name x = k.name) = [] := by
    intro ks hks
    refine List.filter_eq_nil_iff.mpr fun x hx => ?_
    obtain ⟨k', hk', hx⟩ := List.mem_flatMap.mp hx
    simpa [hname k' x hx] using hks k' hk'
  have hself : (g k).filter (fun x => name x = k.name) = g k :=
    List.filter_eq_self.mpr fun x hx => by simp [hname k x hx]
  rw [hknots, List.flatMap_append, List.flatMap_cons, List.filter_append, List.filter_append, hself,
    hnone front fun k' hk' => hfront _ (List.mem_map_of_mem hk') _ List.mem_cons_self,
    hnone behind fun k' hk' hk => hbehind (hk ▸ List.mem_map_of_mem hk'), List.nil_append,
    List.append_nil]

/-! ### Links -/

variable {r : DivertRef} {l : Link}

/-- A divert makes a link unless it stays in its knot or leads nowhere. -/
theorem linkOf?_eq_some_iff : d.linkOf? k r = some l ↔ ∃ target stitch,
    d.resolve? (some k.name) r.target = some (target, stitch) ∧
      ¬(target = k.name ∧ stitch.isSome = true) ∧ l = ⟨k.name, target, r⟩ := by
  rw [linkOf?]
  split
  · next hnone => simp [hnone]
  · next target stitch hresolve =>
    by_cases hwithin : target = k.name ∧ stitch.isSome = true
    · rw [if_pos (by simpa using hwithin)]
      simp only [hresolve, Option.some.injEq, Prod.mk.injEq, reduceCtorEq, false_iff]
      rintro ⟨_, _, ⟨rfl, rfl⟩, hnot, -⟩
      exact hnot hwithin
    · rw [if_neg (by simpa using hwithin)]
      simp only [hresolve, Option.some.injEq, Prod.mk.injEq]
      constructor
      · rintro rfl
        exact ⟨target, stitch, ⟨rfl, rfl⟩, hwithin, rfl⟩
      · rintro ⟨_, _, ⟨rfl, rfl⟩, -, rfl⟩
        rfl

theorem source_of_linkOf? (h : d.linkOf? k r = some l) : l.source = k.name := by
  obtain ⟨_, _, -, -, rfl⟩ := linkOf?_eq_some_iff.mp h
  rfl

theorem ref_of_linkOf? (h : d.linkOf? k r = some l) : l.ref = r := by
  obtain ⟨_, _, -, -, rfl⟩ := linkOf?_eq_some_iff.mp h
  rfl

theorem source_of_startLink? (h : d.startLink? = some l) : l.source = startNode := by
  rw [startLink?, Option.bind_eq_some_iff] at h
  obtain ⟨_, -, h⟩ := h
  obtain ⟨_, -, rfl⟩ := Option.map_eq_some_iff.mp h
  rfl

/-- The links of a knot are those of its diverts. -/
theorem filter_links_source (h : d.visibleNames.Nodup) (hk : k ∈ d.visibleKnots)
    (hstart : k.name ≠ startNode) :
    d.links.filter (fun l => l.source = k.name) = k.divertRefs.filterMap (d.linkOf? k) := by
  have hsource : ∀ k : Knot, ∀ l ∈ k.divertRefs.filterMap (d.linkOf? k), l.source = k.name := by
    intro k l hl
    obtain ⟨r, -, hr⟩ := List.mem_filterMap.mp hl
    exact source_of_linkOf? hr
  have hfront : d.startLink?.toList.filter (fun l => l.source = k.name) = [] := by
    refine List.filter_eq_nil_iff.mpr fun l hl => ?_
    rw [source_of_startLink? (Option.mem_toList.mp hl)]
    simpa using hstart.symm
  rw [links, List.filter_append, hfront, List.nil_append,
    filter_flatMap_visibleKnots h hk Link.source hsource]

/-- A link from a knot is one that a divert of the knot makes. -/
theorem mk_mem_links_iff (h : d.visibleNames.Nodup) (hk : k ∈ d.visibleKnots)
    (hstart : k.name ≠ startNode) {target : String} : ⟨k.name, target, r⟩ ∈ d.links ↔
      r ∈ k.divertRefs ∧ d.linkOf? k r = some ⟨k.name, target, r⟩ := by
  have hmem : ⟨k.name, target, r⟩ ∈ d.links ↔
      ⟨k.name, target, r⟩ ∈ d.links.filter (fun l => l.source = k.name) := by
    rw [List.mem_filter]
    simp
  rw [hmem, filter_links_source h hk hstart, List.mem_filterMap]
  constructor
  · rintro ⟨r', hr', hlink⟩
    obtain rfl := ref_of_linkOf? hlink
    exact ⟨hr', hlink⟩
  · exact fun hr => ⟨r, hr⟩

/-- The diverts that lead to a knot are those of the links to it, in order. -/
theorem incoming_eq (name : String) :
    d.incoming name = (d.links.filter (·.target = name)).map fun l => (l.source, l.ref) :=
  d.records_graph.incomingRefs name

theorem mem_incoming_iff {source name : String} :
    (source, r) ∈ d.incoming name ↔ ⟨source, name, r⟩ ∈ d.links := by
  rw [incoming_eq, List.mem_map]
  constructor
  · rintro ⟨l, hl, heq⟩
    obtain ⟨hlinks, htarget⟩ := List.mem_filter.mp hl
    obtain ⟨rfl, rfl⟩ := Prod.mk.inj heq
    obtain rfl : l.target = name := by simpa using htarget
    exact hlinks
  · exact fun hl => ⟨_, List.mem_filter.mpr ⟨hl, by simp⟩, rfl⟩

theorem hasLink_iff {source target : String} :
    d.hasLink source target = true ↔ ∃ r, ⟨source, target, r⟩ ∈ d.links :=
  List.contains_iff_mem.trans d.records_graph.mem_edges

/-- A link that is found forwards is found backwards. -/
theorem contains_reverseEdges (source target : String) :
    (d.graph.reverseEdges.get target).contains source = d.hasLink source target := by
  rw [Bool.eq_iff_iff, hasLink_iff, List.contains_iff_mem]
  exact d.records_graph.mem_reverseEdges

theorem mem_targetsOf {a b : String} :
    b ∈ d.targetsOf a ↔ b ∈ d.visibleNames ∧ d.hasLink a b = true := List.mem_filter

/-- There is a root as soon as there is a visible knot, whatever it is called. -/
theorem root?_eq_none_iff : d.root? = none ↔ d.visibleNames = [] := by
  rw [root?]
  constructor
  · intro hroot
    split at hroot
    · simp at hroot
    · exact List.head?_eq_none_iff.mp hroot
  · intro hnames
    rw [targetsOf, hnames]
    rfl

theorem sourcesOf_eq (name : String) :
    d.sourcesOf name = (if d.hasLink startNode name then [startNode] else []) ++
      d.visibleNames.filter (d.hasLink · name) := by
  simp only [sourcesOf, contains_reverseEdges]

/-- A knot is among the sources under its own name, which is not that of the start. -/
theorem mem_sourcesOf {a b : String} (ha : a ≠ startNode) :
    a ∈ d.sourcesOf b ↔ a ∈ d.visibleNames ∧ d.hasLink a b = true := by
  rw [sourcesOf_eq, List.mem_append, List.mem_filter]
  split
  · simp [ha]
  · simp

/-- No knot has the name of the start, so it is among the sources just if the story begins there. -/
theorem startNode_mem_sourcesOf (h : startNode ∉ d.visibleNames) {b : String} :
    startNode ∈ d.sourcesOf b ↔ d.hasLink startNode b = true := by
  rw [sourcesOf_eq, List.mem_append, List.mem_filter]
  split
  · next hlink => simp [hlink]
  · next hlink => simp [h, hlink]

/-- The initial divert makes a link from the start to the knot that it resolves to. -/
theorem hasLink_startNode {target b : String} {stitch : Option String}
    (hinitial : d.initialDivert = some target) (hresolve : d.resolve? none target = some (b, stitch)) :
    d.hasLink startNode b = true := by
  refine hasLink_iff.mpr ⟨⟨target, none, .standalone⟩, List.mem_append_left _ ?_⟩
  rw [Option.mem_toList, startLink?, hinitial, Option.bind_some, hresolve]
  rfl

/-- Only the initial divert makes a link from the start. -/
theorem startNode_hasLink_iff (h : startNode ∉ d.visibleNames) {b : String} :
    d.hasLink startNode b = true ↔ ∃ target stitch, d.initialDivert = some target ∧
      d.resolve? none target = some (b, stitch) := by
  constructor
  · intro hlink
    obtain ⟨r, hr⟩ := hasLink_iff.mp hlink
    rcases List.mem_append.mp hr with hr | hr
    · rw [Option.mem_toList, startLink?, Option.bind_eq_some_iff] at hr
      obtain ⟨target, hinitial, hr⟩ := hr
      obtain ⟨⟨knot, stitch⟩, hresolve, heq⟩ := Option.map_eq_some_iff.mp hr
      obtain rfl : knot = b := congrArg Link.target heq
      exact ⟨target, stitch, hinitial, hresolve⟩
    · obtain ⟨k, hk, hr⟩ := List.mem_flatMap.mp hr
      obtain ⟨r', -, hlink⟩ := List.mem_filterMap.mp hr
      refine absurd ?_ h
      rw [show startNode = k.name from source_of_linkOf? hlink]
      exact List.mem_map_of_mem hk
  · rintro ⟨target, stitch, hinitial, hresolve⟩
    exact hasLink_startNode hinitial hresolve

end Document

/-! ### What a divert comes to -/

/-- What a divert of a knot can come to. -/
inductive Fate where
  /-- The story ends. -/
  | ends
  /-- There is nothing of that name. -/
  | broken
  /-- The story goes on at a stitch of the same knot. -/
  | within
  /-- The story goes on in a knot, the same one or another. -/
  | leads

/-- The finding that a divert of a knot leads nowhere. -/
def Knot.brokenDivert (k : Knot) (r : DivertRef) : Finding :=
  ⟨.brokenDivert r.target r.context, r.line, some k.name⟩

namespace Document

variable {d : Document} {k : Knot} {r : DivertRef}

/-- Where it is seen what a divert of a knot comes to: in its target, in the findings, in the stitches of
the knot, or in the diverts that are noted with the knot that it leads to. -/
def Meets (d : Document) (k : Knot) (r : DivertRef) : Fate → Prop
  | .ends => isTerminal r.target = true
  | .broken => k.brokenDivert r ∈ d.brokenDiverts
  | .within => isTerminal r.target = false ∧
      ∃ stitch ∈ k.stitches, d.Resolves (some k.name) r.target (k.name, some stitch)
  | .leads => isTerminal r.target = false ∧
      ∃ target stitch, d.Resolves (some k.name) r.target (target, stitch) ∧
        (k.name, r) ∈ d.incoming target

/-- A document in which nothing becomes of a divert twice, or in one place only. -/
structure Accounted (d : Document) : Prop where
  fates : ∀ k ∈ d.visibleKnots, ∀ r ∈ k.divertRefs, ∃! fate, d.Meets k r fate
  /-- What is found to lead nowhere means nothing. -/
  reported : ∀ k ∈ d.visibleKnots, ∀ r ∈ k.divertRefs, k.brokenDivert r ∈ d.brokenDiverts ↔
    isTerminal r.target = false ∧ ∀ p, ¬d.Resolves (some k.name) r.target p
  /-- Behind what is found about the initial divert there is one finding for each divert that leads nowhere,
  in order. -/
  findings : ∃ front, (∀ f ∈ front, f.knot = none) ∧ d.brokenDiverts = front ++
    d.visibleKnots.flatMap fun k =>
      (k.divertRefs.filter fun r => k.brokenDivert r ∈ d.brokenDiverts).map k.brokenDivert
  /-- A divert is noted with the knot that it means, unless it stays in its own, and with no other. -/
  resolved : ∀ k ∈ d.visibleKnots, ∀ r name, (k.name, r) ∈ d.incoming name ↔
    r ∈ k.divertRefs ∧ isTerminal r.target = false ∧
      ∃ stitch, d.Resolves (some k.name) r.target (name, stitch) ∧
        ¬(name = k.name ∧ stitch.isSome = true)
  /-- With a knot the diverts of another one are noted in order, each as often as it occurs. -/
  noted : ∀ k ∈ d.visibleKnots, ∀ name,
    (d.incoming name).filter (fun x => x.1 = k.name) =
      (k.divertRefs.filter fun r => (k.name, r) ∈ d.incoming name).map fun r => (k.name, r)
  neighbours : ∀ a ∈ d.visibleNames, ∀ b ∈ d.visibleNames,
    (b ∈ d.targetsOf a ↔ a ∈ d.sourcesOf b) ∧ (a ∈ d.sourcesOf b ↔ ∃ r, (a, r) ∈ d.incoming b)
  start : ∀ b ∈ d.visibleNames, startNode ∈ d.sourcesOf b ↔
    ∃ target stitch, d.initialDivert = some target ∧ isTerminal target = false ∧
      d.Resolves none target (b, stitch)

/-- A visible knot is found under its name. -/
theorem visibleKnot?_name (h : d.visibleNames.Nodup) (hk : k ∈ d.visibleKnots) :
    d.visibleKnot? k.name = some k := by
  cases hfound : d.visibleKnot? k.name with
  | none => simpa using List.find?_eq_none.mp hfound k hk
  | some k' =>
    have hname : k'.name = k.name := by simpa using List.find?_some hfound
    rw [List.inj_on_of_nodup_map h (List.mem_of_find?_eq_some hfound) hk hname]

/-- A stitch of the own knot that a target means is one of its stitches. -/
theorem mem_stitches_of_resolves (h : d.visibleNames.Nodup) (hk : k ∈ d.visibleKnots)
    {source : Option String} {target stitch : String}
    (hresolves : d.Resolves source target (k.name, some stitch)) : stitch ∈ k.stitches := by
  have hself := visibleKnot?_name h hk
  generalize hp : (k.name, some stitch) = p at hresolves
  cases hresolves with
  | named _ hk' hmem =>
    obtain ⟨hname, rfl⟩ : _ = _ ∧ stitch = _ := by simpa using hp
    rw [← hname, hself] at hk'
    rwa [Option.some.inj hk']
  | knot => simp at hp
  | own _ _ hk' hmem =>
    obtain ⟨hname, rfl⟩ : _ = _ ∧ stitch = _ := by simpa using hp
    obtain ⟨a, -, hk'⟩ := Option.bind_eq_some_iff.mp hk'
    obtain ⟨hname', -⟩ := mem_visibleNames_of_visibleKnot? hk'
    rw [← hname', ← hname, hself] at hk'
    rwa [Option.some.inj hk']

/-- A divert of a knot is found to lead nowhere just if its target is not valid. -/
theorem brokenDivert_mem_iff_isValidTarget (hk : k ∈ d.visibleKnots) (hr : r ∈ k.divertRefs) :
    k.brokenDivert r ∈ d.brokenDiverts ↔ d.isValidTarget (some k.name) r.target = false := by
  constructor
  · intro hmem
    rcases List.mem_append.mp hmem with hmem | hmem
    · obtain ⟨target, -, heq⟩ := Option.map_eq_some_iff.mp (Option.mem_toList.mp hmem)
      cases heq
    · obtain ⟨k', hk', hmem⟩ := List.mem_flatMap.mp hmem
      obtain ⟨r', hr', heq⟩ := List.mem_map.mp hmem
      obtain ⟨-, hbroken⟩ := List.mem_filter.mp hr'
      simp only [Knot.brokenDivert, Finding.mk.injEq, FindingCause.brokenDivert.injEq,
        Option.some.injEq] at heq
      obtain ⟨⟨htarget, -⟩, -, hname⟩ := heq
      rw [← hname, ← htarget]
      simpa using hbroken
  · intro hbroken
    refine List.mem_append_right _ (List.mem_flatMap.mpr ⟨k, hk, List.mem_map.mpr ⟨r, ?_, rfl⟩⟩)
    exact List.mem_filter.mpr ⟨hr, by simpa using hbroken⟩

/-- A target is valid just if it ends the story or means something. -/
theorem isValidTarget_eq_false_iff {source : Option String} {target : String} :
    d.isValidTarget source target = false ↔
      isTerminal target = false ∧ ∀ p, ¬d.Resolves source target p := by
  rw [isValidTarget, Bool.or_eq_false_iff, Option.isSome_eq_false_iff, Option.isNone_iff_eq_none]
  refine and_congr_right fun hterminal => ?_
  rw [Option.eq_none_iff_forall_ne_some]
  refine forall_congr' fun p => not_congr ?_
  rw [resolve?_eq_some_iff, hterminal, eq_self_iff_true, true_and]

/-- A divert of a knot is found to lead nowhere just if it neither ends the story nor means anything. -/
theorem brokenDivert_mem_iff (hk : k ∈ d.visibleKnots) (hr : r ∈ k.divertRefs) :
    k.brokenDivert r ∈ d.brokenDiverts ↔
      isTerminal r.target = false ∧ ∀ p, ¬d.Resolves (some k.name) r.target p :=
  (brokenDivert_mem_iff_isValidTarget hk hr).trans isValidTarget_eq_false_iff

/-- A divert is noted with a knot just if it makes a link to it. -/
theorem mem_incoming_iff_linkOf? (h : d.visibleNames.Nodup) (hstart : startNode ∉ d.visibleNames)
    (hk : k ∈ d.visibleKnots) {name : String} : (k.name, r) ∈ d.incoming name ↔
      r ∈ k.divertRefs ∧ d.linkOf? k r = some ⟨k.name, name, r⟩ := by
  have hname : k.name ≠ startNode := fun heq => hstart (heq ▸ List.mem_map_of_mem hk)
  rw [mem_incoming_iff, mk_mem_links_iff h hk hname]

/-- A divert is noted with the knot that it means, unless it stays in its own. -/
theorem noted_iff (h : d.visibleNames.Nodup) (hstart : startNode ∉ d.visibleNames)
    (hk : k ∈ d.visibleKnots) {name : String} : (k.name, r) ∈ d.incoming name ↔
      r ∈ k.divertRefs ∧ isTerminal r.target = false ∧
        ∃ stitch, d.Resolves (some k.name) r.target (name, stitch) ∧
          ¬(name = k.name ∧ stitch.isSome = true) := by
  rw [mem_incoming_iff_linkOf? h hstart hk, linkOf?_eq_some_iff]
  simp only [resolve?_eq_some_iff, Link.mk.injEq, true_and, and_true]
  refine and_congr_right fun hr => ?_
  constructor
  · rintro ⟨_, stitch, ⟨hterminal, hresolves⟩, hnot, rfl⟩
    exact ⟨hterminal, stitch, hresolves, hnot⟩
  · rintro ⟨hterminal, stitch, hresolves, hnot⟩
    exact ⟨name, stitch, ⟨hterminal, hresolves⟩, hnot, rfl⟩

/-- What is noted with a knot comes from the diverts of other knots, in order. -/
theorem filter_incoming (h : d.visibleNames.Nodup) (hstart : startNode ∉ d.visibleNames)
    (hk : k ∈ d.visibleKnots) (name : String) : (d.incoming name).filter (fun x => x.1 = k.name) =
      (k.divertRefs.filter fun r => (k.name, r) ∈ d.incoming name).map fun r => (k.name, r) := by
  have hname : k.name ≠ startNode := fun heq => hstart (heq ▸ List.mem_map_of_mem hk)
  have hlinks : (d.incoming name).filter (fun x => x.1 = k.name) =
      ((d.links.filter fun l => l.source = k.name).filter fun l => l.target = name).map
        fun l => (l.source, l.ref) := by
    rw [incoming_eq, List.filter_map, List.filter_filter, List.filter_filter]
    simp only [Function.comp_def, Bool.and_comm]
  rw [hlinks, filter_links_source h hk hname, List.filter_filterMap, List.map_filterMap,
    ← List.filterMap_eq_map, List.filterMap_filter]
  refine List.filterMap_congr fun r hr => ?_
  have hnoted : (k.name, r) ∈ d.incoming name ↔
      r ∈ k.divertRefs ∧ d.linkOf? k r = some ⟨k.name, name, r⟩ :=
    mem_incoming_iff_linkOf? h hstart hk
  cases hlink : d.linkOf? k r with
  | none => simp [hnoted, hlink]
  | some l =>
    obtain ⟨target, -, -, -, rfl⟩ := linkOf?_eq_some_iff.mp hlink
    by_cases htarget : target = name
    · simp [hnoted, hlink, hr, htarget, Option.filter]
    · simp [hnoted, hlink, htarget, Option.filter]

/-- The cases of what a divert means are those of what it comes to. -/
theorem existsUnique_fate (h : d.visibleNames.Nodup) (hstart : startNode ∉ d.visibleNames)
    (hk : k ∈ d.visibleKnots) (hr : r ∈ k.divertRefs) : ∃! fate, d.Meets k r fate := by
  have hbroken := brokenDivert_mem_iff hk hr
  cases hterminal : isTerminal r.target with
  | true =>
    refine ⟨.ends, hterminal, fun fate hfate => ?_⟩
    cases fate with
    | ends => rfl
    | broken => simpa [hterminal] using (hbroken.mp hfate).1
    | within => simp [Meets, hterminal] at hfate
    | leads => simp [Meets, hterminal] at hfate
  | false =>
    cases hresolve : d.resolve? (some k.name) r.target with
    | none =>
      -- what is not found has no meaning
      have hnone : ∀ p, ¬d.Resolves (some k.name) r.target p := fun p hp => by
        simpa [hresolve] using resolve?_eq_some_iff.mpr ⟨hterminal, hp⟩
      refine ⟨.broken, hbroken.mpr ⟨hterminal, hnone⟩, fun fate hfate => ?_⟩
      cases fate with
      | ends => simp [Meets, hterminal] at hfate
      | broken => rfl
      | within =>
        obtain ⟨-, _, -, hresolves⟩ := hfate
        exact absurd hresolves (hnone _)
      | leads =>
        obtain ⟨-, _, _, hresolves, -⟩ := hfate
        exact absurd hresolves (hnone _)
    | some x =>
      obtain ⟨target, stitch⟩ := x
      have hresolves := (resolve?_eq_some_iff.mp hresolve).2
      have honly : ∀ p, d.Resolves (some k.name) r.target p → (target, stitch) = p := fun p hp =>
        Option.some.inj (hresolve.symm.trans (resolve?_eq_some_iff.mpr ⟨hterminal, hp⟩))
      have hvalid : ¬d.Meets k r .broken := fun hmem => (hbroken.mp hmem).2 _ hresolves
      by_cases hwithin : target = k.name ∧ stitch.isSome = true
      · obtain ⟨rfl, hsome⟩ := hwithin
        obtain ⟨name, rfl⟩ := Option.isSome_iff_exists.mp hsome
        refine ⟨.within, ⟨hterminal, name, mem_stitches_of_resolves h hk hresolves, hresolves⟩,
          fun fate hfate => ?_⟩
        cases fate with
        | ends => simp [Meets, hterminal] at hfate
        | broken => exact absurd hfate hvalid
        | within => rfl
        | leads =>
          -- a jump within the knot is noted with none
          obtain ⟨-, target', -, -, hmem⟩ := hfate
          obtain ⟨-, -, _, hresolves', hnot⟩ := (noted_iff h hstart hk).mp hmem
          obtain ⟨rfl, rfl⟩ := Prod.mk.inj (honly _ hresolves')
          exact absurd ⟨rfl, rfl⟩ hnot
      · have hmem := (noted_iff h hstart hk).mpr ⟨hr, hterminal, stitch, hresolves, hwithin⟩
        refine ⟨.leads, ⟨hterminal, target, stitch, hresolves, hmem⟩, fun fate hfate => ?_⟩
        cases fate with
        | ends => simp [Meets, hterminal] at hfate
        | broken => exact absurd hfate hvalid
        | within =>
          obtain ⟨-, name, -, hname⟩ := hfate
          obtain ⟨rfl, rfl⟩ := Prod.mk.inj (honly _ hname)
          exact absurd ⟨rfl, rfl⟩ hwithin
        | leads => rfl

/-- Every document that was read accounts for the diverts of its visible knots, unless a knot has the name
that stands for the start of the story. -/
theorem accounted_read (supply : Nat) (text : String)
    (hstart : startNode ∉ (read supply text).1.visibleNames) : (read supply text).1.Accounted := by
  have h := nodup_visibleNames_read supply text
  -- nothing else about the document matters
  generalize (read supply text).1 = d at h hstart
  have hname : ∀ {a}, a ∈ d.visibleNames → a ≠ startNode := fun ha heq => hstart (heq ▸ ha)
  exact {
    fates := fun k hk r hr => existsUnique_fate h hstart hk hr
    reported := fun k hk r hr => brokenDivert_mem_iff hk hr
    findings := by
      refine ⟨_, fun f hf => ?_, congrArg (_ ++ ·) (List.flatMap_congr fun k hk => ?_)⟩
      · obtain ⟨target, -, rfl⟩ := Option.map_eq_some_iff.mp (Option.mem_toList.mp hf)
        rfl
      · refine congrArg (List.map k.brokenDivert) (List.filter_congr fun r hr => ?_)
        simp [brokenDivert_mem_iff_isValidTarget hk hr]
    resolved := fun k hk r name => noted_iff h hstart hk
    noted := fun k hk name => filter_incoming h hstart hk name
    neighbours := by
      intro a ha b hb
      constructor
      · rw [mem_targetsOf, mem_sourcesOf (hname ha)]
        exact ⟨fun hlink => ⟨ha, hlink.2⟩, fun hlink => ⟨hb, hlink.2⟩⟩
      · rw [mem_sourcesOf (hname ha), hasLink_iff]
        simp only [mem_incoming_iff]
        exact ⟨fun hlink => hlink.2, fun hlink => ⟨ha, hlink⟩⟩
    start := by
      intro b hb
      rw [startNode_mem_sourcesOf hstart, startNode_hasLink_iff hstart]
      simp only [resolve?_eq_some_iff] }

/-- A story that begins at the quay, where diverts come to all that they can. -/
theorem accounted_read_quay :
    let text := "-> quay\n=== quay ===\n* [Wait] -> boat\n* [Swim] -> END\n-> nowhere\n" ++
      "= boat\n-> sea\n=== sea ===\n-> quay.boat\n"
    startNode ∉ (read 0 text).1.visibleNames ∧ (read 0 text).1.Accounted := by
  intro text
  have hstart : startNode ∉ (read 0 text).1.visibleNames := by decide +kernel
  exact ⟨hstart, accounted_read 0 text hstart⟩

end Document

end StoryScript
