import StoryScript.Proofs.Document.Renamed
import StoryScript.Proofs.Document.Target
import StoryScript.Proofs.Document.Visible
import StoryScript.Proofs.Story.Carried

/-!
# Where diverts lead once a knot is renamed

`Document.Renamed` relates a document to what it becomes when the knot `old` is called `new` and every
divert that led to `old` leads to `new`. Names are looked up in the one as in the other, the name changed
(`Document.Renamed.rel_visibleKnot?`), so whatever a target meant, the changed target means
(`Document.Renamed.resolve?`). There are three ways in which it could mean something else, and each is
excluded by a hypothesis: the new name ends the story, or a divert ends the story by leading to `old`, or
the new name is that of a stitch to which a divert of the same knot leads by its bare name. In the last
case the renamed knot captures the divert, because knots are looked up before stitches.

Carrying identities over gives each knot the identities of its counterpart, the renamed one those of the
tree supplied for it (`Document.Renamed.carry`).
-/

namespace StoryScript

open Text

variable {old new : String}

/-! ### Targets -/

section Targets

variable {target : String}

theorem renamed_inj {a b : String} (ha : a ≠ new) (hb : b ≠ new) :
    renamed old new a = renamed old new b ↔ a = b := by
  unfold renamed
  constructor
  · split
    · next hao =>
      split
      · next hbo => exact fun _ => hao.trans hbo.symm
      · exact fun h => absurd h.symm hb
    · split
      · exact fun h => absurd h ha
      · exact id
  · rintro rfl
    rfl

/-- What the target is led to: the name is changed and the stitch stays. -/
theorem parts_retarget (old target : String) (hnew : IsName new.toList) :
    knotPart (retarget old new target) = renamed old new (knotPart target) ∧
      stitchPart? (retarget old new target) = stitchPart? target := by
  unfold renamed
  split
  · next hknot =>
    obtain ⟨htake, hdrop⟩ := takeWhile_dropWhile_dot hnew (head?_dropWhile_dot target.toList)
    rw [retarget, if_pos hknot, knotPart, stitchPart?, String.toList_ofList, htake, hdrop,
      String.ofList_toList, stitchPart?]
    exact ⟨rfl, rfl⟩
  · next hknot => exact ⟨by rw [retarget_of_ne hknot], by rw [retarget_of_ne hknot]⟩

theorem retarget_of_stitchPart? (hnew : IsName new.toList) (h : stitchPart? target = none) :
    retarget old new target = renamed old new target := by
  obtain ⟨hknot, hstitch⟩ := parts_retarget old target hnew
  rw [h] at hstitch
  rw [← knotPart_of_stitchPart? hstitch, hknot, knotPart_of_stitchPart? h]

/-- A target that ends the story is not led elsewhere. -/
theorem retarget_of_isTerminal (hold : isTerminal old = false) (h : isTerminal target = true) :
    retarget old new target = target := by
  refine retarget_of_ne fun hknot => ?_
  rw [knotPart_of_stitchPart? (stitchPart?_of_isTerminal h)] at hknot
  rw [← hknot, h] at hold
  exact absurd hold (by simp)

theorem isTerminal_retarget (hname : IsName new.toList) (hnew : isTerminal new = false)
    (h : isTerminal target = false) : isTerminal (retarget old new target) = false := by
  by_contra hends
  rw [Bool.not_eq_false] at hends
  have hstitch := stitchPart?_of_isTerminal hends
  rw [(parts_retarget old _ hname).2] at hstitch
  rw [retarget_of_stitchPart? hname hstitch, renamed] at hends
  split at hends
  · rw [hnew] at hends
    exact absurd hends (by simp)
  · rw [h] at hends
    exact absurd hends (by simp)

end Targets

/-! ### Knots -/

namespace Knot.Renamed

variable {k l : Knot}

theorem plain (h : k.Renamed old new l) : k.plain.Renamed old new l.plain := by
  refine ⟨h.name, h.lineStart, h.lineEnd, h.position, h.region, ?_⟩
  change Item.unlabelledIn l.items = Item.rewordIn _ (Item.unlabelledIn k.items)
  rw [h.items, Item.unlabelledIn_rewordIn]

/-- The diverts of a knot that is renamed, in the same order and on the same lines. -/
theorem divertRefs (h : k.plain.Renamed old new l.plain) :
    l.divertRefs = k.divertRefs.map (DivertRef.reword (.renaming old new)) := by
  have hitems : Item.unlabelledIn l.items =
      Item.rewordIn (.renaming old new) (Item.unlabelledIn k.items) := h.items
  have hstart : l.lineStart = k.lineStart := h.lineStart
  rw [Knot.divertRefs, Knot.divertRefs, ← Item.divertRefsIn_unlabelledIn, hitems,
    Item.divertRefsIn_rewordIn, Item.divertRefsIn_unlabelledIn, hstart]

theorem stitches (h : k.plain.Renamed old new l.plain) : l.stitches = k.stitches := by
  have hitems : Item.unlabelledIn l.items =
      Item.rewordIn (.renaming old new) (Item.unlabelledIn k.items) := h.items
  rw [Knot.stitches, ← Item.filterMap_stitchName?_unlabelledIn, hitems,
    Item.filterMap_stitchName?_rewordIn, Item.filterMap_stitchName?_unlabelledIn, Knot.stitches]

end Knot.Renamed

/-! ### Documents -/

namespace Document

/-- A document and what it becomes when a knot is renamed, up to identities and spelling. -/
structure Renamed (old new : String) (d e : Document) : Prop where
  knots : List.Forall₂ (fun k l : Knot => k.plain.Renamed old new l.plain) d.knots e.knots
  initialDivert : e.initialDivert = d.initialDivert.map (retarget old new)

/-- All knots of a document are visible, and the knot that is renamed is the only one that has or gets that
name. -/
structure Renameable (old new : String) (d : Document) : Prop where
  visible : ∀ k ∈ d.knots, k.duplicate = false
  unique : (d.knots.map Knot.name).Nodup
  taken : old ∈ d.knots.map Knot.name
  free : new ∉ d.knots.map Knot.name

namespace Renamed

variable {d e : Document}

theorem map_name (h : d.Renamed old new e) :
    e.knots.map Knot.name = (d.knots.map Knot.name).map (renamed old new) := by
  have hknots := h.knots
  rw [List.map_map]
  generalize d.knots = ks at hknots
  generalize e.knots = ls at hknots
  induction hknots with
  | nil => rfl
  | @cons k l ks ls hkl _ ih =>
    have hname : l.name = renamed old new k.name := hkl.name
    rw [List.map_cons, List.map_cons, ih, hname]
    rfl

/-- Different names stay different. -/
theorem unique (h : d.Renamed old new e) (hd : d.Renameable old new) : (e.knots.map Knot.name).Nodup := by
  rw [h.map_name]
  refine (List.nodup_map_iff_inj_on hd.unique).mpr fun a ha b hb hab => ?_
  have hne : ∀ {name}, name ∈ d.knots.map Knot.name → name ≠ new := by
    rintro name hname rfl
    exact hd.free hname
  exact (renamed_inj (hne ha) (hne hb)).mp hab

/-- A knot is found by its name as it was found by its name before. -/
theorem rel_find? {ks ls : List Knot}
    (h : List.Forall₂ (fun k l : Knot => k.plain.Renamed old new l.plain) ks ls)
    (hfree : ∀ k ∈ ks, k.name ≠ new) {name : String} (hname : name ≠ new) :
    Option.Rel (fun k l : Knot => k.plain.Renamed old new l.plain) (ks.find? (·.name = name))
      (ls.find? (·.name = renamed old new name)) := by
  induction h with
  | nil => exact .none
  | @cons k l ks ls hkl _ ih =>
    rw [List.forall_mem_cons] at hfree
    have hl : l.name = renamed old new k.name := hkl.name
    have hiff : l.name = renamed old new name ↔ k.name = name := by
      rw [hl, renamed_inj hfree.1 hname]
    by_cases hk : k.name = name
    · rw [List.find?_cons_of_pos (by simpa using hk), List.find?_cons_of_pos (by simpa using hiff.mpr hk)]
      exact .some hkl
    · rw [List.find?_cons_of_neg (by simpa using hk),
        List.find?_cons_of_neg (by simpa using fun h => hk (hiff.mp h))]
      exact ih hfree.2

section Resolve

variable (h : d.Renamed old new e) (hd : d.Renameable old new) (he : ∀ l ∈ e.knots, l.duplicate = false)
include h hd he

theorem rel_visibleKnot? {name : String} (hname : name ≠ new) :
    Option.Rel (fun k l : Knot => k.plain.Renamed old new l.plain) (d.visibleKnot? name)
      (e.visibleKnot? (renamed old new name)) := by
  rw [visibleKnot?, visibleKnot?, visibleKnots_of_not_duplicate hd.visible,
    visibleKnots_of_not_duplicate he]
  exact rel_find? h.knots (fun k hk hfree => hd.free (hfree ▸ List.mem_map_of_mem hk)) hname

/-- A visible knot is found by its new name, with the same stitches. -/
theorem exists_visibleKnot? {name : String} {k : Knot} (hk : d.visibleKnot? name = some k) :
    name ≠ new ∧ ∃ l, e.visibleKnot? (renamed old new name) = some l ∧ l.stitches = k.stitches ∧
      l.name = renamed old new k.name := by
  have hname : name ≠ new := by
    rintro rfl
    obtain rfl : k.name = name := by simpa using List.find?_some hk
    have hmem : k ∈ d.visibleKnots := List.mem_of_find?_eq_some hk
    rw [visibleKnots_of_not_duplicate hd.visible] at hmem
    exact hd.free (List.mem_map_of_mem hmem)
  rcases cases_of_rel (h.rel_visibleKnot? hd he hname) with ⟨hnone, -⟩ | ⟨k', l, hk', hl, hkl⟩
  · simp [hk] at hnone
  · obtain rfl := Option.some.inj (hk.symm.trans hk')
    exact ⟨hname, l, hl, hkl.stitches, hkl.name⟩

/-- A name of no visible knot is that of none after the renaming. -/
theorem visibleKnot?_renamed_eq_none {name : String} (hname : name ≠ new)
    (hnone : d.visibleKnot? name = none) : e.visibleKnot? (renamed old new name) = none := by
  rcases cases_of_rel (h.rel_visibleKnot? hd he hname) with ⟨-, hl⟩ | ⟨k, l, hk, -, -⟩
  · exact hl
  · simp [hnone] at hk

/-- **Where targets lead.** A target that resolved to a knot or a stitch resolves to the same, under the new
name if it is that of the renamed knot. -/
theorem resolve? (hname : IsName new.toList) (hnew : isTerminal new = false) {source : Option String}
    {target : String} {p : String × Option String}
    (hcaptured : target = new → ∀ k ∈ source.bind d.visibleKnot?, new ∉ k.stitches)
    (hp : d.resolve? source target = some p) :
    e.resolve? (source.map (renamed old new)) (retarget old new target) =
      some (renamed old new p.1, p.2) := by
  obtain ⟨hends, hp⟩ := resolve?_eq_some_iff.mp hp
  obtain ⟨hknotPart, hstitchPart⟩ := parts_retarget old target hname
  refine resolve?_eq_some_iff.mpr ⟨isTerminal_retarget hname hnew hends, ?_⟩
  cases hp with
  | named hstitch hk hmem =>
    obtain ⟨-, l, hl, hstitches, -⟩ := h.exists_visibleKnot? hd he hk
    rw [← hknotPart] at hl ⊢
    exact .named (hstitchPart.trans hstitch) hl (hstitches ▸ hmem)
  | knot hstitch hk =>
    obtain ⟨-, l, hl, -, -⟩ := h.exists_visibleKnot? hd he hk
    rw [← retarget_of_stitchPart? hname hstitch] at hl ⊢
    exact .knot (hstitchPart.trans hstitch) hl
  | @own k hstitch hmissing hk hmem =>
    -- the bare name of a stitch stays, and no knot has it afterwards
    have hold : target ≠ old := by
      rintro rfl
      obtain ⟨x, hx, hxname⟩ := List.mem_map.mp hd.taken
      rw [visibleKnot?, visibleKnots_of_not_duplicate hd.visible, List.find?_eq_none] at hmissing
      exact hmissing x hx (by simpa using hxname)
    have hfresh : target ≠ new := fun heq =>
      hcaptured heq k (by rw [hk]; rfl) (by rwa [← heq])
    have hsame : retarget old new target = target := by
      rw [retarget_of_stitchPart? hname hstitch, renamed_of_ne hold]
    have hnone := h.visibleKnot?_renamed_eq_none hd he hfresh hmissing
    rw [renamed_of_ne hold] at hnone
    obtain ⟨name, rfl, hk'⟩ := Option.bind_eq_some_iff.mp hk
    obtain ⟨-, l, hl, hstitches, hlname⟩ := h.exists_visibleKnot? hd he hk'
    rw [hsame, ← hlname]
    exact .own hstitch hnone hl (hstitches ▸ hmem)

end Resolve

end Renamed

end Document

/-! ### Identities -/

/-- Knots with different names are all the first of their name. -/
theorem withOccurrence_of_nodup {ks : List Knot} (h : (ks.map Knot.name).Nodup) {seen : List String}
    (hseen : ∀ k ∈ ks, k.name ∉ seen) : withOccurrence seen ks = ks.map fun k => (k, 0) := by
  induction ks generalizing seen with
  | nil => rfl
  | cons k ks ih =>
    rw [List.map_cons, List.nodup_cons] at h
    rw [List.forall_mem_cons] at hseen
    rw [withOccurrence, List.map_cons, List.count_eq_zero.mpr hseen.1, ih h.2 fun l hl hmem => ?_]
    rcases List.mem_cons.mp hmem with hname | hmem
    · exact h.1 (hname ▸ List.mem_map_of_mem hl)
    · exact hseen.2 l hl hmem

/-- A divert that leads to the name that is changed leads to no place that another divert leads to
afterwards, provided that none has led to the new name. -/
theorem retarget_apart (hne : new ≠ old) (hnew : IsName new.toList) {t u : String}
    (hu : knotPart u ≠ new) (hchanges : retarget old new t ≠ t) :
    t ≠ retarget old new u ∧ retarget old new t ≠ u := by
  have hknot : knotPart t = old := by
    by_contra h
    exact hchanges (retarget_of_ne h)
  refine ⟨fun heq => ?_, fun heq => ?_⟩
  · rw [heq, (parts_retarget old u hnew).1, renamed] at hknot
    split at hknot
    · exact hne hknot
    · next hother => exact hother hknot
  · rw [← heq, (parts_retarget old t hnew).1, hknot, renamed_self] at hu
    exact hu rfl

/-- A knot and what it becomes when a knot is renamed: up to identities and spelling the same in other words.
Where no divert on a line of its own leads to the new name already and no line that is kept changes,
identities stay as well. -/
structure Knot.Becomes (old new : String) (k l : Knot) : Prop where
  same : k.plain.Renamed old new l.plain
  items : Item.AllIn (Leaf.Stands (.renaming old new)) k.items →
    Item.AllIn (Leaf.Leads fun t => knotPart t ≠ new) k.items →
      l.items = Item.rewordIn (.renaming old new) k.items

namespace Document.Renamed

variable {d e : Document}

/-- The tree that each knot is aligned with is that of its counterpart. -/
theorem reference?_eq (hd : d.Renameable old new) {k x : Knot} (hk : k ∈ d.knots) (hname : k.name = old)
    (hx : x ∈ d.knots) :
    d.reference? (some (new, k.items)) (renamed old new x.name) 0 = some x.items := by
  by_cases hxname : x.name = old
  · -- the renamed knot, for which a tree is supplied
    obtain rfl : x = k := List.inj_on_of_nodup_map hd.unique hx hk (hxname.trans hname.symm)
    rw [hxname, renamed_self]
    unfold reference?
    rw [Option.filter_some_pos (by simp)]
  · obtain ⟨ks, ls, hsplit⟩ := List.append_of_mem hx
    have hunique := hd.unique
    rw [hsplit, List.map_append, List.map_cons, List.nodup_middle, List.nodup_cons,
      List.mem_append, not_or] at hunique
    have hcount : (ks.map Knot.name).count x.name = 0 := List.count_eq_zero.mpr hunique.1.1
    have hreference := Document.reference?_eq (c := some (new, k.items)) hsplit fun c hc _ hcx => by
      obtain rfl : (new, k.items) = c := Option.some.inj hc
      have hxnew : x.name = new := hcx.symm
      exact hd.free (hxnew ▸ List.mem_map_of_mem hx)
    rw [hcount] at hreference
    rw [renamed_of_ne hxname]
    exact hreference

/-- **Identities.** Each knot gets the identities of its counterpart. -/
theorem carry (h : d.Renamed old new e) (hd : d.Renameable old new)
    (hself : ∀ k ∈ d.knots, Item.sameList k.items k.items = true) (hnew : IsName new.toList)
    {k : Knot} (hk : k ∈ d.knots) (hname : k.name = old) :
    List.Forall₂ (Knot.Becomes old new) d.knots (e.carry d (some (new, k.items))).knots := by
  have hne : new ≠ old := by
    rintro rfl
    exact hd.free hd.taken
  rw [knots_carry, withOccurrence_of_nodup (h.unique hd) (by simp), List.map_map,
    List.forall₂_map_right_iff]
  refine List.forall₂_iff_zip.mpr ⟨h.knots.length_eq, fun {x l} hxl => ?_⟩
  have hx : x ∈ d.knots := (List.of_mem_zip hxl).1
  have hrenamed : x.plain.Renamed old new l.plain := (List.forall₂_iff_zip.mp h.knots).2 hxl
  have hlname : l.name = renamed old new x.name := hrenamed.name
  have hreference := reference?_eq hd hk hname hx
  rw [← hlname] at hreference
  rw [Function.comp_apply, carryKnot_of_reference? hreference]
  refine ⟨?_, fun hstands hleads => ?_⟩
  · have hplain : (l.carry x.items).plain = l.plain :=
      congrArg (fun k : Knot => { k with header := "", content := "" }) (l.unlabelled_carry x.items)
    rwa [hplain]
  · exact Item.carry_rewordIn hrenamed.items (hself x hx) hstands hleads
      fun t u hu hchanges => retarget_apart hne hnew hu hchanges

end Document.Renamed

end StoryScript
