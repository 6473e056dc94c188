import StoryScript.Document.Graph

/-!
# What a target means

A target names a knot, or a stitch together with its knot, or just a stitch of the knot that it stands in.
`Document.Resolves` has one constructor for each of these, and `Document.resolve?` finds what it says and
nothing else, unless the target ends the story (`Document.resolve?_eq_some_iff`). Knots are looked up before
stitches, so a bare name means a stitch only if no visible knot has it (the premise `hnone` of
`Document.Resolves.own`).

Everything about the meaning of targets goes by the cases of `Document.Resolves`.
-/

namespace StoryScript

/-! ### The parts of a target -/

section Parts

variable {target : String}

/-- A target and the stitch that it names. -/
theorem toList_eq_knotPart (target : String) :
    target.toList = (knotPart target).toList ++ target.toList.dropWhile (· ≠ '.') := by
  rw [knotPart, String.toList_ofList, List.takeWhile_append_dropWhile]

theorem dropWhile_of_stitchPart? (h : stitchPart? target = none) :
    target.toList.dropWhile (· ≠ '.') = [] := by
  unfold stitchPart? at h
  split at h
  · assumption
  · simp at h

/-- A target without a stitch is a name. -/
theorem knotPart_of_stitchPart? (h : stitchPart? target = none) : knotPart target = target := by
  have hsplit := toList_eq_knotPart target
  rw [dropWhile_of_stitchPart? h, List.append_nil] at hsplit
  exact String.toList_injective hsplit.symm

theorem stitchPart?_of_isTerminal (h : isTerminal target = true) : stitchPart? target = none := by
  rw [isTerminal, Bool.or_eq_true, decide_eq_true_eq, decide_eq_true_eq] at h
  rcases h with rfl | rfl <;> rfl

end Parts

/-! ### What is found -/

namespace Document

variable {d : Document} {source : Option String} {target name : String}

/-- What a target that does not end the story means in the knot `source`. -/
inductive Resolves (d : Document) (source : Option String) (target : String) :
    String × Option String → Prop
  /-- A stitch that is named together with its knot. -/
  | named {k : Knot} {stitch : String} (hstitch : stitchPart? target = some stitch)
      (hk : d.visibleKnot? (knotPart target) = some k) (hmem : stitch ∈ k.stitches) :
      Resolves d source target (knotPart target, some stitch)
  /-- A knot. -/
  | knot {k : Knot} (hstitch : stitchPart? target = none) (hk : d.visibleKnot? target = some k) :
      Resolves d source target (target, none)
  /-- A stitch of the knot that the target stands in. -/
  | own {k : Knot} (hstitch : stitchPart? target = none) (hnone : d.visibleKnot? target = none)
      (hk : source.bind d.visibleKnot? = some k) (hmem : target ∈ k.stitches) :
      Resolves d source target (k.name, some target)

theorem resolve?_eq_some_iff {p : String × Option String} :
    d.resolve? source target = some p ↔ isTerminal target = false ∧ d.Resolves source target p := by
  constructor
  · intro h
    unfold resolve? at h
    split at h
    · simp at h
    · next hends =>
      refine ⟨Bool.not_eq_true _ ▸ hends, ?_⟩
      split at h
      · next stitch hstitch =>
        split at h
        · next k hk =>
          rw [Option.ite_none_right_eq_some, Option.some.injEq] at h
          obtain ⟨hmem, rfl⟩ := h
          exact .named hstitch hk (List.contains_iff_mem.mp hmem)
        · simp at h
      · next hstitch =>
        split at h
        · next hfound =>
          obtain ⟨k, hk⟩ := Option.isSome_iff_exists.mp hfound
          obtain rfl := Option.some.inj h
          exact .knot hstitch hk
        · next hmissing =>
          split at h
          · next k hk =>
            rw [Option.ite_none_right_eq_some, Option.some.injEq] at h
            obtain ⟨hmem, rfl⟩ := h
            exact .own hstitch (Option.not_isSome_iff_eq_none.mp hmissing) hk
              (List.contains_iff_mem.mp hmem)
          · simp at h
  · rintro ⟨hends, h⟩
    rw [resolve?, if_neg (by rw [hends]; exact Bool.false_ne_true)]
    cases h with
    | named hstitch hk hmem => simp [hstitch, hk, hmem]
    | knot hstitch hk => simp [hstitch, hk]
    | own hstitch hnone hk hmem => simp [hstitch, hnone, hk, hmem]

theorem mem_visibleNames_of_visibleKnot? {k : Knot} (h : d.visibleKnot? name = some k) :
    k.name = name ∧ name ∈ d.visibleNames := by
  have hname : k.name = name := by simpa using List.find?_some h
  exact ⟨hname, List.mem_map.mpr ⟨k, List.mem_of_find?_eq_some h, hname⟩⟩

/-- A target resolves to nothing but a visible knot and perhaps a stitch of it. -/
theorem mem_visibleNames_of_resolve? {stitch : Option String}
    (h : d.resolve? source target = some (name, stitch)) : name ∈ d.visibleNames := by
  obtain ⟨-, h⟩ := resolve?_eq_some_iff.mp h
  cases h with
  | named _ hk _ => exact (mem_visibleNames_of_visibleKnot? hk).2
  | knot _ hk => exact (mem_visibleNames_of_visibleKnot? hk).2
  | own _ _ hk _ =>
    obtain ⟨name, -, hk⟩ := Option.bind_eq_some_iff.mp hk
    obtain ⟨rfl, hmem⟩ := mem_visibleNames_of_visibleKnot? hk
    exact hmem

end Document

end StoryScript
