import StoryScript.Lint.Finding
import StoryScript.Proofs.Body.Choices
import StoryScript.Proofs.Document.Membership
import StoryScript.Proofs.Document.Ranges

/-!
# Choices that lead nowhere

A choice is reported as leading nowhere just if no reference to a divert comes out of it
(`Document.danglingChoices_read`). Two walks over its content have to agree. The rule looks at one item after
the other, as they are listed, and asks a conditional for the diverts of its branches; references are gathered
along the structure, those of a container behind those of its content. Each of them finds something just if the
other one does (`Item.divertRefsIn_eq_nil_iff`).

What is reported of one choice is reported of no other, since it gives the line of the choice: the choices of
the visible knots begin on lines that increase (`Document.pairwise_deadEnds_read`), within a knot by
`Body.pairwise_choiceLines_read` and from knot to knot because knots stand one behind the other.
-/

namespace StoryScript

/-! ### Two walks over a tree -/

mutual

/-- There is no reference to a divert in an item just if nothing in it diverts. -/
theorem Item.divertRefs_eq_nil_iff (lineStart : Nat) (x : DivertContext) : ∀ i : Item,
    i.divertRefs lineStart x = [] ↔ ∀ j, .item j ∈ i.nodes → j.diverts = false
  | .leaf m l => by cases l <;> simp [Item.divertRefs, Item.nodes, Item.diverts]
  | .choice m h c => by
    rw [Item.divertRefs, List.append_eq_nil_iff, Item.divertRefsIn_eq_nil_iff lineStart _ c]
    cases hd : h.divert <;> simp [Item.nodes, Item.diverts, hd]
  | .conditional m bs => by
    rw [Item.divertRefs, Branch.divertRefsIn_eq_nil_iff lineStart bs]
    simp [Item.nodes, Item.diverts]

/-- The divert of a branch is asked for where its conditional is, and not among the items in the branch. -/
theorem Branch.divertRefs_eq_nil_iff (lineStart : Nat) : ∀ b : Branch,
    b.divertRefs lineStart = [] ↔ b.divert = none ∧ ∀ j, .item j ∈ b.nodes → j.diverts = false
  | .mk m g d c => by
    rw [Branch.divertRefs, List.append_eq_nil_iff, Item.divertRefsIn_eq_nil_iff lineStart _ c]
    cases d <;> simp [Branch.nodes, Branch.divert]

theorem Item.divertRefsIn_eq_nil_iff (lineStart : Nat) (x : DivertContext) : ∀ is : List Item,
    Item.divertRefsIn lineStart x is = [] ↔ ∀ j, .item j ∈ Item.nodesIn is → j.diverts = false
  | [] => by simp [Item.divertRefsIn, Item.nodesIn]
  | i :: is => by
    rw [Item.divertRefsIn, List.append_eq_nil_iff, Item.divertRefs_eq_nil_iff lineStart x i,
      Item.divertRefsIn_eq_nil_iff lineStart x is]
    simp only [Item.nodesIn, List.mem_append, or_imp, forall_and]

theorem Branch.divertRefsIn_eq_nil_iff (lineStart : Nat) : ∀ bs : List Branch,
    Branch.divertRefsIn lineStart bs = [] ↔
      (∀ b ∈ bs, b.divert = none) ∧ ∀ j, .item j ∈ Branch.nodesIn bs → j.diverts = false
  | [] => by simp [Branch.divertRefsIn, Branch.nodesIn]
  | b :: bs => by
    rw [Branch.divertRefsIn, List.append_eq_nil_iff, Branch.divertRefs_eq_nil_iff lineStart b,
      Branch.divertRefsIn_eq_nil_iff lineStart bs, List.forall_mem_cons, and_and_and_comm]
    simp only [Branch.nodesIn, List.mem_append, or_imp, forall_and]

end

/-- There is no reference to a divert in a choice just if it diverts nowhere. -/
theorem isEmpty_divertRefsIn_choice (lineStart : Nat) (x : DivertContext) (m : Mark) (h : ChoiceHead)
    (c : List Item) :
    (Item.divertRefsIn lineStart x [.choice m h c]).isEmpty = !divertsSomewhere h c := by
  rw [Bool.eq_iff_iff, List.isEmpty_iff, Item.divertRefsIn_eq_nil_iff, Bool.not_eq_true', divertsSomewhere,
    Bool.or_eq_false_iff, List.any_eq_false]
  simp [Item.nodesIn, Item.nodes, Item.mem_itemsIn, Item.diverts]

/-! ### What is reported of choices -/

/-- The text of a choice. -/
def Item.choiceText : Item → String
  | choice _ h _ => h.text
  | _ => ""

/-- What is reported of a choice that leads nowhere: its text, and the line on which it begins. -/
def Knot.deadEnd (k : Knot) (i : Item) : Finding :=
  ⟨.danglingChoice i.choiceText, (k.lineRange i.id).map Span.first, some k.name⟩

namespace Knot.Spans

variable {ls : List String} {k : Knot} {i : Item}

theorem linesFrom_mark (hk : k.Spans ls) (hi : i ∈ Item.itemsIn k.items) :
    i.mark.linesFrom k.lineStart = k.lineRange i.id := by
  obtain ⟨s, hlines, hrange⟩ := hk.exists_linesFrom (Item.mem_itemsIn.mp hi)
  exact hlines.trans hrange.symm

/-- A choice is reported just if there is no reference in a knot that holds nothing else. -/
theorem danglingChoice?_eq (hk : k.Spans ls) (hi : i ∈ Item.itemsIn k.items) : Document.danglingChoice? k i =
    if i.isChoice && ({ k with items := [i] } : Knot).divertRefs.isEmpty then some (k.deadEnd i)
    else none := by
  cases i with
  | leaf m l => rfl
  | conditional m bs => rfl
  | choice m h c =>
    have hlines : m.linesFrom k.lineStart = k.lineRange m.id := hk.linesFrom_mark hi
    rw [Document.danglingChoice?, hlines, divertRefs, isEmpty_divertRefsIn_choice]
    cases divertsSomewhere h c <;> rfl

/-- The line that is reported of a choice is that on which it begins, and a line of its knot. -/
theorem line_deadEnd (hk : k.Spans ls) (hi : i ∈ Item.itemsIn k.items) (hchoice : i.isChoice = true) :
    ∃ n, (Node.item i).choiceLine? = some n ∧ (k.deadEnd i).line = some (k.lineStart + 1 + n) ∧
      k.lineStart + 1 + n ≤ k.lineEnd := by
  obtain ⟨s, hlines, hrange⟩ := hk.exists_linesFrom (Item.mem_itemsIn.mp hi)
  have hwithin := hk.lineRange hrange
  obtain ⟨t, ht, rfl⟩ := Option.map_eq_some_iff.mp hlines
  refine ⟨t.first, ?_, congrArg (Option.map Span.first) hrange, Nat.le_trans hwithin.2.1 hwithin.2.2⟩
  cases i with
  | leaf m l => exact nomatch hchoice
  | conditional m bs => exact nomatch hchoice
  | choice m h c => exact congrArg (Option.map Span.first) ht

end Knot.Spans

/-- One finding stands on a line in front of that of another one. -/
def Finding.Above (f g : Finding) : Prop := ∃ m ∈ f.line, ∃ n ∈ g.line, m < n

theorem Finding.Above.ne {f g : Finding} (h : f.Above g) : f ≠ g := by
  rintro rfl
  obtain ⟨m, hm, n, hn, hlt⟩ := h
  exact Nat.ne_of_lt hlt (Option.some.inj (hm.symm.trans hn))

/-- In a knot what is reported of choices stands one under the other. -/
theorem Knot.Spans.pairwise_deadEnds {ls : List String} {k : Knot} (hk : k.Spans ls) :
    (((Item.itemsIn k.items).filter Item.isChoice).map k.deadEnd).Pairwise Finding.Above := by
  obtain ⟨supply, hitems, -⟩ := hk.body
  have hlines := Body.pairwise_choiceLines_read supply ((ls.take k.lineEnd).drop k.lineStart)
  -- both lists are drawn from the nodes in document order
  rw [← hitems, Node.choiceLines, List.pairwise_filterMap] at hlines
  rw [List.pairwise_map, List.pairwise_filter, Item.itemsIn, List.pairwise_filterMap]
  refine hlines.imp_of_mem fun {n n'} hn hn' hlt i hi j hj hchoice hchoice' => ?_
  obtain rfl := Node.item?_eq_some_iff.mp hi
  obtain rfl := Node.item?_eq_some_iff.mp hj
  obtain ⟨a, ha, hline, -⟩ := hk.line_deadEnd (Item.mem_itemsIn.mpr hn) hchoice
  obtain ⟨b, hb, hline', -⟩ := hk.line_deadEnd (Item.mem_itemsIn.mpr hn') hchoice'
  exact ⟨_, hline, _, hline', Nat.add_lt_add_left (hlt a ha b hb) _⟩

namespace Document

variable {d : Document}

/-- The choices of the visible knots at any depth, knot by knot and in document order. -/
def choices (d : Document) : List (Knot × Item) :=
  d.visibleKnots.flatMap fun k => ((Item.itemsIn k.items).filter Item.isChoice).map (k, ·)

theorem mem_choices {k : Knot} {i : Item} :
    (k, i) ∈ d.choices ↔ k ∈ d.visibleKnots ∧ i ∈ Item.itemsIn k.items ∧ i.isChoice = true := by
  simp [choices]

theorem danglingChoices_eq {ls : List String} (h : ∀ k ∈ d.visibleKnots, k.Spans ls) :
    d.danglingChoices =
      (d.choices.filter fun x => ({ x.1 with items := [x.2] } : Knot).divertRefs.isEmpty).map fun x =>
        x.1.deadEnd x.2 := by
  rw [danglingChoices, choices, List.filter_flatMap, List.map_flatMap]
  refine List.flatMap_congr fun k hk => ?_
  rw [List.filterMap_congr fun i hi => (h k hk).danglingChoice?_eq hi, List.filter_map, List.filter_filter,
    List.map_map, ← List.filterMap_eq_map, List.filterMap_filter]
  simp only [Bool.and_comm, Function.comp_apply]

theorem pairwise_deadEnds_read (supply : Nat) (text : String) :
    ((read supply text).1.choices.map fun x => x.1.deadEnd x.2).Pairwise Finding.Above := by
  have hspans : ∀ k ∈ (read supply text).1.visibleKnots, k.Spans (Text.lines text) := fun k hk =>
    spans_of_mem_knots (List.mem_of_mem_filter hk)
  obtain ⟨cs, hcs⟩ := exists_composedOf supply text
  simp only [choices, List.map_flatMap, List.map_map, List.pairwise_flatMap]
  refine ⟨fun k hk => (hspans k hk).pairwise_deadEnds, ?_⟩
  -- of two knots the first one ends above the second one, and each holds the lines of its choices
  have hknots : (read supply text).1.visibleKnots.Pairwise fun k k' => k.lineEnd < k'.lineStart :=
    hcs.pairwise_knots.sublist List.filter_sublist
  refine hknots.imp_of_mem fun {k k'} hk hk' hlt f hf g hg => ?_
  obtain ⟨i, hi, rfl⟩ := List.mem_map.mp hf
  obtain ⟨j, hj, rfl⟩ := List.mem_map.mp hg
  obtain ⟨hi, hchoice⟩ := List.mem_filter.mp hi
  obtain ⟨hj, hchoice'⟩ := List.mem_filter.mp hj
  obtain ⟨a, -, hline, hle⟩ := (hspans k hk).line_deadEnd hi hchoice
  obtain ⟨b, -, hline', -⟩ := (hspans k' hk').line_deadEnd hj hchoice'
  exact ⟨_, hline, _, hline', by omega⟩

/-- What is reported of choices one under the other is reported of no two of them. -/
theorem deadEnd_mem_danglingChoices_iff {ls : List String} (hspans : ∀ k ∈ d.visibleKnots, k.Spans ls)
    (hends : (d.choices.map fun x => x.1.deadEnd x.2).Pairwise Finding.Above) {k : Knot} {i : Item}
    (hi : (k, i) ∈ d.choices) :
    k.deadEnd i ∈ d.danglingChoices ↔ ({ k with items := [i] } : Knot).divertRefs = [] := by
  rw [danglingChoices_eq hspans, List.mem_map]
  constructor
  · rintro ⟨x, hx, heq⟩
    obtain ⟨hmem, hempty⟩ := List.mem_filter.mp hx
    -- what is reported tells the choice that it is reported of
    obtain rfl := List.inj_on_of_nodup_map (hends.imp Finding.Above.ne) hmem hi heq
    exact List.isEmpty_iff.mp hempty
  · exact fun hrefs => ⟨(k, i), List.mem_filter.mpr ⟨hi, List.isEmpty_iff.mpr hrefs⟩, rfl⟩

/-- Of the choices in document order those are reported, one under the other, over which no divert is found.
So each choice is reported once if no divert is found over this choice alone, and otherwise not at all. -/
theorem danglingChoices_read (supply : Nat) (text : String) :
    let d := (read supply text).1
    d.danglingChoices =
        (d.choices.filter fun x => ({ x.1 with items := [x.2] } : Knot).divertRefs.isEmpty).map
          (fun x => x.1.deadEnd x.2) ∧
      d.danglingChoices.Pairwise Finding.Above ∧
      ∀ k ∈ d.visibleKnots, ∀ i ∈ Item.itemsIn k.items, i.isChoice = true →
        d.danglingChoices.count (k.deadEnd i) =
          if ({ k with items := [i] } : Knot).divertRefs = [] then 1 else 0 := by
  intro d
  have hspans : ∀ k ∈ d.visibleKnots, k.Spans (Text.lines text) := fun k hk =>
    spans_of_mem_knots (List.mem_of_mem_filter hk)
  have hends := pairwise_deadEnds_read supply text
  have heq := danglingChoices_eq hspans
  have habove : d.danglingChoices.Pairwise Finding.Above := by
    rw [heq]
    exact hends.sublist (List.filter_sublist.map _)
  refine ⟨heq, habove, fun k hk i hi hchoice => ?_⟩
  have hmem := deadEnd_mem_danglingChoices_iff hspans hends (mem_choices.mpr ⟨hk, hi, hchoice⟩)
  have hnodup : d.danglingChoices.Nodup := habove.imp Finding.Above.ne
  rw [hnodup.count]
  simp only [hmem]

/-- Of two choices with the same text the first one diverts in a branch of a conditional, and the second one
nowhere. -/
theorem danglingChoices_read_road :
    let d := (read 0 ("=== road ===\n* Wait\n\x7b\n- dusk:\n-> inn\n\x7d\n* Wait\nNothing comes.\n" ++
      "=== inn ===\nWarm.\n")).1
    ∃ k ∈ d.visibleKnots, ∃ i ∈ Item.itemsIn k.items, ∃ j ∈ Item.itemsIn k.items,
      i.isChoice = true ∧ j.isChoice = true ∧ i.choiceText = "Wait" ∧ j.choiceText = "Wait" ∧
        (k.deadEnd j).line = some 7 ∧ d.danglingChoices.count (k.deadEnd i) = 0 ∧
          d.danglingChoices.count (k.deadEnd j) = 1 := by
  intro d
  obtain ⟨-, -, hcount⟩ := danglingChoices_read 0
    ("=== road ===\n* Wait\n\x7b\n- dusk:\n-> inn\n\x7d\n* Wait\nNothing comes.\n" ++
      "=== inn ===\nWarm.\n")
  have hchoices : ∃ k ∈ d.visibleKnots, ∃ i ∈ Item.itemsIn k.items, ∃ j ∈ Item.itemsIn k.items,
      i.isChoice = true ∧ j.isChoice = true ∧ i.choiceText = "Wait" ∧ j.choiceText = "Wait" ∧
        (k.deadEnd j).line = some 7 ∧ ({ k with items := [i] } : Knot).divertRefs ≠ [] ∧
          ({ k with items := [j] } : Knot).divertRefs = [] := by
    decide +kernel
  obtain ⟨k, hk, i, hi, j, hj, hchoice, hchoice', htext, htext', hline, hrefs, hrefs'⟩ := hchoices
  refine ⟨k, hk, i, hi, j, hj, hchoice, hchoice', htext, htext', hline, ?_, ?_⟩
  · rw [hcount k hk i hi hchoice, if_neg hrefs]
  · rw [hcount k hk j hj hchoice', if_pos hrefs']

end Document

end StoryScript
