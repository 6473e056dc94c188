import StoryScript.Lint.Finding
import StoryScript.Proofs.Document.Issues
import StoryScript.Proofs.Document.Ranges

/-!
# The lines of findings

A finding that has a line stands on a line of the script (`Document.line_of_mem_findings`). It takes its line
from an issue, from the header of a knot or from the mark of a node, and a mark gives lines within the knot
(`Knot.Spans.lineRange`).
-/

namespace StoryScript

/-- Where a line is given, it is one of the first `n`. -/
def LineWithin (n : Nat) (line : Option Nat) : Prop := ∀ m ∈ line, 0 < m ∧ m ≤ n

theorem lineWithin_none (n : Nat) : LineWithin n none := by
  simp [LineWithin]

theorem lineWithin_some {m n : Nat} : LineWithin n (some m) ↔ 0 < m ∧ m ≤ n := by
  simp [LineWithin]

/-! ### Diverts -/

/-- A divert on the first or the last line of one of these nodes. -/
def DivertRef.On (lineStart : Nat) (ns : List Node) (r : DivertRef) : Prop :=
  ∃ n ∈ ns, r.line = (n.mark.linesFrom lineStart).map Span.first ∨
    r.line = (n.mark.linesFrom lineStart).map Span.last

theorem DivertRef.On.mono {lineStart : Nat} {ns ms : List Node} {r : DivertRef} (h : r.On lineStart ns)
    (hsub : ns ⊆ ms) : r.On lineStart ms := by
  obtain ⟨n, hn, hline⟩ := h
  exact ⟨n, hsub hn, hline⟩

mutual

/-- A divert is written where it begins, and a divert that was taken over where its node ends. -/
theorem Item.on_of_mem_divertRefs {r : DivertRef} (lineStart : Nat) : ∀ (i : Item) (x : DivertContext),
    r ∈ i.divertRefs lineStart x → r.On lineStart i.nodes
  | .leaf m l, x, h => by
    cases l with
    | divert target =>
      obtain rfl := List.mem_singleton.mp h
      exact ⟨_, List.mem_cons_self, Or.inl rfl⟩
    | _ => exact absurd h List.not_mem_nil
  | .choice m hd c, x, h => by
    rw [Item.divertRefs, List.mem_append, Option.mem_toList] at h
    rcases h with h | h
    · exact (Item.on_of_mem_divertRefsIn lineStart c _ h).mono (List.subset_cons_self _ _)
    · obtain ⟨target, -, rfl⟩ := Option.map_eq_some_iff.mp h
      exact ⟨_, List.mem_cons_self, Or.inr rfl⟩
  | .conditional m bs, x, h =>
    (Branch.on_of_mem_divertRefsIn lineStart bs h).mono (List.subset_cons_self _ _)

theorem Branch.on_of_mem_divertRefs {r : DivertRef} (lineStart : Nat) : ∀ b : Branch,
    r ∈ b.divertRefs lineStart → r.On lineStart b.nodes
  | .mk m g d c, h => by
    rw [Branch.divertRefs, List.mem_append, Option.mem_toList] at h
    rcases h with h | h
    · exact (Item.on_of_mem_divertRefsIn lineStart c _ h).mono (List.subset_cons_self _ _)
    · obtain ⟨target, -, rfl⟩ := Option.map_eq_some_iff.mp h
      exact ⟨_, List.mem_cons_self, Or.inr rfl⟩

theorem Item.on_of_mem_divertRefsIn {r : DivertRef} (lineStart : Nat) :
    ∀ (is : List Item) (x : DivertContext),
      r ∈ Item.divertRefsIn lineStart x is → r.On lineStart (Item.nodesIn is)
  | [], x, h => absurd h List.not_mem_nil
  | i :: is, x, h => by
    rw [Item.divertRefsIn, List.mem_append] at h
    rcases h with h | h
    · exact (Item.on_of_mem_divertRefs lineStart i x h).mono (List.subset_append_left _ _)
    · exact (Item.on_of_mem_divertRefsIn lineStart is x h).mono (List.subset_append_right _ _)

theorem Branch.on_of_mem_divertRefsIn {r : DivertRef} (lineStart : Nat) : ∀ bs : List Branch,
    r ∈ Branch.divertRefsIn lineStart bs → r.On lineStart (Branch.nodesIn bs)
  | [], h => absurd h List.not_mem_nil
  | b :: bs, h => by
    rw [Branch.divertRefsIn, List.mem_append] at h
    rcases h with h | h
    · exact (Branch.on_of_mem_divertRefs lineStart b h).mono (List.subset_append_left _ _)
    · exact (Branch.on_of_mem_divertRefsIn lineStart bs h).mono (List.subset_append_right _ _)

end

/-! ### A knot -/

namespace Knot.Spans

variable {ls : List String} {k : Knot}

theorem lineWithin_lineStart (h : k.Spans ls) : LineWithin ls.length (some k.lineStart) := by
  have hordered := h.ordered
  rw [lineWithin_some]
  omega

/-- The lines that the mark of a node gives are lines of the script. -/
theorem lineWithin_mark (h : k.Spans ls) {n : Node} (hn : n ∈ Item.nodesIn k.items) :
    LineWithin ls.length ((n.mark.linesFrom k.lineStart).map Span.first) ∧
      LineWithin ls.length ((n.mark.linesFrom k.lineStart).map Span.last) := by
  obtain ⟨s, hlines, hrange⟩ := h.exists_linesFrom hn
  have hs := h.lineRange hrange
  have hordered := h.ordered
  rw [hlines, Option.map_some, Option.map_some, lineWithin_some, lineWithin_some]
  omega

theorem lineWithin_divertRef (h : k.Spans ls) {r : DivertRef} (hr : r ∈ k.divertRefs) :
    LineWithin ls.length r.line := by
  obtain ⟨n, hn, hline⟩ := Item.on_of_mem_divertRefsIn k.lineStart k.items .standalone hr
  rcases hline with hline | hline
  · exact hline ▸ (h.lineWithin_mark hn).1
  · exact hline ▸ (h.lineWithin_mark hn).2

/-- What is found item by item, on the line where the item begins. -/
theorem lineWithin_of_items (h : k.Spans ls) {α : Type} {find : Item → Option α} {line : α → Option Nat}
    (hfind : ∀ i, ∀ a ∈ find i, line a = (i.mark.linesFrom k.lineStart).map Span.first) :
    ∀ a ∈ (Item.itemsIn k.items).filterMap find, LineWithin ls.length (line a) := by
  intro a ha
  obtain ⟨i, hi, hfound⟩ := List.mem_filterMap.mp ha
  rw [hfind i a hfound]
  exact (h.lineWithin_mark (Item.mem_itemsIn.mp hi)).1

end Knot.Spans

/-! ### A script -/

namespace Document

theorem line_danglingChoice? {k : Knot} (i : Item) :
    ∀ f ∈ danglingChoice? k i, f.line = (i.mark.linesFrom k.lineStart).map Span.first := by
  intro f hf
  unfold danglingChoice? at hf
  split at hf
  · split at hf
    · exact nomatch hf
    · obtain rfl := Option.some.inj hf
      rfl
  · exact nomatch hf

theorem line_unrecognized? {k : Knot} (i : Item) :
    ∀ f ∈ unrecognized? k i, f.line = (i.mark.linesFrom k.lineStart).map Span.first := by
  intro f hf
  unfold unrecognized? at hf
  split at hf
  · obtain rfl := Option.some.inj hf
    rfl
  · exact nomatch hf

theorem line_reference? {k : Knot} (i : Item) :
    ∀ r ∈ Media.reference? k i, r.line = (i.mark.linesFrom k.lineStart).map Span.first := by
  intro r hr
  unfold Media.reference? at hr
  split at hr
  · obtain rfl := Option.some.inj hr
    rfl
  · exact nomatch hr

/-- A finding that has a line stands on a line of the script. -/
theorem line_of_mem_findings {supply : Nat} {text : String} {images videos : Option (List String)}
    {config : MediaConfig} {f : Finding}
    (hf : f ∈ (read supply text).1.findings images videos config) :
    LineWithin (Text.lines text).length f.line := by
  have hspans : ∀ k ∈ (read supply text).1.visibleKnots, k.Spans (Text.lines text) := fun k hk =>
    spans_of_mem_knots (List.mem_of_mem_filter hk)
  -- rule by rule, in the order in which the findings are listed
  simp only [findings, List.mem_append] at hf
  rcases hf with (((((hf | hf) | hf) | hf) | hf) | hf) | hf
  · obtain ⟨i, hi, rfl⟩ := List.mem_map.mp hf
    exact lineWithin_some.mpr (line_of_mem_issues hi)
  · rcases List.mem_append.mp hf with hf | hf
    · obtain ⟨target, -, rfl⟩ := Option.map_eq_some_iff.mp (Option.mem_toList.mp hf)
      exact lineWithin_none _
    · obtain ⟨k, hk, hf⟩ := List.mem_flatMap.mp hf
      obtain ⟨r, hr, rfl⟩ := List.mem_map.mp hf
      exact (hspans k hk).lineWithin_divertRef (List.mem_of_mem_filter hr)
  · obtain ⟨k, hk, hf⟩ := List.mem_flatMap.mp hf
    exact (hspans k hk).lineWithin_of_items line_danglingChoice? f hf
  · obtain ⟨k, hk, rfl⟩ := List.mem_map.mp hf
    exact (hspans k (List.mem_of_mem_filter hk)).lineWithin_lineStart
  · obtain ⟨name, -, rfl⟩ := List.mem_map.mp hf
    intro m hm
    obtain ⟨k, hk, rfl⟩ := Option.map_eq_some_iff.mp hm
    exact lineWithin_some.mp (hspans k (List.mem_of_find?_eq_some hk)).lineWithin_lineStart
  · obtain ⟨k, hk, hf⟩ := List.mem_flatMap.mp hf
    exact (hspans k hk).lineWithin_of_items line_unrecognized? f hf
  · unfold missingMedia at hf
    split at hf
    · exact absurd hf List.not_mem_nil
    · obtain ⟨r, hr, rfl⟩ := List.mem_map.mp hf
      obtain ⟨k, hk, hr⟩ := List.mem_flatMap.mp (List.mem_of_mem_filter hr)
      exact (hspans k hk).lineWithin_of_items line_reference? r hr

end Document

end StoryScript
