import StoryScript.Proofs.Body.Identities
import StoryScript.Proofs.Document.Carry
import StoryScript.Proofs.Document.Section

/-!
# The identities of a document

In every knot of a document that was read, and that carries identities of an earlier one, each identity
belongs to one node (`Document.numbered_read`, `Document.Numbered.carry`). So the lines of a node can be
asked for by its identity (`Knot.map_lineRange_idsIn`), although they are looked up among all nodes of the
knot.
-/

namespace StoryScript

/-- The identities of all nodes of a list of knots. -/
def Knot.idsIn (ks : List Knot) : List Id := ks.flatMap fun k => Item.idsIn k.items

namespace Knot

@[simp] theorem idsIn_nil : idsIn [] = [] := rfl

@[simp] theorem idsIn_cons (k : Knot) (ks : List Knot) :
    idsIn (k :: ks) = Item.idsIn k.items ++ idsIn ks := List.flatMap_cons

@[simp] theorem idsIn_append (ks ls : List Knot) : idsIn (ks ++ ls) = idsIn ks ++ idsIn ls :=
  List.flatMap_append

theorem count_idsIn_reverse (ks : List Knot) (i : Id) : (idsIn ks.reverse).count i = (idsIn ks).count i :=
  ((List.reverse_perm ks).flatMap_right _).count_eq i

theorem count_idsIn_le {ks : List Knot} {k : Knot} (hk : k ∈ ks) (i : Id) :
    (Item.idsIn k.items).count i ≤ (idsIn ks).count i := by
  obtain ⟨as, bs, rfl⟩ := List.append_of_mem hk
  rw [idsIn_append, idsIn_cons, List.count_append, List.count_append]
  omega

end Knot

/-! ### Scripts that are read -/

namespace ScriptState

/-- The identities of the knots read so far were handed out, each once, since the supply stood at
`first`. -/
structure Drawn (first : Nat) (s : ScriptState) : Prop where
  supply : first ≤ s.supply
  knots : ∀ i, (Knot.idsIn s.knots).count i ≤ Id.drawn first s.supply i

variable {first : Nat} {s t : ScriptState}

theorem supply_closeKnot (last : Nat) {k : OpenKnot} (h : s.knot = some k) :
    (s.closeKnot last).supply = (Body.read s.supply k.body.reverse).2 := by
  rw [closeKnot, h]
  dsimp only
  split <;> rfl

theorem supply_closeRegion (last : Nat) (s : ScriptState) :
    (s.closeRegion last).supply = s.supply := by
  unfold closeRegion
  split <;> rfl

theorem supply_closeUnclosedRegion (line last : Nat) (s : ScriptState) :
    (s.closeUnclosedRegion line last).supply = s.supply := by
  unfold closeUnclosedRegion
  split
  · rfl
  · exact supply_closeRegion last _

namespace Drawn

theorem of_eq (hknots : t.knots = s.knots) (hsupply : t.supply = s.supply) (h : s.Drawn first) :
    t.Drawn first :=
  ⟨by rw [hsupply]; exact h.supply, by rw [hknots, hsupply]; exact h.knots⟩

/-- The tree of a knot that ends is read with what is left of the supply. -/
theorem closeKnot (h : s.Drawn first) (last : Nat) : (s.closeKnot last).Drawn first := by
  cases hs : s.knot with
  | none => rwa [closeKnot_of_none last hs]
  | some k =>
    obtain ⟨hsupply, hread⟩ := Body.count_idsIn_read_le s.supply k.body.reverse
    have hmono : ∀ i, Id.drawn first s.supply i +
        Id.drawn s.supply (Body.read s.supply k.body.reverse).2 i =
          Id.drawn first (Body.read s.supply k.body.reverse).2 i :=
      Id.drawn_add_drawn h.supply hsupply
    refine ⟨?_, ?_⟩
    · rw [supply_closeKnot last hs]
      exact Nat.le_trans h.supply hsupply
    · intro i
      rw [supply_closeKnot last hs, knots_closeKnot last hs, Knot.idsIn_cons, List.count_append]
      have hbody := hread i
      have hknots := h.knots i
      have hsplit := hmono i
      change (Item.idsIn (Body.read s.supply k.body.reverse).1.items).count i + _ ≤ _
      omega

theorem step (h : s.Drawn first) (n : Nat) (p : String) (l : Line) : (s.step n p l).Drawn first := by
  have hclosed := h.closeKnot (n - 1)
  have hsteps := steps n p l s
  generalize s.step n p l = t at hsteps ⊢
  cases hsteps with
  | header _ => exact ⟨hclosed.supply, hclosed.knots⟩
  | regionStart _ =>
    exact hclosed.of_eq (sameKnots_closeUnclosedRegion _ _ _).1 (supply_closeUnclosedRegion _ _ _)
  | strayEnd _ _ => exact ⟨hclosed.supply, hclosed.knots⟩
  | regionEnd _ _ => exact hclosed.of_eq (sameKnots_closeRegion _ _).1 (supply_closeRegion _ _)
  | body _ _ => exact ⟨h.supply, h.knots⟩
  | blank _ _ => exact h
  | loose _ _ _ =>
    have hsame := sameChapters_looseLine n l s
    exact h.of_eq hsame.knots hsame.supply

theorem readFrom (h : s.Drawn first) (n : Nat) (xs : List (String × Line)) :
    (s.readFrom n xs).Drawn first := by
  induction xs generalizing s n with
  | nil => exact h
  | cons x xs ih =>
    obtain ⟨p, l⟩ := x
    rw [ScriptState.readFrom]
    exact ih (h.step n p l) (n + 1)

theorem ofLines (supply : Nat) (ls : List String) :
    (ScriptState.ofLines supply ls).Drawn supply := by
  have hstart : Drawn supply { supply } := ⟨Nat.le_refl _, by simp⟩
  have hclosed := (hstart.readFrom 1 (ls.zip (Line.ofTexts ls))).closeKnot ls.length
  exact hclosed.of_eq (sameKnots_closeUnclosedRegion _ _ _).1 (supply_closeUnclosedRegion _ _ _)

end Drawn

end ScriptState

/-! ### Documents -/

namespace Document

/-- A document in each knot of which no two nodes share an identity, and every identity that was drawn
was handed out before the supply came to `supply`. -/
def Numbered (supply : Nat) (d : Document) : Prop := ∀ k ∈ d.knots, Item.Numbered supply k.items

variable {supply supply' : Nat} {d : Document}

theorem Numbered.mono (h : d.Numbered supply) (hle : supply ≤ supply') : d.Numbered supply' :=
  fun k hk => (h k hk).mono hle

theorem le_supply_read (supply : Nat) (text : String) : supply ≤ (read supply text).2 :=
  (ScriptState.Drawn.ofLines supply (Text.lines text)).supply

/-- The identities of all nodes of a document. -/
def ids (d : Document) : List Id := Knot.idsIn d.knots

theorem count_ids_read_le (supply : Nat) (text : String) (i : Id) :
    (read supply text).1.ids.count i ≤ Id.drawn supply (read supply text).2 i := by
  change (Knot.idsIn (ScriptState.ofLines supply (Text.lines text)).knots.reverse).count i ≤ _
  rw [Knot.count_idsIn_reverse]
  exact (ScriptState.Drawn.ofLines supply (Text.lines text)).knots i

theorem count_idsIn_read_le {text : String} {k : Knot} (hk : k ∈ (read supply text).1.knots) (i : Id) :
    (Item.idsIn k.items).count i ≤ Id.drawn supply (read supply text).2 i :=
  Nat.le_trans (Knot.count_idsIn_le hk i) (count_ids_read_le supply text i)

/-- A document that was read has no identity twice in a knot. -/
theorem numbered_read (supply : Nat) (text : String) :
    (read supply text).1.Numbered (read supply text).2 :=
  fun _ hk i => Nat.le_trans (count_idsIn_read_le hk i) (Id.drawn_le_known _ _ i)

theorem mem_of_mem_withOccurrence {seen : List String} {ks : List Knot} {k : Knot} {n : Nat}
    (h : (k, n) ∈ withOccurrence seen ks) : k ∈ ks := by
  rw [← map_fst_withOccurrence seen ks]
  exact List.mem_map_of_mem h

/-- The tree that a knot is aligned with is the one that was supplied or that of an old knot. -/
theorem of_reference? {old : Document} {c : Counterpart} {name : String} {n : Nat} {items : List Item}
    (h : old.reference? c name n = some items) :
    (∃ x ∈ c, x.2 = items) ∨ ∃ k ∈ old.knots, k.items = items := by
  unfold reference? at h
  split at h
  · next other items' hfilter =>
    obtain rfl := Option.some.inj h
    refine Or.inl ⟨(other, items'), ?_, rfl⟩
    rw [Option.filter_eq_some_iff] at hfilter
    exact hfilter.1
  · obtain ⟨⟨k, m⟩, hfind, rfl⟩ := Option.map_eq_some_iff.mp h
    exact Or.inr ⟨k, mem_of_mem_withOccurrence (List.mem_of_find?_eq_some hfind), rfl⟩

/-- Neither has one that carries identities over from such a document. -/
theorem Numbered.carry {old : Document} (hold : old.Numbered supply) {c : Counterpart}
    (hc : ∀ x ∈ c, Item.Numbered supply x.2) (text : String) :
    ((read supply text).1.carry old c).Numbered (read supply text).2 := by
  intro k hk
  rw [knots_carry] at hk
  obtain ⟨⟨l, n⟩, hl, rfl⟩ := List.mem_map.mp hk
  have hmem := mem_of_mem_withOccurrence hl
  unfold carryKnot
  split
  · next items hitems =>
    have hreference : Item.Numbered supply items := by
      rcases of_reference? hitems with ⟨x, hx, rfl⟩ | ⟨k, hk, rfl⟩
      · exact hc x hx
      · exact hold k hk
    intro i
    have hcarried := Item.count_idsIn_carry_le l.items items i
    have hknown := hreference i
    have hdrawn := count_idsIn_read_le hmem i
    have hsum := Id.known_add_drawn (le_supply_read supply text) i
    change (Item.idsIn (Item.carry l.items items).1).count i ≤ _
    omega
  · exact numbered_read supply text l hmem

end Document

/-! ### The lines of nodes -/

namespace Knot

/-- Where no two nodes share an identity, the lines that are looked up are those of the node. -/
theorem lineRange_id {k : Knot} (h : (Item.idsIn k.items).Nodup) {n : Node}
    (hn : n ∈ Item.nodesIn k.items) : k.lineRange n.id = n.mark.linesFrom k.lineStart := by
  have hsome : ((Item.nodesIn k.items).reverse.find? fun m => m.id = n.id).isSome := by
    rw [List.find?_isSome]
    exact ⟨n, List.mem_reverse.mpr hn, by simp⟩
  obtain ⟨m, hm⟩ := Option.isSome_iff_exists.mp hsome
  have hid : m.id = n.id := by simpa using List.find?_some hm
  have hmem : m ∈ Item.nodesIn k.items := List.mem_reverse.mp (List.mem_of_find?_eq_some hm)
  obtain rfl : m = n := List.inj_on_of_nodup_map h hmem hn hid
  rw [lineRange, hm]
  rfl

theorem map_lineRange_idsIn {k : Knot} (h : (Item.idsIn k.items).Nodup) :
    (Item.idsIn k.items).map k.lineRange =
      (Item.nodesIn k.items).map fun n => n.mark.linesFrom k.lineStart := by
  rw [Item.idsIn, List.map_map]
  exact List.map_congr_left fun n hn => lineRange_id h hn

end Knot

/-- The lines of all nodes of a tree, in document order. -/
def Item.spansIn (is : List Item) : List (Option Span) := (Item.nodesIn is).map (·.mark.span)

/-- Where the nodes of a tree stand does not depend on identities. -/
theorem Item.spansIn_unlabelledIn (is : List Item) :
    Item.spansIn (Item.unlabelledIn is) = Item.spansIn is := by
  rw [Item.spansIn, Item.nodesIn_unlabelledIn, List.map_map, Item.spansIn]
  exact List.map_congr_left fun n _ => n.span_unlabelled

/-- Knots that begin on the same line and differ in identities alone have their nodes on the same lines. -/
theorem Knot.map_linesFrom_congr {k l : Knot} (hstart : k.lineStart = l.lineStart)
    (hitems : Item.unlabelledIn k.items = Item.unlabelledIn l.items) :
    ((Item.nodesIn k.items).map fun n => n.mark.linesFrom k.lineStart) =
      (Item.nodesIn l.items).map fun n => n.mark.linesFrom l.lineStart := by
  have hspans : Item.spansIn k.items = Item.spansIn l.items := by
    rw [← Item.spansIn_unlabelledIn, hitems, Item.spansIn_unlabelledIn]
  have hlines := congrArg (List.map fun s : Option Span =>
    s.map fun s => (⟨k.lineStart + 1 + s.first, k.lineStart + 1 + s.last⟩ : Span)) hspans
  rw [Item.spansIn, Item.spansIn, List.map_map, List.map_map] at hlines
  rw [hstart] at hlines ⊢
  exact hlines

end StoryScript
