import StoryScript.Proofs.Body.Nested
import StoryScript.Proofs.Body.Recorded
import StoryScript.Proofs.Document.Identities
import StoryScript.Proofs.Document.Spans
import StoryScript.Proofs.Story.Nodes

/-!
# The lines of nodes

The lines recorded for the nodes of a body mirror the tree (`Body.Mirrors`): they are recorded for every node
under an identity of its own, those of a node lie within those of the node around it, and nodes next to each
other stand one behind the other. What is looked up by identity in the table of lines (`Body.linesOf?`) is
what the marks of the tree give (`Body.nodeLines_read`), and for these it is `Body.nestedIn_read`. In a script the lines of a node lie behind the header of its knot and not behind the last
line of the knot (`Document.mirrors_and_lineRange_read`).
-/

namespace StoryScript

/-! ### Nodes and their children -/

namespace Node

/-- A node on lines within `around`, and everything in it within its lines. -/
def Nested (around : Span) : Node → Prop
  | item i => i.Nested around
  | branch b => b.Nested around

variable {around : Span} {n : Node}

theorem Nested.mono {wider : Span} (h : n.Nested around) (hfirst : wider.first ≤ around.first)
    (hlast : around.last ≤ wider.last) : n.Nested wider := by
  cases n with
  | item i => exact Item.Nested.mono h hfirst hlast
  | branch b => exact Branch.Nested.mono h hfirst hlast

/-- Nodes one behind the other, as nodes of one kind are. -/
theorem isChain_map {α : Type} {mark : α → Mark} {node : α → Node} {xs : List α}
    (hmark : ∀ x, (node x).mark = mark x) (h : xs.IsChain fun x y => (mark x).Before (mark y)) :
    (xs.map node).IsChain fun m n => m.mark.Before n.mark := by
  rw [List.isChain_map]
  simpa only [hmark] using h

/-- The children of a node stand on its lines, one behind the other. -/
theorem Nested.children (h : n.Nested around) : ∃ s, n.mark.span = some s ∧ s.Within around ∧
    (n.children.IsChain fun m n => m.mark.Before n.mark) ∧ ∀ c ∈ n.children, c.Nested s := by
  have hitems : ∀ {s : Span} {is : List Item}, Item.NestedIn s is →
      ((is.map item).IsChain fun m n => m.mark.Before n.mark) ∧ ∀ c ∈ is.map item, c.Nested s := by
    intro s is his
    rw [Item.nestedIn_iff] at his
    exact ⟨isChain_map (fun _ => rfl) his.1, List.forall_mem_map.mpr his.2⟩
  cases n with
  | item i =>
    cases i with
    | leaf m l =>
      obtain ⟨s, hs, hin⟩ := h
      exact ⟨s, hs, hin, .nil, by simp [Node.children]⟩
    | choice m hd c =>
      obtain ⟨s, hs, hin, hc⟩ := h
      exact ⟨s, hs, hin, hitems hc⟩
    | conditional m bs =>
      obtain ⟨s, hs, hin, hbs⟩ := h
      rw [Branch.nestedIn_iff] at hbs
      exact ⟨s, hs, hin, isChain_map (fun _ => rfl) hbs.1, List.forall_mem_map.mpr hbs.2⟩
  | branch b =>
    obtain ⟨m, g, d, c⟩ := b
    obtain ⟨s, hs, hin, hc⟩ := h
    exact ⟨s, hs, hin, hitems hc⟩

end Node

mutual

/-- Everything in an item stands on its lines. -/
theorem Item.Nested.nodes : ∀ {i : Item} {around : Span}, i.Nested around →
    ∀ n ∈ i.nodes, n.Nested around
  | .leaf m l, _, h => by
    rw [Item.nodes, List.forall_mem_singleton]
    exact h
  | .choice m hd c, _, h => by
    rw [Item.nodes, List.forall_mem_cons]
    refine ⟨h, fun n hn => ?_⟩
    obtain ⟨s, -, hin, hc⟩ := h
    exact (Item.NestedIn.nodes hc n hn).mono hin.first hin.last
  | .conditional m bs, _, h => by
    rw [Item.nodes, List.forall_mem_cons]
    refine ⟨h, fun n hn => ?_⟩
    obtain ⟨s, -, hin, hbs⟩ := h
    exact (Branch.NestedIn.nodes hbs n hn).mono hin.first hin.last

theorem Branch.Nested.nodes : ∀ {b : Branch} {around : Span}, b.Nested around →
    ∀ n ∈ b.nodes, n.Nested around
  | .mk m g d c, _, h => by
    rw [Branch.nodes, List.forall_mem_cons]
    refine ⟨h, fun n hn => ?_⟩
    obtain ⟨s, -, hin, hc⟩ := h
    exact (Item.NestedIn.nodes hc n hn).mono hin.first hin.last

theorem Item.NestedIn.nodes : ∀ {is : List Item} {around : Span}, Item.NestedIn around is →
    ∀ n ∈ Item.nodesIn is, n.Nested around
  | [], _, _ => by simp [Item.nodesIn]
  | i :: is, _, h => by
    rw [Item.nodesIn, List.forall_mem_append]
    exact ⟨Item.Nested.nodes h.1, Item.NestedIn.nodes h.2.2⟩

theorem Branch.NestedIn.nodes : ∀ {bs : List Branch} {around : Span}, Branch.NestedIn around bs →
    ∀ n ∈ Branch.nodesIn bs, n.Nested around
  | [], _, _ => by simp [Branch.nodesIn]
  | b :: bs, _, h => by
    rw [Branch.nodesIn, List.forall_mem_append]
    exact ⟨Branch.Nested.nodes h.1, Branch.NestedIn.nodes h.2.2⟩

end

/-! ### Looking lines up -/

namespace Body

/-- The lines that are recorded for an identity, if the lines of the body are counted from `first` on. -/
def linesOf? (b : Body) (first : Int) (id : Id) : Option (Int × Int) :=
  ((b.nodeLines first).find? fun x => x.1 = id).bind Prod.snd

/-- The lines of a body of some length, counted from `first` on, mirror its tree. -/
structure Mirrors (b : Body) (first : Int) (length : Nat) : Prop where
  keys : (b.nodeLines first).map Prod.fst = Item.idsIn b.items
  distinct : (Item.idsIn b.items).Nodup
  recorded : ∀ id ∈ Item.idsIn b.items, ∃ x, b.linesOf? first id = some x ∧
    first ≤ x.1 ∧ x.1 ≤ x.2 ∧ x.2 < first + length
  inside : ∀ n ∈ Item.nodesIn b.items, ∀ c ∈ n.children, ∀ x ∈ b.linesOf? first n.id,
    ∀ y ∈ b.linesOf? first c.id, x.1 ≤ y.1 ∧ y.2 ≤ x.2
  /-- The items at the root stand one behind the other, and so does what is directly inside a node. -/
  inOrder : ∀ ns ∈ b.items.map Node.item :: (Item.nodesIn b.items).map Node.children,
    ns.IsChain fun m n => ∀ x ∈ b.linesOf? first m.id, ∀ y ∈ b.linesOf? first n.id, x.2 ≤ y.1

variable {b : Body} {first : Int}

/-- Where the table lists the nodes of the tree and no two of them share an identity, the lines that are looked
up are those of the node. -/
theorem linesOf?_id (hlines : b.nodeLines first =
      (Item.nodesIn b.items).map fun n => (n.id, n.linesFrom first))
    (h : (Item.idsIn b.items).Nodup) {n : Node} (hn : n ∈ Item.nodesIn b.items) :
    b.linesOf? first n.id = n.linesFrom first := by
  have hsome : ((b.nodeLines first).find? fun x => x.1 = n.id).isSome := by
    rw [List.find?_isSome, hlines]
    exact ⟨_, List.mem_map_of_mem hn, by simp⟩
  obtain ⟨x, hx⟩ := Option.isSome_iff_exists.mp hsome
  obtain ⟨m, hm, rfl⟩ := List.mem_map.mp (hlines ▸ List.mem_of_find?_eq_some hx)
  have hid : m.id = n.id := by simpa using List.find?_some hx
  obtain rfl : m = n := List.inj_on_of_nodup_map h hm hn hid
  rw [linesOf?, hx]
  rfl

/-- A nested tree is mirrored by a table of the lines of its nodes. -/
theorem mirrors_of_nestedIn {length : Nat} (hrecorded : b.nodeLines first =
      (Item.nodesIn b.items).map fun n => (n.id, n.linesFrom first))
    (hlength : b.items ≠ [] → 0 < length)
    (hdistinct : (Item.idsIn b.items).Nodup) (h : Item.NestedIn ⟨0, length - 1⟩ b.items) :
    b.Mirrors first length := by
  -- what is looked up for a node is its span, counted from the first line of the body
  have hlines : ∀ {n : Node} {s : Span}, n ∈ Item.nodesIn b.items → n.mark.span = some s →
      b.linesOf? first n.id = some (first + s.first, first + s.last) := by
    intro n s hn hs
    rw [linesOf?_id hrecorded hdistinct hn, Node.linesFrom, hs]
    rfl
  have horder : ∀ ns : List Node, ns ⊆ Item.nodesIn b.items →
      (ns.IsChain fun m n => m.mark.Before n.mark) → ns.IsChain fun m n =>
        ∀ x ∈ b.linesOf? first m.id, ∀ y ∈ b.linesOf? first n.id, x.2 ≤ y.1 := by
    intro ns hsub hchain
    refine List.IsChain.imp_of_mem_imp (fun m n hm hn hbefore x hx y hy => ?_) hchain
    obtain ⟨s, hs, -⟩ := (h.nodes m (hsub hm)).children
    obtain ⟨t, ht, -⟩ := (h.nodes n (hsub hn)).children
    obtain rfl := Option.some.inj (hx.symm.trans (hlines (hsub hm) hs))
    obtain rfl := Option.some.inj (hy.symm.trans (hlines (hsub hn) ht))
    have hle := hbefore s hs t ht
    dsimp only
    omega
  refine ⟨?_, hdistinct, fun id hid => ?_, fun n hn c hc x hx y hy => ?_, ?_⟩
  · rw [hrecorded, List.map_map]
    rfl
  · obtain ⟨n, hn, rfl⟩ := List.mem_map.mp hid
    obtain ⟨s, hs, hin, -⟩ := (h.nodes n hn).children
    have hpos := hlength fun hnil => by simp [hnil, Item.nodesIn] at hn
    have hle := hin.last
    have hordered := hin.ordered
    refine ⟨_, hlines hn hs, ?_, ?_, ?_⟩
    all_goals
      dsimp only at hle ⊢
      omega
  · obtain ⟨s, hs, -, -, hchildren⟩ := (h.nodes n hn).children
    obtain ⟨t, ht, hin, -⟩ := (hchildren c hc).children
    have hcmem := Item.children_subset_nodesIn b.items n hn hc
    obtain rfl := Option.some.inj (hx.symm.trans (hlines hn hs))
    obtain rfl := Option.some.inj (hy.symm.trans (hlines hcmem ht))
    have hfirst := hin.first
    have hlast := hin.last
    dsimp only
    omega
  · rw [List.forall_mem_cons]
    refine ⟨horder _ (fun x hx => ?_) (Node.isChain_map (fun _ => rfl) (Item.nestedIn_iff.mp h).1),
      List.forall_mem_map.mpr fun n hn => ?_⟩
    · obtain ⟨i, hi, rfl⟩ := List.mem_map.mp hx
      exact Item.item_mem_nodesIn hi
    · obtain ⟨_, -, -, hchain, -⟩ := (h.nodes n hn).children
      exact horder _ (Item.children_subset_nodesIn b.items n hn) hchain

theorem mirrors_read (supply : Nat) (texts : List String) (first : Int) :
    (read supply texts).1.Mirrors first texts.length := by
  have hcount := (count_idsIn_read_le supply texts).2
  have hdistinct : (Item.idsIn (read supply texts).1.items).Nodup :=
    List.nodup_iff_count_le_one.mpr fun i => Nat.le_trans (hcount i)
      (Nat.le_trans (Id.drawn_le_known _ _ i) (Id.known_le_one _ i))
  refine mirrors_of_nestedIn (nodeLines_read supply texts first) (fun hitems => ?_) hdistinct
    (nestedIn_read supply texts)
  -- a body without lines has no items
  rw [List.length_pos_iff]
  rintro rfl
  exact hitems rfl

end Body

/-! ### Knots -/

/-- The lines of a node lie between the header and the end of its knot. -/
theorem Knot.Spans.lineRange {ls : List String} {k : Knot} (h : k.Spans ls) {id : Id} {s : Span}
    (hs : k.lineRange id = some s) : k.lineStart < s.first ∧ s.first ≤ s.last ∧ s.last ≤ k.lineEnd := by
  obtain ⟨supply, hitems, -⟩ := h.body
  have hordered := h.ordered
  have hmirrors := Body.mirrors_read supply ((ls.take k.lineEnd).drop k.lineStart) 0
  have hlength : ((ls.take k.lineEnd).drop k.lineStart).length = k.lineEnd - k.lineStart := by
    rw [List.length_drop, List.length_take]
    omega
  obtain ⟨n, hn, hlines⟩ := Option.bind_eq_some_iff.mp hs
  have hmem : n ∈ Item.nodesIn k.items := List.mem_reverse.mp (List.mem_of_find?_eq_some hn)
  obtain ⟨t, ht, rfl⟩ := Option.map_eq_some_iff.mp hlines
  rw [hitems] at hmem
  obtain ⟨x, hx, -, hle, hlt⟩ := hmirrors.recorded _ (List.mem_map_of_mem hmem)
  rw [Body.linesOf?_id (Body.nodeLines_read _ _ _) hmirrors.distinct hmem, Node.linesFrom, ht] at hx
  obtain rfl := Option.some.inj hx
  rw [hlength] at hlt
  dsimp only at hle hlt ⊢
  omega

/-- The lines that the mark of a node gives are those that are looked up for it. -/
theorem Knot.Spans.exists_linesFrom {ls : List String} {k : Knot} (h : k.Spans ls) {n : Node}
    (hn : n ∈ Item.nodesIn k.items) :
    ∃ s, n.mark.linesFrom k.lineStart = some s ∧ k.lineRange n.id = some s := by
  obtain ⟨supply, hitems, -⟩ := h.body
  have hdistinct := (Body.mirrors_read supply ((ls.take k.lineEnd).drop k.lineStart) 0).distinct
  obtain ⟨s, hs, -⟩ := ((Body.nestedIn_read supply _).nodes n (hitems ▸ hn)).children
  have hlines : n.mark.linesFrom k.lineStart = some ⟨k.lineStart + 1 + s.first, k.lineStart + 1 + s.last⟩ := by
    rw [Mark.linesFrom, hs]
    rfl
  exact ⟨_, hlines, (lineRange_id (hitems ▸ hdistinct) hn).trans hlines⟩

theorem Document.spans_of_mem_knots {supply : Nat} {text : String} {k : Knot}
    (hk : k ∈ (read supply text).1.knots) : k.Spans (Text.lines text) :=
  (ScriptState.spanned_ofLines supply (Text.lines text)).2 k (List.mem_reverse.mp hk)

/-- The lines that are recorded for the nodes of a body mirror its tree, and the lines of a node in a script
are lines of its knot. -/
theorem Document.mirrors_and_lineRange_read :
    (∀ supply texts first, (Body.read supply texts).1.Mirrors first texts.length) ∧
      ∀ supply text, ∀ k ∈ (Document.read supply text).1.knots,
        (∀ id ∈ Item.idsIn k.items, (k.lineRange id).isSome = true) ∧
          ∀ id, ∀ s ∈ k.lineRange id,
            k.lineStart < s.first ∧ s.first ≤ s.last ∧ s.last ≤ k.lineEnd := by
  refine ⟨Body.mirrors_read, fun supply text k hk => ?_⟩
  have hspans := (ScriptState.spanned_ofLines supply (Text.lines text)).2 k (List.mem_reverse.mp hk)
  refine ⟨fun id hid => ?_, fun id s hs => hspans.lineRange hs⟩
  obtain ⟨supply', hitems, -⟩ := hspans.body
  have hmirrors := Body.mirrors_read supply' ((Text.lines text |>.take k.lineEnd).drop k.lineStart) 0
  obtain ⟨n, hn, rfl⟩ := List.mem_map.mp hid
  rw [Knot.lineRange_id (hitems ▸ hmirrors.distinct) hn]
  rw [hitems] at hn
  obtain ⟨s, hs, -⟩ := ((Body.nestedIn_read _ _).nodes n hn).children
  rw [Mark.linesFrom, hs]
  rfl

end StoryScript
