import StoryScript.Proofs.Body.Diverts
import StoryScript.Proofs.Story.Nodes

/-!
# No line is lost

Every line of a body that is not blank can be found again in the tree (`Node.Accounts`): a node begins
on it, or it is the brace that closes a conditional, or it is a divert that a choice or a branch around
it has taken over. Together with `Body.perm_diverts_read` this is `Body.read_lossless`.

While containers are still open, a line is accounted for by a finished node or by an open container
that begins on it (`BodyState.Accounts`). Whatever an act does to the containers keeps this for all
lines before it (`BodyState.Grows`). The one step that takes a node away is a container taking over
the divert that ends its content; the line of that divert lies within the container then, since a
container goes on up to the line that was read last (`Frame.Covers`).
-/

namespace StoryScript

/-! ### Accounting for a line -/

namespace Node

/-- The divert of a choice or of a branch. -/
def divert? : Node → Option String
  | item (.choice _ h _) => h.divert
  | branch b => b.divert
  | item _ => none

def isConditional : Node → Bool
  | item (.conditional _ _) => true
  | _ => false

/-- The target of a node that is a divert. -/
def divertTarget? : Node → Option String
  | item i => i.divertTarget?
  | branch _ => none

/-- A node that a line of a body is found in. -/
inductive Accounts (line : Nat) (l : Line) (n : Node) : Prop
  /-- The node begins on the line. A divert accounts for a line that is just this divert. -/
  | begins {last : Nat} (hspan : n.mark.span = some ⟨line, last⟩)
      (hdivert : ∀ t ∈ n.divertTarget?, l.form = .divert t)
  /-- The line is the brace that closes the conditional. -/
  | closes {first : Nat} (hform : l.form = .conditionalClose) (hn : n.isConditional = true)
      (hspan : n.mark.span = some ⟨first, line⟩)
  /-- The line is the divert of the choice or the branch. -/
  | diverts {first last : Nat} {target : String} (hform : l.form = .divert target)
      (hn : n.divert? = some target) (hspan : n.mark.span = some ⟨first, last⟩)
      (hfirst : first ≤ line) (hlast : line ≤ last)

end Node

theorem Item.mem_nodesIn_reverse {n : Node} {is : List Item} :
    n ∈ Item.nodesIn is.reverse ↔ n ∈ Item.nodesIn is := by
  simp [Item.mem_nodesIn]

/-! ### Open frames -/

namespace Frame

/-- The finished nodes in a frame. -/
def nodes : Frame → List Node
  | choice _ _ _ c => Item.nodesIn c
  | branch _ bs _ _ c => Branch.nodesIn bs ++ Item.nodesIn c

/-- The marks of the containers in a frame. -/
def marks : Frame → List OpenMark
  | choice m _ _ _ => [m]
  | branch k _ m _ _ => [k, m]

/-- The lines of the innermost container in a frame. -/
def span : Frame → Span
  | choice m _ _ _ => m.span
  | branch _ _ m _ _ => m.span

/-- The frame was opened and extended up to `line` at the latest, and its own diverts stand on its
lines. -/
structure Covers (line : Nat) (f : Frame) : Prop where
  first : f.span.first ≤ line
  last : f.span.last ≤ line
  diverts : ∀ m t, .leaf m (.divert t) ∈ f.content →
    ∃ s, m.span = some s ∧ f.span.first ≤ s.first ∧ s.first ≤ f.span.last

variable {f : Frame} {line : Nat}

@[simp] theorem nodes_extend : (f.extend line).nodes = f.nodes := by cases f <;> rfl

@[simp] theorem marks_add (i : Item) : (f.add i).marks = f.marks := by cases f <;> rfl

@[simp] theorem marks_extend : (f.extend line).marks = f.marks.map (OpenMark.extend line) := by
  cases f <;> rfl

@[simp] theorem span_add (i : Item) : (f.add i).span = f.span := by cases f <;> rfl

theorem span_extend : (f.extend line).span = ⟨f.span.first, line⟩ := by cases f <;> rfl

theorem mem_nodes_add {i : Item} {n : Node} : n ∈ (f.add i).nodes ↔ n ∈ i.nodes ∨ n ∈ f.nodes := by
  cases f with
  | choice m d h c => simp [add, nodes, Item.nodesIn]
  | branch k bs m g c =>
    simp only [add, nodes, Item.nodesIn, List.mem_append]
    exact or_left_comm

theorem Covers.extend (h : f.Covers line) : (f.extend line).Covers line := by
  refine ⟨?_, ?_, fun m t hmem => ?_⟩
  · rw [span_extend]
    exact h.first
  · rw [span_extend]
  · rw [content_extend] at hmem
    obtain ⟨s, hs, hfirst, hlast⟩ := h.diverts m t hmem
    rw [span_extend]
    exact ⟨s, hs, hfirst, Nat.le_trans hlast h.last⟩

/-- An item that is no divert may be put into a frame. -/
theorem Covers.add {i : Item} (h : f.Covers line) (hi : i.divertTarget? = none) :
    (f.add i).Covers line := by
  refine ⟨by rw [span_add]; exact h.first, by rw [span_add]; exact h.last, fun m t hmem => ?_⟩
  rw [content_add, List.mem_cons] at hmem
  rw [span_add]
  rcases hmem with rfl | hmem
  · simp [Item.divertTarget?] at hi
  · exact h.diverts m t hmem

/-- A leaf that stands on the line may be put into a frame that goes on up to the line. -/
theorem Covers.append {id : Id} {leaf : Leaf} (h : f.Covers line) :
    ((f.add (.leaf ⟨id, some ⟨line, line⟩⟩ leaf)).extend line).Covers line := by
  refine ⟨?_, ?_, fun m t hmem => ?_⟩
  · rw [span_extend, span_add]
    exact h.first
  · rw [span_extend]
  · rw [content_extend, content_add, List.mem_cons] at hmem
    rw [span_extend, span_add]
    rcases hmem with hnew | hmem
    · obtain rfl : m = ⟨id, some ⟨line, line⟩⟩ := by
        rw [Item.leaf.injEq] at hnew
        exact hnew.1
      exact ⟨_, rfl, h.first, Nat.le_refl _⟩
    · obtain ⟨s, hs, hfirst, hlast⟩ := h.diverts m t hmem
      exact ⟨s, hs, hfirst, Nat.le_trans hlast h.last⟩

/-- A node in the content of a container stays there, or it is the divert that is taken over. -/
theorem mem_nodesIn_hoist {d : Option String} {c : List Item} {n : Node} (h : n ∈ Item.nodesIn c) :
    n ∈ Item.nodesIn (hoist d c).2 ∨ ∃ m t, n = .item (.leaf m (.divert t)) ∧
      .leaf m (.divert t) ∈ c ∧ (hoist d c).1 = some t := by
  unfold hoist
  split
  · next m t rest =>
    rw [Item.nodesIn, Item.nodes, List.singleton_append, List.mem_cons] at h
    rcases h with rfl | h
    · exact Or.inr ⟨m, t, rfl, List.mem_cons_self, rfl⟩
    · exact Or.inl (Item.mem_nodesIn_reverse.mpr h)
  · exact Or.inl (Item.mem_nodesIn_reverse.mpr h)

theorem divertTarget?_close (f : Frame) : f.close.divertTarget? = none := by cases f <;> rfl

/-- A branch that ends keeps its nodes, but for the divert that it takes over. -/
theorem mem_nodes_closeBranch (m : OpenMark) (g : Guard) {c : List Item} {n : Node}
    (h : n ∈ Item.nodesIn c) : n ∈ (closeBranch m g c).nodes ∨ ∃ lm t,
      n = .item (.leaf lm (.divert t)) ∧ .leaf lm (.divert t) ∈ c ∧
        (closeBranch m g c).divert = some t :=
  (mem_nodesIn_hoist (d := none) h).imp_left (List.mem_cons_of_mem _)

/-- Finishing a frame keeps its nodes, but for the divert that its innermost container takes over; that
container is among the nodes then. -/
theorem mem_nodes_close {n : Node} (h : n ∈ f.nodes) : n ∈ f.close.nodes ∨
    ∃ m t, n = .item (.leaf m (.divert t)) ∧ .leaf m (.divert t) ∈ f.content ∧
      ∃ n' ∈ f.close.nodes, n'.divert? = some t ∧ n'.mark.span = some f.span := by
  cases f with
  | choice m d hd c =>
    rcases mem_nodesIn_hoist (d := hd.divert) h with hn | ⟨lm, t, rfl, hmem, ht⟩
    · exact Or.inl (List.mem_cons_of_mem _ hn)
    · exact Or.inr ⟨lm, t, rfl, hmem, _, List.mem_cons_self, ht, rfl⟩
  | branch k bs m g c =>
    have hclose : ∀ n, n ∈ (closeBranch m g c).nodes ∨ n ∈ Branch.nodesIn bs →
        n ∈ (branch k bs m g c).close.nodes := by
      intro n hn
      refine List.mem_cons_of_mem _ ?_
      rw [Branch.mem_nodesIn]
      rcases hn with hn | hn
      · exact ⟨_, by simp, hn⟩
      · obtain ⟨b, hb, hnb⟩ := Branch.mem_nodesIn.mp hn
        exact ⟨b, by simp [hb], hnb⟩
    rcases List.mem_append.mp h with hn | hn
    · exact Or.inl (hclose n (Or.inr hn))
    · rcases mem_nodes_closeBranch m g hn with hn | ⟨lm, t, rfl, hmem, ht⟩
      · exact Or.inl (hclose n (Or.inl hn))
      · exact Or.inr ⟨lm, t, rfl, hmem, .branch (closeBranch m g c),
          hclose _ (Or.inl List.mem_cons_self), ht, rfl⟩

/-- A line that was found in a divert is found in the container that has taken the divert over. -/
theorem Covers.accounts_of_taken (hf : f.Covers line) {m : Mark} {t : String}
    (hmem : .leaf m (.divert t) ∈ f.content) {n : Nat} {l : Line}
    (ha : (Node.item (.leaf m (.divert t))).Accounts n l) {x : Node} (hdivert : x.divert? = some t)
    (hspan : x.mark.span = some f.span) : x.Accounts n l := by
  cases ha with
  | begins hbegins hform =>
    obtain ⟨sp, hsp, hfirst, hlast⟩ := hf.diverts m t hmem
    obtain rfl : sp = ⟨n, _⟩ := Option.some.inj (hsp.symm.trans hbegins)
    exact .diverts (hform t rfl) hdivert hspan hfirst hlast
  | closes _ hn => simp [Node.isConditional] at hn
  | diverts _ hn => simp [Node.divert?] at hn

/-- The containers in a frame become nodes when it is finished. -/
theorem exists_node_of_mark {m : OpenMark} (h : m ∈ f.marks) :
    ∃ n ∈ f.close.nodes, n.mark.span = some m.span ∧ n.divertTarget? = none := by
  cases f with
  | choice k d hd c =>
    obtain rfl := List.mem_singleton.mp h
    exact ⟨_, List.mem_cons_self, rfl, rfl⟩
  | branch k bs k' g c =>
    rcases List.mem_cons.mp h with rfl | h
    · exact ⟨_, List.mem_cons_self, rfl, rfl⟩
    · obtain rfl := List.mem_singleton.mp h
      refine ⟨.branch (closeBranch m g c), List.mem_cons_of_mem _ ?_, rfl, rfl⟩
      rw [Branch.mem_nodesIn]
      exact ⟨closeBranch m g c, by simp, List.mem_cons_self⟩

end Frame

/-! ### The reader -/

namespace BodyState

/-- The finished nodes. -/
def nodes (s : BodyState) : List Node := Item.nodesIn s.root ++ s.frames.flatMap Frame.nodes

/-- The marks of the open containers. -/
def marks (s : BodyState) : List OpenMark := s.pending.toList ++ s.frames.flatMap Frame.marks

/-- A line is found in a finished node or begins an open container. -/
def Accounts (line : Nat) (l : Line) (s : BodyState) : Prop :=
  (∃ n ∈ s.nodes, n.Accounts line l) ∨ ∃ m ∈ s.marks, m.span.first = line

/-- All open frames cover their lines. -/
def Covers (line : Nat) (s : BodyState) : Prop := ∀ f ∈ s.frames, f.Covers line

/-- What may happen to the reader on a line: the open frames still cover their lines, and whatever was
accounted for still is. -/
def Grows (line : Nat) (s t : BodyState) : Prop :=
  s.Covers line → t.Covers line ∧ ∀ n l, s.Accounts n l → t.Accounts n l

variable {line : Nat} {s t u : BodyState}

theorem Covers.mono {n : Nat} (h : s.Covers line) (hn : line ≤ n) : s.Covers n := fun f hf =>
  ⟨Nat.le_trans (h f hf).first hn, Nat.le_trans (h f hf).last hn, (h f hf).diverts⟩

theorem Covers.extend (h : s.Covers line) : (s.extend line).Covers line := by
  intro f hf
  obtain ⟨g, hg, rfl⟩ := List.mem_map.mp hf
  exact (h g hg).extend

/-- Going on up to a line changes neither the finished nodes nor where containers begin. -/
theorem accounts_extend {n : Nat} {l : Line} (h : s.Accounts n l) : (s.extend line).Accounts n l := by
  rcases h with ⟨x, hx, ha⟩ | ⟨m, hm, hfirst⟩
  · refine Or.inl ⟨x, ?_, ha⟩
    have hnodes : (s.extend line).nodes = s.nodes := by
      simp [BodyState.nodes, BodyState.extend, List.flatMap_map]
    rwa [hnodes]
  · refine Or.inr ⟨m.extend line, ?_, hfirst⟩
    have hframes : ∀ fs : List Frame, (fs.map (·.extend line)).flatMap Frame.marks =
        (fs.flatMap Frame.marks).map (OpenMark.extend line) := by
      intro fs
      induction fs with
      | nil => rfl
      | cons f fs ih => simp [ih]
    have hmarks : (s.extend line).marks = s.marks.map (OpenMark.extend line) := by
      cases hp : s.pending <;> simp [BodyState.marks, BodyState.extend, hframes, hp]
    rw [hmarks]
    exact List.mem_map_of_mem hm

namespace Grows

theorem refl (s : BodyState) : s.Grows line s := fun h => ⟨h, fun _ _ ha => ha⟩

theorem trans (h : s.Grows line t) (h' : t.Grows line u) : s.Grows line u := fun hs =>
  ⟨(h' (h hs).1).1, fun n l ha => (h' (h hs).1).2 n l ((h hs).2 n l ha)⟩

/-- What changes neither the tree nor the containers. -/
theorem of_eq (hroot : t.root = s.root) (hframes : t.frames = s.frames)
    (hpending : t.pending = s.pending) : s.Grows line t := by
  intro hs
  refine ⟨fun f hf => hs f (hframes ▸ hf), fun n l ha => ?_⟩
  unfold Accounts nodes marks at ha ⊢
  rwa [hroot, hframes, hpending]

theorem report (cause : IssueCause) (n : Nat) (s : BodyState) : s.Grows line (s.report n cause) :=
  of_eq rfl rfl rfl

theorem extend (s : BodyState) : s.Grows line (s.extend line) := fun hs =>
  ⟨hs.extend, fun _ _ ha => accounts_extend ha⟩

end Grows

theorem mem_nodes_add {i : Item} {n : Node} : n ∈ (s.add i).nodes ↔ n ∈ i.nodes ∨ n ∈ s.nodes := by
  unfold add
  cases hf : s.frames with
  | nil => simp [nodes, hf, Item.nodesIn]
  | cons f fs =>
    simp only [nodes, hf, List.flatMap_cons, List.mem_append, Frame.mem_nodes_add]
    constructor
    · rintro (h | (h | h) | h)
      · exact Or.inr (Or.inl h)
      · exact Or.inl h
      · exact Or.inr (Or.inr (Or.inl h))
      · exact Or.inr (Or.inr (Or.inr h))
    · rintro (h | h | h | h)
      · exact Or.inr (Or.inl (Or.inl h))
      · exact Or.inl h
      · exact Or.inr (Or.inl (Or.inr h))
      · exact Or.inr (Or.inr h)

@[simp] theorem marks_add (i : Item) : (s.add i).marks = s.marks := by
  unfold add
  cases hf : s.frames <;> simp [marks, hf]

theorem accounts_add {i : Item} {n : Nat} {l : Line} (h : s.Accounts n l) : (s.add i).Accounts n l := by
  rcases h with ⟨x, hx, ha⟩ | ⟨m, hm, hfirst⟩
  · exact Or.inl ⟨x, mem_nodes_add.mpr (Or.inr hx), ha⟩
  · exact Or.inr ⟨m, by rwa [marks_add], hfirst⟩

theorem Covers.add {i : Item} (h : s.Covers line) (hi : i.divertTarget? = none) :
    (s.add i).Covers line := by
  unfold BodyState.add
  cases hf : s.frames with
  | nil => exact fun f hmem => absurd hmem (by simp)
  | cons f fs =>
    rw [Covers, hf, List.forall_mem_cons] at h
    exact List.forall_mem_cons.mpr ⟨h.1.add hi, h.2⟩

namespace Grows

/-- A leaf is put into the innermost container, and all containers go on up to the line. -/
theorem append (leaf : Leaf) : s.Grows line (s.append line leaf) := by
  intro hs
  have hcovers : ∀ s' : BodyState, s'.frames = s.frames → ∀ id,
      ((s'.add (.leaf ⟨id, some ⟨line, line⟩⟩ leaf)).extend line).Covers line := by
    intro s' hs' id f hf
    unfold BodyState.add BodyState.extend at hf
    cases hframes : s.frames with
    | nil => simp [hs', hframes] at hf
    | cons g gs =>
      rw [Covers, hframes, List.forall_mem_cons] at hs
      simp only [hs', hframes, List.map_cons, List.mem_cons] at hf
      rcases hf with rfl | hf
      · exact hs.1.append
      · obtain ⟨g', hg', rfl⟩ := List.mem_map.mp hf
        exact (hs.2 g' hg').extend
  refine ⟨hcovers (s.draw line) rfl _, fun n l ha => ?_⟩
  have hdrawn : (s.draw line).Accounts n l := (@Grows.of_eq line _ (s.draw line) rfl rfl rfl hs).2 n l ha
  exact accounts_extend (accounts_add hdrawn)

/-- Finishing a frame: a divert that is taken over is found in its container from then on. -/
theorem pop (s : BodyState) : s.Grows line s.pop := by
  cases hf : s.frames with
  | nil =>
    rw [pop_of_frames_nil hf]
    exact refl s
  | cons f fs =>
    intro hs
    rw [Covers, hf, List.forall_mem_cons] at hs
    rw [pop_of_frames hf]
    generalize s.spans.drop f.dropped? = spans
    refine ⟨Covers.add (s := { s with frames := fs, spans }) hs.2 f.divertTarget?_close, fun n l ha => ?_⟩
    have hnew : ∀ x ∈ f.close.nodes, x.Accounts n l →
        ({ s with frames := fs, spans }.add f.close).Accounts n l := fun x hx hxa =>
      Or.inl ⟨x, mem_nodes_add.mpr (Or.inl hx), hxa⟩
    have hrest : ({ s with frames := fs, spans } : BodyState).Accounts n l →
        ({ s with frames := fs, spans }.add f.close).Accounts n l := accounts_add
    -- the line is accounted for in the frame, where it may move on to another node, or in what is left
    rcases ha with ⟨x, hx, hxa⟩ | ⟨m, hm, hfirst⟩
    · simp only [BodyState.nodes, hf, List.flatMap_cons, List.mem_append] at hx
      rcases hx with hx | hx | hx
      · exact hrest (Or.inl ⟨x, List.mem_append_left _ hx, hxa⟩)
      · rcases Frame.mem_nodes_close hx with hx | ⟨lm, t, rfl, hmem, n', hn', hdivert, hspan⟩
        · exact hnew x hx hxa
        · exact hnew n' hn' (hs.1.accounts_of_taken hmem hxa hdivert hspan)
      · exact hrest (Or.inl ⟨x, List.mem_append_right _ hx, hxa⟩)
    · simp only [BodyState.marks, hf, List.flatMap_cons, List.mem_append] at hm
      rcases hm with hm | hm | hm
      · exact hrest (Or.inr ⟨m, List.mem_append_left _ hm, hfirst⟩)
      · obtain ⟨x, hx, hspan, hno⟩ := Frame.exists_node_of_mark hm
        subst hfirst
        exact hnew x hx (.begins hspan (by simp [hno]))
      · exact hrest (Or.inr ⟨m, List.mem_append_right _ hm, hfirst⟩)

theorem popWhile (p : Frame → Bool) (s : BodyState) : s.Grows line (s.popWhile p) :=
  popWhile_induction (P := fun t => s.Grows line t) (fun _ ht => ht.trans (pop _)) p (refl s)

theorem closeAll (n : Nat) (hp : s.pending = none) : s.Grows line (s.closeAll n) :=
  closeAll_induction (P := fun t => s.Grows line t) n (fun _ ht => ht.trans (pop _))
    (fun t ht => ht.trans (report _ n t)) hp (refl s)

/-- A container is opened on the line. -/
theorem push {f : Frame} (hf : f.Covers line) (hnodes : f.nodes = []) :
    s.Grows line { s.draw line with frames := f :: s.frames } := by
  intro hs
  refine ⟨List.forall_mem_cons.mpr ⟨hf, hs⟩, fun n l ha => ?_⟩
  rcases ha with ⟨x, hx, hxa⟩ | ⟨m, hm, hfirst⟩
  · refine Or.inl ⟨x, ?_, hxa⟩
    simpa [BodyState.nodes, hnodes] using hx
  · refine Or.inr ⟨m, ?_, hfirst⟩
    simp only [BodyState.marks, List.flatMap_cons, List.mem_append] at hm ⊢
    exact hm.imp_right Or.inr

theorem openStitch (name : String) (hp : s.pending = none) : s.Grows line (s.openStitch line name) := by
  obtain ⟨t, heq, hroot, hframes, hpending, -⟩ := s.exists_openStitch_eq line name
  rw [heq]
  exact (closeAll line hp).trans ((of_eq hroot hframes hpending).trans (append _))

theorem choice (depth : Nat) (head : ChoiceHead) (s : BodyState) :
    s.Grows line (s.perform line (.choice depth head)) := by
  refine (popWhile _ s).trans ((extend _).trans (push ?_ rfl))
  exact ⟨Nat.le_refl _, Nat.le_refl _, by simp [Frame.content]⟩

/-- A conditional waits for its first branch. -/
theorem opening (hp : s.pending = none) : s.Grows line (s.perform line .opening) := by
  unfold BodyState.perform
  refine (extend s).trans fun hs => ⟨hs, fun n l ha => ?_⟩
  rcases ha with ⟨x, hx, hxa⟩ | ⟨m, hm, hfirst⟩
  · exact Or.inl ⟨x, hx, hxa⟩
  · refine Or.inr ⟨m, List.mem_append_right _ ?_, hfirst⟩
    simpa [BodyState.marks, BodyState.extend, hp] using hm

/-- A branch of a conditional is opened on the line, behind the branches that are finished. -/
theorem accounts_pushBranch {k : OpenMark} {bs : List Branch} {g : Guard} {n : Nat} {l : Line}
    (h : s.Accounts n l ∨ (∃ x ∈ Branch.nodesIn bs, x.Accounts n l) ∨ k.span.first = n) :
    (s.pushBranch line g k bs).Accounts n l := by
  unfold BodyState.pushBranch
  rcases h with ha | ⟨x, hx, hxa⟩ | hfirst
  · rcases @accounts_extend line _ _ _ ha with ⟨x, hx, hxa⟩ | ⟨m, hm, hfirst⟩
    · refine Or.inl ⟨x, ?_, hxa⟩
      simp only [BodyState.nodes, List.flatMap_cons, List.mem_append] at hx ⊢
      exact hx.imp_right Or.inr
    · refine Or.inr ⟨m, ?_, hfirst⟩
      simp only [BodyState.marks, List.flatMap_cons, List.mem_append] at hm ⊢
      exact hm.imp_right Or.inr
  · refine Or.inl ⟨x, ?_, hxa⟩
    simp only [BodyState.nodes, List.flatMap_cons, List.mem_append, Frame.nodes]
    exact Or.inr (Or.inl (Or.inl hx))
  · exact Or.inr ⟨k.extend line, by simp [BodyState.marks, Frame.marks], hfirst⟩

theorem covers_pushBranch (h : s.Covers line) {k : OpenMark} {bs : List Branch} {g : Guard} :
    (s.pushBranch line g k bs).Covers line :=
  List.forall_mem_cons.mpr ⟨⟨Nat.le_refl line, Nat.le_refl line, by simp [Frame.content]⟩, h.extend⟩

/-- A branch ends the branch before it, which becomes a node; the conditional goes on. -/
theorem openBranch (guard : Guard) (s : BodyState) : s.Grows line (s.openBranch line guard) := by
  have hopens := opensBranch line guard s
  generalize s.openBranch line guard = t at hopens ⊢
  cases hopens with
  | first hp =>
    -- the conditional was pending: this is its first branch, and no node is finished
    intro hs
    refine ⟨covers_pushBranch (s := { s with pending := none }) hs, fun n l ha => ?_⟩
    refine accounts_pushBranch (s := { s with pending := none }) ?_
    rcases ha with hx | ⟨m, hm, hfirst⟩
    · exact Or.inl (Or.inl hx)
    · simp only [BodyState.marks, hp, Option.toList_some, List.singleton_append, List.mem_cons] at hm
      rcases hm with rfl | hm
      · exact Or.inr (Or.inr hfirst)
      · exact Or.inl (Or.inr ⟨m, hm, hfirst⟩)
  | @next k m bs g c fs _ hframes =>
    -- containers within the branch before are closed, and then that branch itself becomes a node
    refine trans (popWhile (!·.isBranch) s) ?_
    generalize s.popWhile (!·.isBranch) = t at hframes ⊢
    intro ht
    rw [Covers, hframes, List.forall_mem_cons] at ht
    refine ⟨covers_pushBranch (s := { t with frames := fs, spans := _ }) ht.2, fun n l ha => ?_⟩
    refine accounts_pushBranch (s := { t with frames := fs, spans := _ }) ?_
    have hfinished : ∀ x, x.Accounts n l →
        x ∈ (Frame.closeBranch m g c).nodes ∨ x ∈ Branch.nodesIn bs →
        ∃ x ∈ Branch.nodesIn (Frame.closeBranch m g c :: bs), x.Accounts n l := fun x hxa hx =>
      ⟨x, List.mem_append.mpr hx, hxa⟩
    rcases ha with ⟨x, hx, hxa⟩ | ⟨o, ho, hfirst⟩
    · simp only [BodyState.nodes, hframes, List.flatMap_cons, List.mem_append, Frame.nodes] at hx
      rcases hx with hx | (hx | hx) | hx
      · exact Or.inl (Or.inl ⟨x, List.mem_append_left _ hx, hxa⟩)
      · exact Or.inr (Or.inl (hfinished x hxa (Or.inr hx)))
      · rcases Frame.mem_nodes_closeBranch m g hx with hx | ⟨lm, d, rfl, hmem, hd⟩
        · exact Or.inr (Or.inl (hfinished x hxa (Or.inl hx)))
        · have htaken := ht.1.accounts_of_taken hmem hxa
            (x := .branch (Frame.closeBranch m g c)) hd rfl
          exact Or.inr (Or.inl (hfinished _ htaken (Or.inl List.mem_cons_self)))
      · exact Or.inl (Or.inl ⟨x, List.mem_append_right _ hx, hxa⟩)
    · simp only [BodyState.marks, hframes, List.flatMap_cons, List.mem_append, Frame.marks,
        List.mem_cons, List.not_mem_nil, or_false] at ho
      rcases ho with ho | (rfl | rfl) | ho
      · exact Or.inl (Or.inr ⟨o, List.mem_append_left _ ho, hfirst⟩)
      · exact Or.inr (Or.inr hfirst)
      · refine Or.inr (Or.inl (hfinished (.branch (Frame.closeBranch o g c)) ?_
          (Or.inl List.mem_cons_self)))
        subst hfirst
        exact .begins rfl (by simp [Node.divertTarget?])
      · exact Or.inl (Or.inr ⟨o, List.mem_append_right _ ho, hfirst⟩)
  | stray _ _ => exact popWhile _ s

theorem closeConditional (hp : s.pending = none) : s.Grows line (s.closeConditional line) := by
  rw [closeConditional_eq line hp]
  exact (extend s).trans ((popWhile _ _).trans (pop _))

/-- What an act does. -/
theorem perform {a : Act} (h : s.Admits a) : s.Grows line (s.perform line a) := by
  cases a with
  | leaf leaf =>
    cases leaf with
    | stitch name => exact openStitch name h
    | _ => exact append _
  | choice depth head => exact choice depth head s
  | opening => exact opening h
  | branch guard => exact openBranch guard s
  | closing => exact closeConditional h.1

/-- What acts do one after the other. -/
theorem performs {as : List Act} (h : Performs line s as t) : s.Grows line t :=
  h.rel refl (fun _ _ _ => trans) (fun t n cause => report cause n t) fun _ _ => perform

end Grows

/-! ### What a line leaves behind -/

theorem accounts_append {leaf : Leaf} {l : Line} (s : BodyState)
    (h : ∀ t, leaf = .divert t → l.form = .divert t) : (s.append line leaf).Accounts line l := by
  refine accounts_extend (Or.inl ⟨_, mem_nodes_add.mpr (Or.inl List.mem_cons_self), .begins rfl ?_⟩)
  intro t ht
  refine h t ?_
  cases leaf <;> simp_all [Node.divertTarget?, Item.divertTarget?]

theorem accounts_appendLine (l : Line) (hs : s.Covers line) : (s.appendLine line l).Accounts line l := by
  unfold appendLine
  split
  case h_2 content target hform =>
    -- the divert behind the text may be taken over, but the text stays
    have htext : (s.append line (.text content)).Accounts line l := accounts_append s (by simp)
    exact ((Grows.append _) ((Grows.append _ hs).1)).2 line l htext
  case h_3 target hform => exact accounts_append s fun t ht => by simp_all
  all_goals exact accounts_append s (by simp)

theorem accounts_of_frame {l : Line} {f : Frame} {fs : List Frame} {m : OpenMark}
    (hf : s.frames = f :: fs) (hm : m ∈ f.marks) (hfirst : m.span.first = line) :
    s.Accounts line l := by
  refine Or.inr ⟨m, List.mem_append_right _ ?_, hfirst⟩
  rw [hf, List.flatMap_cons]
  exact List.mem_append_left _ hm

theorem accounts_of_pending {l : Line} {m : OpenMark} (hp : s.pending = some m)
    (hfirst : m.span.first = line) : s.Accounts line l := by
  refine Or.inr ⟨m, List.mem_append_left _ ?_, hfirst⟩
  simp [hp]

/-- The brace of a conditional is the last line of the conditional that it closes. -/
theorem accounts_closeConditional {l : Line} (hform : l.form = .conditionalClose)
    (hin : s.inConditional = true) (hp : s.pending = none) :
    (s.closeConditional line).Accounts line l := by
  obtain ⟨k, bs, m, g, c, fs, hf⟩ :=
    exists_branch_of_inConditional (pending_extend line hp) (by simpa using hin)
  have hmarks : ((s.extend line).popWhile (!·.isBranch)).frames.map Frame.marks =
      ((s.extend line).frames.dropWhile (!·.isBranch)).map Frame.marks :=
    map_frames_popWhile (fun f i => Frame.marks_add i) (fun f i => by simp) _
  -- every mark of an open frame was stretched to this line, and so was that of the conditional
  have hlast : k.span.last = line := by
    have hmem : [k, m] ∈ ((s.extend line).frames.dropWhile (!·.isBranch)).map Frame.marks := by
      rw [← hmarks, hf]
      exact List.mem_cons_self
    obtain ⟨f, hfmem, hfm⟩ := List.mem_map.mp hmem
    obtain ⟨f', -, rfl⟩ := List.mem_map.mp ((List.dropWhile_sublist _).subset hfmem)
    rw [Frame.marks_extend] at hfm
    have hk : k ∈ f'.marks.map (OpenMark.extend line) := by
      rw [hfm]
      exact List.mem_cons_self
    obtain ⟨k', -, rfl⟩ := List.mem_map.mp hk
    rfl
  have hspan : k.toMark.span = some ⟨k.span.first, line⟩ := by
    rw [OpenMark.toMark, ← hlast]
  rw [closeConditional_eq line hp, pop_of_frames hf]
  exact Or.inl ⟨_, mem_nodes_add.mpr (Or.inl List.mem_cons_self), .closes hform rfl hspan⟩

/-- Every line is found in what it leaves behind. -/
theorem accounts_apply (branchFollows : Bool) (l : Line) (h : s.Sound l.form.isBranch)
    (hs : s.Covers line) : (s.apply branchFollows line l).Accounts line l := by
  have hline : l.form.isBranch = false → ((s.interrupt line).appendLine line l).Accounts line l := by
    intro hno
    rw [interrupt_of_pending_none line (h.pending_none hno)]
    exact accounts_appendLine l hs
  have hraw : ∀ t : BodyState, (t.refuse line l.text).Accounts line l := fun t =>
    accounts_append _ (by simp)
  -- the line begins a frame, closes a conditional or leaves an item that holds it
  unfold apply
  cases hform : l.form with
  | stitchHeader name =>
    unfold openStitch
    exact accounts_append _ (by simp)
  | choice depth head =>
    unfold openChoice
    dsimp only
    split
    · exact accounts_of_frame rfl List.mem_cons_self rfl
    · exact hraw _
  | conditionalOpen =>
    dsimp only
    split
    · unfold openConditional
      split
      · exact accounts_of_pending rfl rfl
      · exact hraw _
    · exact hline (by rw [hform]; rfl)
  | branch guard rest =>
    dsimp only
    split
    · next hin =>
      have hopens := opensBranch line guard s
      generalize s.openBranch line guard = t at hopens ⊢
      cases hopens with
      | first _ => exact accounts_of_frame rfl (List.mem_cons_of_mem _ List.mem_cons_self) rfl
      | next _ _ => exact accounts_of_frame rfl (List.mem_cons_of_mem _ List.mem_cons_self) rfl
      | stray _ hout => simp [hin] at hout
    · exact accounts_appendLine l hs
  | conditionalClose =>
    dsimp only
    split
    · next hin => exact accounts_closeConditional hform hin (h.pending_none (by rw [hform]; rfl))
    · exact hline (by rw [hform]; rfl)
  | _ => exact hline (by rw [hform]; rfl)

/-! ### From line to line -/

/-- The lines that are read from a line begin with it. -/
theorem exists_linesOf (s : BodyState) (l : Line) : ∃ ls, s.linesOf l = l :: ls := by
  unfold linesOf
  split
  · exact ⟨[], rfl⟩
  · exact l.exists_chain

/-- A line is found when it has been read together with its remainder. -/
theorem accounts_process (branchFollows : Bool) (l : Line) (h : s.Sound l.form.isBranch)
    (hs : s.Covers line) : (s.process branchFollows line l).Accounts line l := by
  have hlines := h.linesOf_induction branchFollows line (P := fun s ls =>
    s.Grows line (ls.foldl (BodyState.apply branchFollows line) s) ∧
      (s.Covers line → ∀ l ∈ ls.head?, (ls.foldl (BodyState.apply branchFollows line) s).Accounts line l))
    (fun s _ => ⟨Grows.refl s, by simp⟩) (fun s l ls hs hls => ?_) l
  · obtain ⟨ls, hls⟩ := s.exists_linesOf l
    rw [process_eq]
    exact hlines.2 hs l (by rw [hls]; rfl)
  -- the first of the lines is found behind it, and the others keep what is found
  · have happly : s.Grows line _ := Grows.performs (Performs.apply branchFollows l hs)
    refine ⟨happly.trans hls.1, fun hcovers l' hl' => ?_⟩
    obtain rfl : l = l' := by simpa using hl'
    exact (hls.1 (happly hcovers).1).2 line l (accounts_apply branchFollows l hs hcovers)

/-- What has been read is found when all lines have been read, and so is every further line that is not
blank. -/
theorem accounts_readFrom (ls : List Line) (h : s.Sound (branchFirst ls)) (hs : s.Covers line) :
    (s.readFrom line ls).Covers (line + ls.length) ∧
      (∀ n l, s.Accounts n l → (s.readFrom line ls).Accounts n l) ∧
      ∀ i l, ls[i]? = some l → l.form.isBlank = false →
        (s.readFrom line ls).Accounts (line + i) l := by
  induction ls generalizing s line with
  | nil => exact ⟨hs, fun _ _ ha => ha, by simp⟩
  | cons l ls ih =>
    have hlength : line + (l :: ls).length = line + 1 + ls.length := by
      rw [List.length_cons]
      omega
    have hindex : ∀ i, line + (i + 1) = line + 1 + i := fun i => by omega
    rw [hlength]
    -- a blank line leaves nothing behind, and none is asked for
    cases hblank : l.form.isBlank with
    | true =>
      rw [readFrom_cons_of_blank hblank]
      rw [branchFirst_cons_of_blank hblank] at h
      obtain ⟨hcovers, hkept, hlines⟩ := ih h (hs.mono (Nat.le_succ line))
      refine ⟨hcovers, hkept, fun i l' hi hl' => ?_⟩
      cases i with
      | zero =>
        obtain rfl : l = l' := by simpa using hi
        simp [hblank] at hl'
      | succ i =>
        rw [hindex]
        exact hlines i l' (by simpa using hi) hl'
    | false =>
      rw [readFrom_cons_of_not_blank hblank]
      rw [branchFirst_cons_of_not_blank hblank] at h
      have hgrows := Grows.performs (Performs.process (branchFirst ls) line l h) hs
      obtain ⟨hcovers, hkept, hlines⟩ := ih (h.process line l) (hgrows.1.mono (Nat.le_succ line))
      refine ⟨hcovers, fun n l' ha => hkept n l' (hgrows.2 n l' ha), fun i l' hi hl' => ?_⟩
      cases i with
      | zero =>
        obtain rfl : l = l' := by simpa using hi
        exact hkept line l (accounts_process _ l h hs)
      | succ i =>
        rw [hindex]
        exact hlines i l' (by simpa using hi) hl'

end BodyState

/-! ### A whole body -/

/-- The lines of a node, if the lines of the body are counted from `first` on. -/
def Node.linesFrom (first : Int) (n : Node) : Option (Int × Int) :=
  n.mark.span.map fun s => (first + s.first, first + s.last)

/-- A node that a line is found in, if the lines of the body are counted from some number on. -/
def Node.AccountsAt (offset : Int) (first : Int) (l : Line) (n : Node) : Prop :=
  (∃ last, n.linesFrom first = some (offset, last)) ∨
    (l.form = .conditionalClose ∧ n.isConditional = true ∧
      ∃ start, n.linesFrom first = some (start, offset)) ∨
    ∃ target start last, l.form = .divert target ∧ n.divert? = some target ∧
      n.linesFrom first = some (start, last) ∧ start ≤ offset ∧ offset ≤ last

theorem Node.Accounts.at {line : Nat} {l : Line} {n : Node} (h : n.Accounts line l) (first : Int) :
    n.AccountsAt (first + line) first l := by
  cases h with
  | begins hspan => exact Or.inl ⟨_, by rw [linesFrom, hspan]; rfl⟩
  | closes hform hn hspan => exact Or.inr (Or.inl ⟨hform, hn, _, by rw [linesFrom, hspan]; rfl⟩)
  | diverts hform hn hspan hfirst hlast =>
    refine Or.inr (Or.inr ⟨_, _, _, hform, hn, by rw [linesFrom, hspan]; rfl, ?_, ?_⟩)
    · simpa using hfirst
    · simpa using hlast

/-- Every line behind the position annotation that is not blank is found in a node of the tree. -/
theorem Body.exists_accounts_read (supply : Nat) {texts : List String} {i : Nat} {l : Line}
    (hi : (Line.ofTexts texts)[i]? = some l) (hskipped : skipped (Line.ofTexts texts) ≤ i)
    (hblank : l.form.isBlank = false) :
    ∃ n ∈ Item.nodesIn (Body.read supply texts).1.items, n.Accounts i l := by
  have hsound := (BodyState.start_quiet supply).sound (branchFirst (content (Line.ofTexts texts)))
  have hstart : ({ supply } : BodyState).Covers (skipped (Line.ofTexts texts)) := by
    simp [BodyState.Covers]
  obtain ⟨hcovers, -, hlines⟩ := BodyState.accounts_readFrom
    (content (Line.ofTexts texts)) hsound hstart
  have hi' : (content (Line.ofTexts texts))[i - skipped (Line.ofTexts texts)]? = some l := by
    rw [content, List.getElem?_drop, Nat.add_sub_cancel' hskipped, hi]
  have hread := hlines _ l hi' hblank
  rw [Nat.add_sub_cancel' hskipped] at hread
  -- in the end everything is finished, so the line is found in a node of the tree
  have hp := pending_readFrom supply (Line.ofTexts texts)
  have hlast := (BodyState.Grows.closeAll ((Line.ofTexts texts).length - 1) hp hcovers).2 i l hread
  have hframes := BodyState.closeAll_frames ((Line.ofTexts texts).length - 1) hp
  have hpending := BodyState.closeAll_pending ((Line.ofTexts texts).length - 1) hp
  rw [Body.read_items, lastState]
  rcases hlast with ⟨n, hn, ha⟩ | ⟨m, hm, -⟩
  · rw [BodyState.nodes, hframes, List.flatMap_nil, List.append_nil] at hn
    exact ⟨n, Item.mem_nodesIn_reverse.mpr hn, ha⟩
  · rw [BodyState.marks, hframes, hpending] at hm
    simp at hm

/-- No line of a body is lost, and no divert on it. However the lines are counted, every line behind the
position annotation that is not blank is found in a node: one that begins on it, the conditional that
it closes, or a choice or a branch around it that has taken over the divert that the line is. And the
diverts of the tree are those found on the lines that were read, each as often as it was found. -/
theorem Body.read_lossless (supply : Nat) (texts : List String) (first : Int) :
    (∀ i l, (Line.ofTexts texts)[i]? = some l → skipped (Line.ofTexts texts) ≤ i →
      l.form.isBlank = false →
      ∃ n ∈ Item.nodesIn (Body.read supply texts).1.items, n.AccountsAt (first + i) first l) ∧
    (Item.divertTargetsIn (Body.read supply texts).1.items).Perm (Body.captures supply texts) := by
  refine ⟨fun i l hi hskipped hblank => ?_, Body.perm_diverts_read supply texts⟩
  obtain ⟨n, hn, ha⟩ := Body.exists_accounts_read supply hi hskipped hblank
  exact ⟨n, hn, ha.at first⟩

/-- The last line of a body is a divert that the choice in front of it takes over. -/
theorem Body.read_lossless_road :
    let texts := ["Hello", "* [Go]", "    -> road"]
    (∃ n ∈ Item.nodesIn (Body.read 0 texts).1.items, n.AccountsAt 3 1 ⟨"-> road", .divert "road"⟩) ∧
      (Item.divertTargetsIn (Body.read 0 texts).1.items).Perm ["road"] := by
  intro texts
  have hcaptures : Body.captures 0 texts = ["road"] := by decide +kernel
  obtain ⟨hlines, hdiverts⟩ := Body.read_lossless 0 texts 1
  rw [hcaptures] at hdiverts
  exact ⟨hlines 2 ⟨"-> road", .divert "road"⟩ (by decide +kernel) (by decide +kernel) rfl, hdiverts⟩

end StoryScript
