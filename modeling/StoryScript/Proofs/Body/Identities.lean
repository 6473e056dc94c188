import StoryScript.Proofs.Body.Lossless
import StoryScript.Proofs.Story.Identities

/-!
# The identities of a tree that was read

Reading a body draws an identity from the supply for every node and for every open container, and puts
none of them into the tree twice (`Body.count_idsIn_read_le`). What an act does to the state is accounted
for by `BodyState.Draws`: an identity occurs no more often than before, unless the supply has handed it
out meanwhile. It may occur less often, since a container takes over a divert without its identity.
-/

namespace StoryScript

/-! ### Open frames -/

namespace Frame

/-- The identities of the nodes and of the containers in a frame. -/
def ids (f : Frame) : List Id := f.marks.map OpenMark.id ++ f.nodes.map Node.id

theorem count_ids_choice (m : OpenMark) (d : Nat) (h : ChoiceHead) (c : List Item) (i : Id) :
    (choice m d h c).ids.count i = [m.id].count i + (Item.idsIn c).count i := by
  rw [ids, List.count_append]
  rfl

theorem count_ids_branch (k : OpenMark) (bs : List Branch) (m : OpenMark) (g : Guard) (c : List Item)
    (i : Id) : (branch k bs m g c).ids.count i =
      [k.id].count i + [m.id].count i + (Branch.idsIn bs).count i + (Item.idsIn c).count i := by
  have hmarks : (branch k bs m g c).marks.map OpenMark.id = [k.id] ++ [m.id] := rfl
  rw [ids, hmarks, nodes, List.map_append]
  simp only [List.count_append, Item.idsIn, Branch.idsIn]
  omega

theorem ids_extend (f : Frame) (line : Nat) : (f.extend line).ids = f.ids := by
  cases f <;> rfl

theorem count_ids_add (f : Frame) (j : Item) (i : Id) :
    (f.add j).ids.count i = (Item.idsIn [j]).count i + f.ids.count i := by
  cases f with
  | choice m d h c =>
    rw [add, count_ids_choice, count_ids_choice, Item.count_idsIn_cons]
    omega
  | branch k bs m g c =>
    rw [add, count_ids_branch, count_ids_branch, Item.count_idsIn_cons]
    omega

/-- Taking over a divert drops its identity. -/
theorem count_idsIn_hoist_le (d : Option String) (c : List Item) (i : Id) :
    (Item.idsIn (hoist d c).2).count i ≤ (Item.idsIn c).count i := by
  unfold hoist
  split
  · next m t rest =>
    rw [Item.count_idsIn_reverse, Item.idsIn_leaf, List.count_cons]
    exact Nat.le_add_right _ _
  · rw [Item.count_idsIn_reverse]

theorem count_idsIn_closeBranch_le (m : OpenMark) (g : Guard) (c : List Item) (i : Id) :
    (Branch.idsIn [closeBranch m g c]).count i ≤ [m.id].count i + (Item.idsIn c).count i := by
  have hcontent := count_idsIn_hoist_le none c i
  rw [closeBranch, Branch.idsIn_cons, Branch.idsIn_nil, List.append_nil, ← List.singleton_append,
    List.count_append]
  exact Nat.add_le_add_left hcontent _

theorem count_idsIn_close_le (f : Frame) (i : Id) :
    (Item.idsIn [f.close]).count i ≤ f.ids.count i := by
  cases f with
  | choice m d h c =>
    have hcontent := count_idsIn_hoist_le h.divert c i
    rw [count_ids_choice, close, Item.idsIn_choice, Item.idsIn_nil, List.append_nil,
      ← List.singleton_append, List.count_append]
    exact Nat.add_le_add_left hcontent _
  | branch k bs m g c =>
    have hbranch := count_idsIn_closeBranch_le m g c i
    rw [count_ids_branch, close, Item.idsIn_conditional, Item.idsIn_nil, List.append_nil,
      ← List.singleton_append, List.count_append, Branch.count_idsIn_reverse,
      Branch.count_idsIn_cons _ bs]
    change [k.id].count i + _ ≤ _
    omega

end Frame

/-! ### The reader -/

namespace BodyState

/-- The identities of all nodes and of all open containers. -/
def ids (s : BodyState) : List Id :=
  (s.pending.map OpenMark.id).toList ++ s.frames.flatMap Frame.ids ++ Item.idsIn s.root

/-- What may become of the identities: none occurs more often than before, but for those that were handed
out meanwhile. -/
def Draws (s t : BodyState) : Prop :=
  s.supply ≤ t.supply ∧ ∀ i, t.ids.count i ≤ s.ids.count i + Id.drawn s.supply t.supply i

variable {line : Nat} {s t u : BodyState}

theorem count_ids (s : BodyState) (i : Id) : s.ids.count i =
    (s.pending.map OpenMark.id).toList.count i + (s.frames.flatMap Frame.ids).count i +
      (Item.idsIn s.root).count i := by
  rw [ids, List.count_append, List.count_append]

theorem ids_extend (line : Nat) (s : BodyState) : (s.extend line).ids = s.ids := by
  have hframes : (s.frames.map (·.extend line)).flatMap Frame.ids = s.frames.flatMap Frame.ids := by
    rw [List.flatMap_map]
    exact congrArg (s.frames.flatMap ·) (funext fun f => f.ids_extend line)
  have hpending : (s.pending.map (·.extend line)).map OpenMark.id = s.pending.map OpenMark.id := by
    cases s.pending <;> rfl
  rw [ids, ids, extend, hframes, hpending]

theorem supply_add (j : Item) (s : BodyState) : (s.add j).supply = s.supply := by
  unfold add
  split <;> rfl

theorem count_ids_add (j : Item) (s : BodyState) (i : Id) :
    (s.add j).ids.count i = (Item.idsIn [j]).count i + s.ids.count i := by
  unfold add
  cases hf : s.frames with
  | nil =>
    rw [count_ids, count_ids s, hf, Item.count_idsIn_cons j]
    dsimp only
    omega
  | cons f fs =>
    rw [count_ids, count_ids s, hf]
    simp only [List.flatMap_cons, List.count_append, Frame.count_ids_add]
    omega

namespace Draws

theorem refl (s : BodyState) : s.Draws s := ⟨Nat.le_refl _, fun _ => Nat.le_add_right _ _⟩

theorem trans (h : s.Draws t) (h' : t.Draws u) : s.Draws u := by
  refine ⟨Nat.le_trans h.1 h'.1, fun i => ?_⟩
  have hst := h.2 i
  have htu := h'.2 i
  have hdrawn := Id.drawn_add_drawn h.1 h'.1 i
  omega

/-- Nothing is drawn, and no identity occurs more often. -/
theorem of_le (hsupply : t.supply = s.supply) (h : ∀ i, t.ids.count i ≤ s.ids.count i) :
    s.Draws t :=
  ⟨Nat.le_of_eq hsupply.symm, fun i => Nat.le_trans (h i) (Nat.le_add_right _ _)⟩

/-- One identity is drawn. -/
theorem of_succ (hsupply : t.supply = s.supply + 1)
    (h : ∀ i, t.ids.count i ≤ s.ids.count i + [Id.fresh s.supply].count i) : s.Draws t := by
  refine ⟨by omega, fun i => ?_⟩
  rw [hsupply, Id.drawn_succ]
  exact h i

theorem report (n : Nat) (cause : IssueCause) (s : BodyState) : s.Draws (s.report n cause) :=
  of_le rfl fun _ => Nat.le_refl _

theorem extend (line : Nat) (s : BodyState) : s.Draws (s.extend line) :=
  of_le rfl fun _ => Nat.le_of_eq (by rw [ids_extend])

theorem pop (s : BodyState) : s.Draws s.pop := by
  cases hf : s.frames with
  | nil =>
    rw [pop_of_frames_nil hf]
    exact refl s
  | cons f fs =>
    rw [pop_of_frames hf]
    refine of_le (supply_add _ _) fun i => ?_
    have hclose := f.count_idsIn_close_le i
    rw [count_ids_add, count_ids, count_ids s, hf, List.flatMap_cons, List.count_append]
    dsimp only
    omega

theorem popWhile (p : Frame → Bool) (s : BodyState) : s.Draws (s.popWhile p) :=
  popWhile_induction (P := fun t => s.Draws t) (fun _ ht => ht.trans (pop _)) p (refl s)

theorem closeAll (line : Nat) (hp : s.pending = none) : s.Draws (s.closeAll line) :=
  closeAll_induction (P := fun t => s.Draws t) line (fun _ ht => ht.trans (pop _))
    (fun t ht => ht.trans (report line _ t)) hp (refl s)

/-- A leaf gets an identity of its own. -/
theorem put (line : Nat) (leaf : Leaf) (s : BodyState) :
    s.Draws ((s.draw line).add (.leaf ⟨.fresh s.supply, some ⟨line, line⟩⟩ leaf)) := by
  refine of_succ (supply_add _ _) fun i => ?_
  rw [count_ids_add, Nat.add_comm]
  exact Nat.le_refl _

theorem append (line : Nat) (leaf : Leaf) (s : BodyState) : s.Draws (s.append line leaf) :=
  (put line leaf s).trans (extend line _)

/-- So does a container that is opened. -/
theorem push {f : Frame} (hf : f.ids = [.fresh s.supply]) :
    s.Draws { s.draw line with frames := f :: s.frames } := by
  refine of_succ rfl fun i => ?_
  rw [count_ids, count_ids s, List.flatMap_cons, List.count_append, hf]
  simp only [draw_pending, draw_root]
  omega

theorem openStitch (line : Nat) (name : String) (hp : s.pending = none) :
    s.Draws (s.openStitch line name) := by
  have hnoted : ∀ t : BodyState, t.Draws
      ({ t with stitches := name :: t.stitches }.append line (.stitch name)) := fun t =>
    (of_le (t := { t with stitches := name :: t.stitches }) rfl fun _ => Nat.le_refl _).trans
      (append line _ _)
  unfold BodyState.openStitch
  dsimp only
  split
  · exact (closeAll line hp).trans ((report line _ _).trans (hnoted _))
  · exact (closeAll line hp).trans (hnoted _)

/-- A conditional is drawn before its first branch is read. -/
theorem opening (line : Nat) (s : BodyState) : s.Draws (s.perform line .opening) := by
  unfold BodyState.perform
  refine (extend line s).trans (of_succ rfl fun i => ?_)
  rw [count_ids, count_ids (s.extend line)]
  change [Id.fresh s.supply].count i + _ + _ ≤ _ + [Id.fresh s.supply].count i
  simp only [draw_frames, draw_root]
  omega

/-- A branch is drawn; its conditional goes on, and the branch before it is finished. -/
theorem pushBranch {line : Nat} {k : OpenMark} {bs : List Branch} {guard : Guard}
    (h : ∀ i, s.ids.count i + [k.id].count i + (Branch.idsIn bs).count i ≤ t.ids.count i)
    (hsupply : s.supply = t.supply) :
    t.Draws (s.pushBranch line guard k bs) := by
  unfold BodyState.pushBranch
  have hsame : (s.extend line).supply + 1 = t.supply + 1 := congrArg (· + 1) hsupply
  refine of_succ hsame fun i => ?_
  have hold := h i
  rw [← ids_extend line, count_ids (s.extend line)] at hold
  rw [count_ids, List.flatMap_cons, List.count_append, Frame.count_ids_branch]
  change ((s.extend line).pending.map OpenMark.id).toList.count i +
    ([k.id].count i + [Id.fresh s.supply].count i + _ + [].count i +
      ((s.extend line).frames.flatMap Frame.ids).count i) +
    (Item.idsIn (s.extend line).root).count i ≤ _
  rw [hsupply, List.count_nil]
  omega

theorem openBranch (line : Nat) (guard : Guard) (s : BodyState) :
    s.Draws (s.openBranch line guard) := by
  have hopens := opensBranch line guard s
  generalize s.openBranch line guard = t at hopens ⊢
  cases hopens with
  | @first k hp =>
    refine pushBranch (fun i => ?_) rfl
    rw [count_ids, count_ids s, hp]
    change [].count i + _ + _ + [k.id].count i + [].count i ≤ [k.id].count i + _ + _
    simp only [List.count_nil]
    omega
  | @next k m bs g c fs _ hframes =>
    refine trans (popWhile (!·.isBranch) s) (pushBranch (fun i => ?_) rfl)
    have hbranch := Frame.count_idsIn_closeBranch_le m g c i
    rw [count_ids, count_ids (s.popWhile _), hframes, List.flatMap_cons, List.count_append,
      Frame.count_ids_branch, Branch.count_idsIn_cons _ bs]
    dsimp only
    omega
  | stray _ _ => exact popWhile _ s

theorem closeConditional (line : Nat) (hp : s.pending = none) : s.Draws (s.closeConditional line) := by
  rw [closeConditional_eq line hp]
  exact (extend line s).trans ((popWhile _ _).trans (pop _))

/-- What an act does. -/
theorem perform (line : Nat) {a : Act} (h : s.Admits a) : s.Draws (s.perform line a) := by
  cases a with
  | leaf leaf =>
    cases leaf with
    | stitch name => exact openStitch line name h
    | _ => exact append line _ s
  | choice depth head => exact (popWhile _ s).trans ((extend line _).trans (push rfl))
  | opening => exact opening line s
  | branch guard => exact openBranch line guard s
  | closing => exact closeConditional line h.1

end Draws

end BodyState

namespace Body

/-- A tree that was read has no identity but those that the supply has handed out meanwhile, and none of
them twice. -/
theorem count_idsIn_read_le (supply : Nat) (texts : List String) :
    supply ≤ (read supply texts).2 ∧ ∀ i,
      (Item.idsIn (read supply texts).1.items).count i ≤ Id.drawn supply (read supply texts).2 i := by
  have hread : BodyState.Draws { supply } (lastState supply (Line.ofTexts texts)) :=
    BodyState.lastState_induction (I := fun _ _ t => BodyState.Draws { supply } t) (fun _ _ _ ht => ht)
      (fun _ _ t line cause ht => ht.trans (.report line cause t))
      (fun n _ _ _ hadmits ht => ht.trans (.perform n hadmits))
      (fun _ _ t _ ht => ht.trans (.pop t)) supply _ (.refl _)
  obtain ⟨hsupply, hcount⟩ := hread
  rw [read_eq]
  refine ⟨hsupply, fun i => ?_⟩
  -- nothing was in the state at the start
  have hlast : (lastState supply (Line.ofTexts texts)).ids.count i ≤
      0 + Id.drawn supply (lastState supply (Line.ofTexts texts)).supply i := hcount i
  rw [BodyState.count_ids] at hlast
  rw [Item.count_idsIn_reverse]
  dsimp only
  omega

end Body

end StoryScript
