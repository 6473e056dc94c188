import StoryScript.Proofs.Body.Reading
import StoryScript.Proofs.Line.Section
import StoryScript.Proofs.Story.Nodes

/-!
# Choices in the order of their lines

In document order the choices of a tree that was read begin on lines that increase, so no two of them begin
on one line (`Body.pairwise_choiceLines_read`). Two facts come together in this:

* The choices of a tree are those that acts have opened, in order and on the lines of the acts
  (`BodyState.choiceLines_perform`). For a container that is finished becomes an item in its place, and the
  divert that it takes over is no choice.
* The acts of one line open at most one choice (`Act.countP_isChoice_ofWholeLine`). Several lines stand on one
  only behind branches, and nothing is read behind a choice.
-/

namespace StoryScript

/-! ### Choices of nodes -/

/-- The line on which a choice begins. -/
def Node.choiceLine? : Node → Option Nat
  | item (.choice m _ _) => m.span.map Span.first
  | _ => none

/-- The lines on which the choices among some nodes begin. -/
def Node.choiceLines (ns : List Node) : List Nat := ns.filterMap Node.choiceLine?

@[simp] theorem Node.choiceLines_append (ns ms : List Node) :
    choiceLines (ns ++ ms) = choiceLines ns ++ choiceLines ms := List.filterMap_append

@[simp] theorem Node.choiceLines_leaf (m : Mark) (l : Leaf) :
    choiceLines (Item.leaf m l).nodes = [] := rfl

namespace Frame

/-- The lines on which the choices of a frame begin, its own first. -/
def choiceLines : Frame → List Nat
  | choice m _ _ c => m.span.first :: Node.choiceLines (Item.nodesIn c.reverse)
  | branch _ bs _ _ c =>
    Node.choiceLines (Branch.nodesIn bs.reverse) ++ Node.choiceLines (Item.nodesIn c.reverse)

variable {f : Frame} {line : Nat}

theorem choiceLines_reverse_cons (i : Item) (c : List Item) :
    Node.choiceLines (Item.nodesIn (i :: c).reverse) =
      Node.choiceLines (Item.nodesIn c.reverse) ++ Node.choiceLines i.nodes := by
  rw [List.reverse_cons, Item.nodesIn_append, Node.choiceLines_append, Item.nodesIn, Item.nodesIn,
    List.append_nil]

theorem choiceLines_add (i : Item) : (f.add i).choiceLines = f.choiceLines ++ Node.choiceLines i.nodes := by
  cases f with
  | choice m d h c => rw [add, choiceLines, choiceLines, choiceLines_reverse_cons, List.cons_append]
  | branch k bs m g c => rw [add, choiceLines, choiceLines, choiceLines_reverse_cons, List.append_assoc]

@[simp] theorem choiceLines_extend : (f.extend line).choiceLines = f.choiceLines := by cases f <;> rfl

/-- The divert that is taken over is no choice. -/
theorem choiceLines_hoist (d : Option String) (c : List Item) :
    Node.choiceLines (Item.nodesIn (hoist d c).2) = Node.choiceLines (Item.nodesIn c.reverse) := by
  unfold hoist
  split
  · rw [choiceLines_reverse_cons, Node.choiceLines_leaf, List.append_nil]
  · rfl

theorem choiceLines_closeBranch (m : OpenMark) (g : Guard) (c : List Item) :
    Node.choiceLines (closeBranch m g c).nodes = Node.choiceLines (Item.nodesIn c.reverse) :=
  choiceLines_hoist none c

theorem choiceLines_branches (m : OpenMark) (g : Guard) (c : List Item) (bs : List Branch) :
    Node.choiceLines (Branch.nodesIn (closeBranch m g c :: bs).reverse) =
      Node.choiceLines (Branch.nodesIn bs.reverse) ++ Node.choiceLines (Item.nodesIn c.reverse) := by
  rw [List.reverse_cons, Branch.nodesIn_append, Node.choiceLines_append, Branch.nodesIn, Branch.nodesIn,
    List.append_nil, choiceLines_closeBranch]

/-- A finished frame has the choices that it had while it was open. -/
theorem choiceLines_close (f : Frame) : Node.choiceLines f.close.nodes = f.choiceLines := by
  cases f with
  | choice m d h c => exact congrArg (m.span.first :: ·) (choiceLines_hoist h.divert c)
  | branch k bs m g c => exact choiceLines_branches m g c bs

end Frame

/-! ### Acts -/

namespace Act

/-- Whether an act opens a choice. -/
def isChoice : Act → Bool
  | choice _ _ => true
  | _ => false

/-- The lines of the acts that open choices. -/
def choiceLines (as : List (Nat × Act)) : List Nat := (as.filter (·.2.isChoice)).map Prod.fst

theorem choiceLines_append (as bs : List (Nat × Act)) :
    choiceLines (as ++ bs) = choiceLines as ++ choiceLines bs := by
  rw [choiceLines, List.filter_append, List.map_append]
  rfl

/-- On one line there is one entry for each choice. -/
theorem choiceLines_map (n : Nat) (as : List Act) :
    choiceLines (as.map (n, ·)) = List.replicate (as.countP isChoice) n := by
  rw [choiceLines, List.filter_map, List.map_map, List.countP_eq_length_filter]
  exact List.map_const'

variable {st : List Open} {branchFollows : Bool} {l : Line}

theorem countP_isChoice_leaves (ls : List Leaf) : (ls.map leaf).countP isChoice = 0 := by
  rw [List.countP_eq_zero]
  rintro _ ha
  obtain ⟨x, -, rfl⟩ := List.mem_map.mp ha
  exact Bool.false_ne_true

theorem countP_isChoice_ofLine_le (st : List Open) (branchFollows : Bool) (l : Line) :
    (ofLine st branchFollows l).countP isChoice ≤ 1 := by
  have hacts := lineActs st branchFollows l
  generalize ofLine st branchFollows l = as at hacts
  cases hacts with
  | leaves =>
    rw [countP_isChoice_leaves]
    exact Nat.zero_le 1
  | _ => exact List.countP_le_length

/-- A branch opens no choice. What its remainder opens is opened by another line of the chain. -/
theorem countP_isChoice_ofLine_of_isBranch (h : l.form.isBranch = true) :
    (ofLine st branchFollows l).countP isChoice = 0 := by
  obtain ⟨guard, rest, hform⟩ := LineForm.isBranch_iff.mp h
  rw [ofLine, hform]
  dsimp only
  split
  · rfl
  · exact countP_isChoice_leaves _

theorem countP_isChoice_ofChain_le {ls : List Line} (h : ∀ l ∈ ls.dropLast, l.form.isBranch = true) :
    (ofChain st branchFollows ls).countP isChoice ≤ 1 := by
  induction ls generalizing st with
  | nil => exact Nat.zero_le 1
  | cons l ls ih =>
    rw [ofChain, List.countP_append]
    -- the choice is opened by the last line of the chain, since those in front of it are branches
    cases ls with
    | nil => exact countP_isChoice_ofLine_le st branchFollows l
    | cons l' ls =>
      rw [List.dropLast_cons_cons, List.forall_mem_cons] at h
      rw [countP_isChoice_ofLine_of_isBranch h.1, Nat.zero_add]
      exact ih h.2

end Act

/-- Of the lines that stand on one, only branches have another one behind them, if this is so in the remainder. -/
theorem Line.isBranch_of_mem_dropLast_chain_of {l : Line} (hrest : ∀ guard rest, l.form = .branch guard rest →
    ∀ x ∈ (chainOf rest).dropLast, x.form.isBranch = true) :
    ∀ x ∈ l.chain.dropLast, x.form.isBranch = true := by
  by_cases hb : ∃ guard rest, l.form = .branch guard rest
  · obtain ⟨guard, rest, hform⟩ := hb
    rw [chain_of_branch hform]
    split
    · exact fun x hx => absurd hx List.not_mem_nil
    · obtain ⟨ls, hls⟩ := exists_chain (ofText rest)
      have hchain := hrest guard rest hform
      rw [chainOf_eq, hls] at hchain ⊢
      rw [List.dropLast_cons_cons, List.forall_mem_cons]
      exact ⟨by rw [hform]; rfl, hchain⟩
  · rw [chain_of_not_branch fun guard rest hform => hb ⟨guard, rest, hform⟩]
    exact fun x hx => absurd hx List.not_mem_nil

theorem Line.isBranch_of_mem_dropLast_chainOf (text : String) :
    ∀ x ∈ (chainOf text).dropLast, x.form.isBranch = true := by
  rw [chainOf_eq]
  -- by induction on the length of the text, for the remainder of a branch is shorter
  refine isBranch_of_mem_dropLast_chain_of fun guard rest hform => ?_
  have hlt := length_lt_of_branch hform
  exact isBranch_of_mem_dropLast_chainOf rest
termination_by text.length

namespace Act

/-- A line opens at most one choice, its remainder included. -/
theorem countP_isChoice_ofWholeLine (st : List Open) (branchFollows : Bool) (l : Line) :
    (ofWholeLine st branchFollows l).countP isChoice ≤ 1 := by
  unfold ofWholeLine
  split
  · exact countP_isChoice_ofLine_le st branchFollows l
  · exact countP_isChoice_ofChain_le (Line.isBranch_of_mem_dropLast_chain_of fun _ rest _ =>
      Line.isBranch_of_mem_dropLast_chainOf rest)

/-- The lines from `n` on open choices one behind the other. -/
theorem pairwise_choiceLines_located (st : List Open) (n : Nat) (ls : List Line) :
    (choiceLines (located st n ls)).Pairwise (· < ·) ∧ ∀ m ∈ choiceLines (located st n ls), n ≤ m := by
  induction ls generalizing st n with
  | nil => exact ⟨.nil, fun m hm => absurd hm List.not_mem_nil⟩
  | cons l ls ih =>
    rw [located]
    split
    · exact ⟨(ih st (n + 1)).1, fun m hm => Nat.le_of_succ_le ((ih st (n + 1)).2 m hm)⟩
    · obtain ⟨hpairwise, hfrom⟩ := ih (after st (ofWholeLine st (branchFirst ls) l)) (n + 1)
      have hone := countP_isChoice_ofWholeLine st (branchFirst ls) l
      dsimp only
      rw [choiceLines_append, choiceLines_map]
      -- `n` is listed for this line, if anything is, and only once
      refine ⟨List.pairwise_append.mpr ⟨?_, hpairwise, fun a ha b hb => ?_⟩, fun m hm => ?_⟩
      · rw [List.pairwise_replicate]
        exact Or.inl hone
      · rw [List.eq_of_mem_replicate ha]
        exact hfrom b hb
      · rcases List.mem_append.mp hm with hm | hm
        · exact (List.eq_of_mem_replicate hm).ge
        · exact Nat.le_of_succ_le (hfrom m hm)

end Act

/-! ### The reader -/

namespace BodyState

/-- The lines on which the choices of the items at the root and of the open frames begin. -/
def choiceLinesOf (root : List Item) : List Frame → List Nat
  | [] => Node.choiceLines (Item.nodesIn root.reverse)
  | f :: fs => choiceLinesOf root fs ++ f.choiceLines

/-- The lines on which the choices begin that have been read so far. -/
def choiceLines (s : BodyState) : List Nat := choiceLinesOf s.root s.frames

variable {s : BodyState} {line : Nat}

theorem choiceLinesOf_extend (root : List Item) (line : Nat) (fs : List Frame) :
    choiceLinesOf root (fs.map (·.extend line)) = choiceLinesOf root fs := by
  induction fs with
  | nil => rfl
  | cons f fs ih => rw [List.map_cons, choiceLinesOf, choiceLinesOf, ih, Frame.choiceLines_extend]

theorem choiceLines_extend (line : Nat) (s : BodyState) : (s.extend line).choiceLines = s.choiceLines :=
  choiceLinesOf_extend s.root line s.frames

theorem choiceLines_add (i : Item) (s : BodyState) :
    (s.add i).choiceLines = s.choiceLines ++ Node.choiceLines i.nodes := by
  unfold choiceLines BodyState.add
  cases s.frames with
  | nil => exact Frame.choiceLines_reverse_cons i s.root
  | cons f fs =>
    dsimp only
    rw [choiceLinesOf, choiceLinesOf, Frame.choiceLines_add, List.append_assoc]

theorem choiceLines_append (line : Nat) (leaf : Leaf) (s : BodyState) :
    (s.append line leaf).choiceLines = s.choiceLines := by
  rw [BodyState.append, choiceLines_extend, choiceLines_add, Node.choiceLines_leaf, List.append_nil]
  rfl

/-- A container that is finished takes its choices along. -/
theorem choiceLines_pop (s : BodyState) : s.pop.choiceLines = s.choiceLines := by
  cases hf : s.frames with
  | nil => rw [pop_of_frames_nil hf]
  | cons f fs =>
    rw [pop_of_frames hf, choiceLines_add, Frame.choiceLines_close, choiceLines, choiceLines, hf]
    rfl

theorem choiceLines_popWhile (p : Frame → Bool) (s : BodyState) :
    (s.popWhile p).choiceLines = s.choiceLines :=
  popWhile_induction (P := fun t => t.choiceLines = s.choiceLines)
    (fun t ht => (choiceLines_pop t).trans ht) p rfl

theorem choiceLines_openStitch (hp : s.pending = none) (name : String) :
    (s.openStitch line name).choiceLines = s.choiceLines := by
  have hclosed : (s.closeAll line).choiceLines = s.choiceLines :=
    closeAll_induction (P := fun t => t.choiceLines = s.choiceLines) line
      (fun t ht => (choiceLines_pop t).trans ht) (fun _ ht => ht) hp rfl
  obtain ⟨t, heq, hroot, hframes, -, -⟩ := s.exists_openStitch_eq line name
  rw [heq, choiceLines_append, choiceLines, hroot, hframes]
  exact hclosed

theorem choiceLines_openBranch (guard : Guard) (hin : s.inConditional = true) :
    (s.openBranch line guard).choiceLines = s.choiceLines := by
  have hopens := opensBranch line guard s
  generalize s.openBranch line guard = t at hopens ⊢
  cases hopens with
  | first _ => exact (List.append_nil _).trans (choiceLinesOf_extend s.root line s.frames)
  | @next k m bs g c fs _ hframes =>
    -- the branch in front is finished, and so is what is open in it
    have hpopped := choiceLines_popWhile (!·.isBranch) s
    rw [choiceLines, hframes] at hpopped
    rw [← hpopped, choiceLinesOf, choiceLines, pushBranch, choiceLinesOf]
    refine congrArg₂ (· ++ ·) (choiceLinesOf_extend _ line fs) ?_
    rw [Frame.choiceLines, Frame.choiceLines_branches]
    exact List.append_nil _
  | stray _ hout => simp [hin] at hout

theorem choiceLines_closeConditional (hp : s.pending = none) :
    (s.closeConditional line).choiceLines = s.choiceLines := by
  rw [closeConditional_eq line hp, choiceLines_pop, choiceLines_popWhile, choiceLines_extend]

/-- An act that opens a choice begins one on its line, and no other act does anything to choices. -/
theorem choiceLines_perform {a : Act} (ha : s.Admits a) :
    (s.perform line a).choiceLines = s.choiceLines ++ Act.choiceLines [(line, a)] := by
  cases a with
  | leaf l =>
    refine Eq.trans ?_ (List.append_nil _).symm
    cases l with
    | stitch name => exact choiceLines_openStitch ha name
    | _ => exact choiceLines_append line _ s
  | choice depth head =>
    have hpopped := choiceLines_popWhile (·.endsAtChoice depth) s
    rw [← choiceLines_extend line] at hpopped
    rw [← hpopped]
    rfl
  | opening => exact (choiceLines_extend line s).trans (List.append_nil _).symm
  | branch guard => exact (choiceLines_openBranch guard ha).trans (List.append_nil _).symm
  | closing => exact (choiceLines_closeConditional ha.1).trans (List.append_nil _).symm

end BodyState

/-! ### A whole body -/

namespace Body

/-- The choices of a tree that was read are those that its lines open. -/
theorem choiceLines_read (supply : Nat) (texts : List String) :
    Node.choiceLines (Item.nodesIn (read supply texts).1.items) =
      Act.choiceLines (Act.located [] (skipped (Line.ofTexts texts)) (content (Line.ofTexts texts))) := by
  have hlast := BodyState.lastState_induction (I := fun _ as s => s.choiceLines = Act.choiceLines as)
    (fun _ _ _ hs => hs) (fun _ _ _ _ _ hs => hs)
    (fun n as s a ha hs => by rw [BodyState.choiceLines_perform ha, hs, Act.choiceLines_append])
    (fun _ _ s _ hs => (BodyState.choiceLines_pop s).trans hs) supply (Line.ofTexts texts) rfl
  -- every container is finished in the end, so the choices are those at the root
  rw [read_items, ← hlast, BodyState.choiceLines, frames_lastState]
  rfl

/-- In document order the choices of a tree that was read begin on lines that increase. -/
theorem pairwise_choiceLines_read (supply : Nat) (texts : List String) :
    (Node.choiceLines (Item.nodesIn (read supply texts).1.items)).Pairwise (· < ·) := by
  rw [choiceLines_read]
  exact (Act.pairwise_choiceLines_located _ _ _).1

end Body

end StoryScript
