import StoryScript.Proofs.Body.Frames
import Mathlib.Data.List.Chain

/-!
# The shape of a content tree that has been read

Not every tree of items can be the content of a knot. `Item.WellShapedIn` lists what holds of each
one that has been read: stitches stand only at the root; nothing but a choice, or at the root a
stitch, stands behind a choice; a conditional has a branch; a container without a divert does not
end in a divert, since it would have taken that divert over; and a branch with a divert does not end
in a choice, which would have taken it.

`BodyState.Shaped` is the invariant of the reader that carries this. It speaks of the content of
every open container, held newest first (`Laid`), and of the joints of the stack: only a choice is
opened behind a choice, and every container was opened below the nesting limit. The limit matters:
a choice line first finishes choices and is refused only then, so an item could end up behind a
finished choice. It cannot, because finishing a choice makes room.

`BodyState.Settled` holds in addition between two lines: the innermost container does not end in a
choice. A conditional that waits for its first branch gets one (`BodyState.Sound.pending`), so it is
never finished without branches.
-/

namespace StoryScript

/-- Whether a list of items is not empty and its last item satisfies a condition. -/
def Item.EndsIn (p : Item → Bool) (items : List Item) : Prop := items.getLast?.any p = true

/-- What may stand behind an item: behind a choice only a choice or, at the root, a stitch. -/
def Item.MayPrecede (root : Bool) (i j : Item) : Prop :=
  i.isChoice = true → j.isChoice = true ∨ root = true ∧ j.isStitch = true

mutual

/-- The shape of one item and of everything in it. -/
def Item.WellShaped : Item → Prop
  | .leaf _ _ => True
  | .choice _ h c => (h.divert = none → ¬ Item.EndsIn Item.isDivert c) ∧ Item.WellShapedIn false c
  | .conditional _ bs => bs ≠ [] ∧ Branch.WellShapedIn bs

/-- The shape of one branch and of everything in it. -/
def Branch.WellShaped : Branch → Prop
  | .mk _ _ d c => (d = none → ¬ Item.EndsIn Item.isDivert c) ∧
      (d ≠ none → ¬ Item.EndsIn Item.isChoice c) ∧ Item.WellShapedIn false c

/-- The shape of the list of a container; `root` says whether it is the root of the knot. -/
def Item.WellShapedIn (root : Bool) : List Item → Prop
  | [] => True
  | i :: is => i.WellShaped ∧ (i.isStitch = true → root = true) ∧
      (∀ j ∈ is.head?, i.MayPrecede root j) ∧ Item.WellShapedIn root is

/-- The shape of the branches of a conditional. -/
def Branch.WellShapedIn : List Branch → Prop
  | [] => True
  | b :: bs => b.WellShaped ∧ Branch.WellShapedIn bs

end

namespace Item

theorem wellShapedIn_iff {root : Bool} {items : List Item} :
    WellShapedIn root items ↔ items.IsChain (MayPrecede root) ∧
      ∀ i ∈ items, i.WellShaped ∧ (i.isStitch = true → root = true) := by
  induction items with
  | nil => simp [WellShapedIn]
  | cons i is ih =>
    rw [WellShapedIn, ih, List.isChain_cons, List.forall_mem_cons]
    tauto

/-- A list held newest first, as an open container holds it. -/
def Laid (root : Bool) (content : List Item) : Prop := WellShapedIn root content.reverse

theorem laid_iff {root : Bool} {content : List Item} :
    Laid root content ↔ content.IsChain (fun j i => MayPrecede root i j) ∧
      ∀ i ∈ content, i.WellShaped ∧ (i.isStitch = true → root = true) := by
  simp only [Laid, wellShapedIn_iff, List.isChain_reverse, List.mem_reverse]

@[simp] theorem laid_nil (root : Bool) : Laid root [] := trivial

theorem laid_cons {root : Bool} {i : Item} {content : List Item} :
    Laid root (i :: content) ↔ (∀ j ∈ content.head?, j.MayPrecede root i) ∧
      (i.WellShaped ∧ (i.isStitch = true → root = true)) ∧ Laid root content := by
  simp only [laid_iff, List.isChain_cons, List.forall_mem_cons]
  tauto

theorem endsIn_reverse {p : Item → Bool} {content : List Item} :
    EndsIn p content.reverse ↔ ∃ i ∈ content.head?, p i = true := by
  cases content <;> simp [EndsIn]

end Item

theorem Branch.wellShapedIn_iff {bs : List Branch} :
    Branch.WellShapedIn bs ↔ ∀ b ∈ bs, b.WellShaped := by
  induction bs with
  | nil => simp [Branch.WellShapedIn]
  | cons b bs ih => rw [Branch.WellShapedIn, ih, List.forall_mem_cons]

/-! ### Finishing a container -/

namespace Frame

/-- Taking over the divert that ends a content leaves a content that fits it: without a divert the
content does not end in one, and a divert that was taken over did not stand behind a choice. -/
theorem hoist_wellShaped (divert : Option String) {content : List Item}
    (h : Item.Laid false content) :
    ((hoist divert content).1 = none → ¬ Item.EndsIn Item.isDivert (hoist divert content).2) ∧
      (divert = none → (hoist divert content).1 ≠ none →
        ¬ Item.EndsIn Item.isChoice (hoist divert content).2) ∧
      Item.WellShapedIn false (hoist divert content).2 := by
  unfold hoist
  split
  · next _ m target rest =>
    rw [Item.laid_cons] at h
    obtain ⟨hfirst, -, hrest⟩ := h
    refine ⟨fun hn => absurd hn (by simp), fun _ _ hends => ?_, hrest⟩
    obtain ⟨j, hj, hchoice⟩ := Item.endsIn_reverse.mp hends
    -- the divert stood behind `j`, so `j` is no choice
    rcases hfirst j hj hchoice with hd | ⟨hroot, -⟩
    · simp [Item.isChoice] at hd
    · simp at hroot
  · next hno =>
    refine ⟨fun hd hends => ?_, fun hd hsome => absurd hd hsome, h⟩
    obtain ⟨i, hi, hdiv⟩ := Item.endsIn_reverse.mp hends
    obtain ⟨rest, rfl⟩ : ∃ rest, content = i :: rest := by
      cases content with
      | nil => simp at hi
      | cons j rest => exact ⟨rest, by simp_all⟩
    obtain ⟨m, target, rfl⟩ : ∃ m target, i = .leaf m (.divert target) := by
      unfold Item.isDivert Item.divertTarget? at hdiv
      split at hdiv
      · exact ⟨_, _, rfl⟩
      · simp at hdiv
    exact hno m target rest hd rfl

/-- What has been read into an open container. -/
def Shaped : Frame → Prop
  | choice _ _ _ c => Item.Laid false c
  | branch _ bs _ _ c => (∀ b ∈ bs, b.WellShaped) ∧ Item.Laid false c

theorem closeBranch_wellShaped {mark : OpenMark} {guard : Guard} {content : List Item}
    (h : Item.Laid false content) : (closeBranch mark guard content).WellShaped := by
  obtain ⟨hnone, hsome, hin⟩ := hoist_wellShaped none h
  exact ⟨hnone, hsome rfl, hin⟩

theorem close_wellShaped {f : Frame} (h : f.Shaped) : f.close.WellShaped := by
  cases f with
  | choice m d head c =>
    obtain ⟨hnone, -, hin⟩ := hoist_wellShaped head.divert h
    exact ⟨hnone, hin⟩
  | branch k bs m g c =>
    refine ⟨by simp, Branch.wellShapedIn_iff.mpr fun b hb => ?_⟩
    rw [List.mem_reverse, List.mem_cons] at hb
    rcases hb with rfl | hb
    · exact closeBranch_wellShaped h.2
    · exact h.1 b hb

theorem isChoice_close (f : Frame) : f.close.isChoice = !f.isBranch := by cases f <;> rfl

theorem isStitch_close (f : Frame) : f.close.isStitch = false := by cases f <;> rfl

theorem shaped_add {f : Frame} {i : Item} (hf : f.Shaped) (hi : i.WellShaped)
    (hstitch : i.isStitch = false) (hprev : ∀ j ∈ f.content.head?, j.MayPrecede false i) :
    (f.add i).Shaped := by
  cases f with
  | choice m d h c =>
    exact Item.laid_cons.mpr ⟨hprev, ⟨hi, fun hs => absurd hs (by simp [hstitch])⟩, hf⟩
  | branch k bs m g c =>
    exact ⟨hf.1, Item.laid_cons.mpr ⟨hprev, ⟨hi, fun hs => absurd hs (by simp [hstitch])⟩, hf.2⟩⟩

end Frame

/-! ### The invariant of the reader -/

namespace BodyState

/-- What has been read into the innermost container, newest first. -/
def innermost (root : List Item) : List Frame → List Item
  | [] => root
  | f :: _ => f.content

/-- The open containers fit on each other: every one was opened below the nesting limit, and none
but a choice was opened behind a choice. -/
def Stacked (root : List Item) : List Frame → Prop
  | [] => Item.Laid true root
  | f :: fs => f.Shaped ∧ heightOf fs < nestingLimit ∧
      (f.isBranch = true → ∀ i ∈ (innermost root fs).head?, i.isChoice = false) ∧ Stacked root fs

/-- What has been read has the shape of a content tree. -/
def Shaped (s : BodyState) : Prop := Stacked s.root s.frames

/-- The innermost container does not end in a choice, so anything may be put into it. -/
def Settled (s : BodyState) : Prop := ∀ i ∈ (innermost s.root s.frames).head?, i.isChoice = false

/-- Reading may go on with any line. -/
structure Quiet (s : BodyState) : Prop where
  shaped : s.Shaped
  settled : s.Settled
  /-- No conditional waits for its first branch. -/
  pending : s.pending = none

/-- Between two lines; `branchFollows` says whether the next line that is not blank is a branch. -/
structure Sound (branchFollows : Bool) (s : BodyState) : Prop where
  shaped : s.Shaped
  settled : s.Settled
  /-- A conditional that waits for its first branch gets it next, and there is room for it. -/
  pending : s.pending.isSome = true → branchFollows = true ∧ heightOf s.frames < nestingLimit

theorem Quiet.sound {s : BodyState} (h : s.Quiet) (branchFollows : Bool) : s.Sound branchFollows :=
  ⟨h.shaped, h.settled, fun hp => by simp [h.pending] at hp⟩

/-- In front of a line that is no branch, no conditional waits for its first branch. -/
theorem Sound.pending_none {s : BodyState} {isBranch : Bool} (h : s.Sound isBranch)
    (hno : isBranch = false) : s.pending = none := by
  by_contra hp
  simpa [hno] using (h.pending (Option.isSome_iff_ne_none.mpr hp)).1

theorem Sound.quiet {s : BodyState} {isBranch : Bool} (h : s.Sound isBranch) (hno : isBranch = false) :
    s.Quiet :=
  ⟨h.shaped, h.settled, h.pending_none hno⟩

/-- Outside any conditional, none waits for its first branch. -/
theorem pending_none_of_not_inConditional {s : BodyState} (h : ¬s.inConditional = true) :
    s.pending = none := by
  by_contra hp
  simp [inConditional, Option.isSome_iff_ne_none.mpr hp] at h

/-- Putting an item that fits at the end of the innermost container. -/
theorem Shaped.add {s : BodyState} {i : Item} (h : s.Shaped) (hi : i.WellShaped)
    (hstitch : i.isStitch = true → s.frames = [])
    (hprev : ∀ j ∈ (innermost s.root s.frames).head?, j.MayPrecede s.frames.isEmpty i) :
    (s.add i).Shaped := by
  unfold Shaped at h ⊢
  unfold BodyState.add
  cases hf : s.frames with
  | nil =>
    rw [hf] at h hprev
    exact Item.laid_cons.mpr ⟨hprev, ⟨hi, fun _ => rfl⟩, h⟩
  | cons f fs =>
    rw [hf] at h hprev
    obtain ⟨hshaped, hroom, hjoint, hrest⟩ := h
    have hno : i.isStitch = false := by
      by_contra hs
      simpa [hf] using hstitch (by simpa using hs)
    refine ⟨Frame.shaped_add hshaped hi hno hprev, hroom, ?_, hrest⟩
    rw [Frame.isBranch_add]
    exact hjoint

/-- Finishing the innermost container. -/
theorem Shaped.pop {s : BodyState} (h : s.Shaped) : s.pop.Shaped := by
  cases hf : s.frames with
  | nil => rwa [pop_of_frames_nil hf]
  | cons f fs =>
    rw [pop_of_frames hf]
    have hs : Stacked s.root (f :: fs) := hf ▸ h
    obtain ⟨hshaped, -, hjoint, hrest⟩ := hs
    refine Shaped.add (s := { s with frames := fs, spans := _ }) hrest (Frame.close_wellShaped hshaped)
      (fun hst => absurd hst (by simp [Frame.isStitch_close])) fun j hj hchoice => Or.inl ?_
    -- behind a choice the finished frame is a choice itself
    rw [Frame.isChoice_close]
    by_contra hbranch
    rw [hjoint (by simpa using hbranch) j hj] at hchoice
    simp at hchoice

theorem Shaped.popWhile {s : BodyState} (p : Frame → Bool) (h : s.Shaped) :
    (s.popWhile p).Shaped :=
  popWhile_induction (fun _ hs => hs.pop) p h

theorem Shaped.closeAll {s : BodyState} (line : Nat) (hp : s.pending = none) (h : s.Shaped) :
    (s.closeAll line).Shaped :=
  closeAll_induction line (fun _ hs => hs.pop) (fun _ hs => hs) hp h

/-! ### What a line does to the invariant -/

@[simp] theorem innermost_extend (root : List Item) (frames : List Frame) (line : Nat) :
    innermost root (frames.map (·.extend line)) = innermost root frames := by
  cases frames <;> simp [innermost]

theorem stacked_extend {root : List Item} {frames : List Frame} (line : Nat) :
    Stacked root (frames.map (·.extend line)) ↔ Stacked root frames := by
  induction frames with
  | nil => rfl
  | cons f fs ih =>
    have hf : (f.extend line).Shaped ↔ f.Shaped := by cases f <;> rfl
    simp only [List.map_cons, Stacked, heightOf_extend, hf, Frame.isBranch_extend, innermost_extend, ih]

theorem Shaped.extend {s : BodyState} (line : Nat) (h : s.Shaped) : (s.extend line).Shaped :=
  (stacked_extend line).mpr h

theorem Settled.extend {s : BodyState} (line : Nat) (h : s.Settled) : (s.extend line).Settled := by
  unfold Settled BodyState.extend
  rw [innermost_extend]
  exact h

theorem Quiet.report {s : BodyState} (line : Nat) (cause : IssueCause) (h : s.Quiet) :
    (s.report line cause).Quiet :=
  ⟨h.shaped, h.settled, h.pending⟩

/-- The item that was put last is the newest of the innermost container. -/
theorem innermost_add (s : BodyState) (i : Item) :
    innermost (s.add i).root (s.add i).frames = i :: innermost s.root s.frames := by
  unfold add
  cases s.frames <;> simp [innermost]

@[simp] theorem add_pending (s : BodyState) (i : Item) : (s.add i).pending = s.pending := by
  unfold add
  split <;> rfl

/-- A leaf may be appended where the container does not end in a choice, and a stitch at the root
always. -/
theorem Quiet.append_of_shaped {s : BodyState} {leaf : Leaf} (line : Nat) (hshaped : s.Shaped)
    (hp : s.pending = none)
    (hstitch : (∃ name, leaf = .stitch name) → s.frames = [])
    (hsettled : (¬ ∃ name, leaf = .stitch name) → s.Settled) : (s.append line leaf).Quiet := by
  have hleaf : ∀ m, (Item.leaf m leaf).isStitch = true ↔ ∃ name, leaf = .stitch name := by
    intro m
    cases leaf <;> simp [Item.isStitch, Item.stitchName?]
  have hadd : ((s.draw line).add
      (.leaf ⟨.fresh s.supply, some ⟨line, line⟩⟩ leaf)).Shaped := by
    refine Shaped.add hshaped trivial (fun hs => hstitch ((hleaf _).mp hs)) fun j hj hchoice => ?_
    by_cases hs : ∃ name, leaf = .stitch name
    · exact Or.inr ⟨by rw [draw_frames, hstitch hs]; rfl, (hleaf _).mpr hs⟩
    · have hno : j.isChoice = false := hsettled hs j hj
      simp [hno] at hchoice
  refine ⟨hadd.extend line, Settled.extend line fun i hi => ?_, ?_⟩
  · rw [innermost_add] at hi
    simp only [List.head?_cons, Option.mem_some_iff] at hi
    rw [← hi]
    rfl
  · simp [append, BodyState.extend, hp]

theorem Quiet.append {s : BodyState} {leaf : Leaf} (line : Nat) (h : s.Quiet)
    (hleaf : ¬ ∃ name, leaf = .stitch name) : (s.append line leaf).Quiet :=
  append_of_shaped line h.shaped h.pending (fun hs => absurd hs hleaf) fun _ => h.settled

theorem Quiet.refuse {s : BodyState} (line : Nat) (text : String) (h : s.Quiet) :
    (s.refuse line text).Quiet :=
  (h.report line _).append line (by simp)

theorem Quiet.appendLine {s : BodyState} (line : Nat) (l : Line) (h : s.Quiet) :
    (s.appendLine line l).Quiet := by
  unfold BodyState.appendLine
  split
  case h_2 => exact (h.append line (by simp)).append line (by simp)
  all_goals exact h.append line (by simp)

theorem interrupt_of_pending_none {s : BodyState} (line : Nat) (h : s.pending = none) :
    s.interrupt line = s := by
  simp [interrupt, h]

theorem popWhile_pending (p : Frame → Bool) (s : BodyState) :
    (s.popWhile p).pending = s.pending :=
  popWhile_induction (P := fun t => t.pending = s.pending)
    (fun _ h => (pop_pending _).trans h) p rfl

theorem closeAll_pending {s : BodyState} (line : Nat) (h : s.pending = none) :
    (s.closeAll line).pending = none :=
  closeAll_induction (P := fun t => t.pending = none) line
    (fun _ hs => (pop_pending _).trans hs) (fun _ hs => hs) h h

theorem Quiet.openStitch {s : BodyState} (line : Nat) (name : String) (h : s.Quiet) :
    (s.openStitch line name).Quiet := by
  have hshaped := h.shaped.closeAll line h.pending
  have hp := closeAll_pending line h.pending
  have hframes := closeAll_frames line h.pending
  unfold BodyState.openStitch
  dsimp only
  split
  all_goals exact append_of_shaped line hshaped hp (fun _ => hframes) (by simp)

/-- The height arithmetic of the nesting limit: a finished choice leaves room. -/
theorem popWhile_of_no_room {s : BodyState} {depth : Nat} (h : s.Shaped) (hp : s.pending = none)
    (hroom : ¬ (s.popWhile (·.endsAtChoice depth)).hasRoom = true) :
    s.popWhile (·.endsAtChoice depth) = s := by
  cases hf : s.frames with
  | nil => exact popWhile_of_nil hf
  | cons f fs =>
    cases hends : f.endsAtChoice depth with
    | false => exact popWhile_of_neg hf hends
    | true =>
      refine absurd ?_ hroom
      have hs : Stacked s.root (f :: fs) := hf ▸ h
      have hle := heightOf_dropWhile_le (·.endsAtChoice depth) fs
      have hheight : heightOf (s.popWhile (·.endsAtChoice depth)).frames =
          heightOf (fs.dropWhile (·.endsAtChoice depth)) := by
        rw [heightOf_popWhile (fun f i => by simp), hf, List.dropWhile_cons_of_pos hends]
      simp only [hasRoom, height_eq, popWhile_pending, hp, hheight, Option.isSome_none,
        decide_eq_true_eq]
      exact lt_of_le_of_lt (by simpa using hle) hs.2.1

/-- A choice that finds no room finished nothing, since finishing a choice makes room; so the line
that is kept instead does not come to stand behind a choice. -/
theorem Quiet.openChoice {s : BodyState} (line : Nat) (text : String) (depth : Nat)
    (head : ChoiceHead) (h : s.Quiet) : (s.openChoice line text depth head).Quiet := by
  have hshaped : (s.popWhile (·.endsAtChoice depth)).Shaped := h.shaped.popWhile _
  have hp : (s.popWhile (·.endsAtChoice depth)).pending = none :=
    (popWhile_pending _ s).trans h.pending
  unfold BodyState.openChoice
  dsimp only
  split
  · next hroom =>
    have hheight : heightOf (s.popWhile (·.endsAtChoice depth)).frames < nestingLimit := by
      simpa [hasRoom, height_eq, hp] using hroom
    refine ⟨⟨Item.laid_nil false, ?_, by simp [Frame.isBranch], hshaped.extend line⟩,
      by simp [Settled, innermost, Frame.content], by simp [BodyState.extend, hp]⟩
    rwa [BodyState.extend, heightOf_extend]
  · next hroom =>
    rw [popWhile_of_no_room h.shaped h.pending hroom]
    exact h.refuse line text

theorem Quiet.openConditional {s : BodyState} {branchFollows : Bool} (line : Nat) (text : String)
    (hb : branchFollows = true) (h : s.Quiet) :
    (s.openConditional line text).Sound branchFollows := by
  unfold BodyState.openConditional
  split
  · next hroom =>
    refine ⟨h.shaped.extend line, h.settled.extend line, fun _ => ⟨hb, ?_⟩⟩
    have hheight : heightOf s.frames < nestingLimit := by
      simpa [hasRoom, height_eq, h.pending] using hroom
    simpa [BodyState.extend] using hheight
  · exact (h.refuse line text).sound _

theorem Sound.openBranch {s : BodyState} {branchFollows : Bool} (line : Nat) (guard : Guard)
    (hin : s.inConditional = true) (h : s.Sound branchFollows) :
    (s.openBranch line guard).Quiet := by
  -- the branch is the first one of a conditional, or it finishes the branch before it
  have hopens := opensBranch line guard s
  generalize s.openBranch line guard = t at hopens ⊢
  cases hopens with
  | first hp =>
    have hroom := (h.pending (by simp [hp])).2
    refine ⟨⟨⟨by simp, Item.laid_nil false⟩, ?_, fun _ => ?_, h.shaped.extend line⟩,
      by simp [Settled, pushBranch, innermost, Frame.content], rfl⟩
    · rwa [BodyState.extend, heightOf_extend]
    · exact h.settled.extend line
  | @next k m bs g c fs hp hframes =>
    have hp' : (s.popWhile (!·.isBranch)).pending = none := (popWhile_pending _ s).trans hp
    have hshaped : (s.popWhile (!·.isBranch)).Shaped := h.shaped.popWhile _
    have hs : Stacked (s.popWhile (!·.isBranch)).root (.branch k bs m g c :: fs) := hframes ▸ hshaped
    obtain ⟨⟨hbs, hc⟩, hroom, hjoint, hrest⟩ := hs
    refine ⟨⟨⟨?_, Item.laid_nil false⟩, ?_, fun _ => ?_, (stacked_extend line).mpr hrest⟩,
      by simp [Settled, pushBranch, innermost, Frame.content], by simp [pushBranch, BodyState.extend, hp']⟩
    · intro b hb
      rcases List.mem_cons.mp hb with rfl | hb
      · exact Frame.closeBranch_wellShaped hc
      · exact hbs b hb
    · rwa [BodyState.extend, heightOf_extend]
    · change ∀ i ∈ (innermost _ (fs.map (·.extend line))).head?, _
      rw [innermost_extend]
      exact hjoint rfl
  | stray _ hout => simp [hin] at hout

theorem Quiet.closeConditional {s : BodyState} (line : Nat) (hin : s.inConditional = true)
    (h : s.Quiet) : (s.closeConditional line).Quiet := by
  have hq : (s.extend line).Quiet :=
    ⟨h.shaped.extend line, h.settled.extend line, pending_extend line h.pending⟩
  have hp := (popWhile_pending (!·.isBranch) _).trans hq.pending
  obtain ⟨k, bs, m, g, c, fs, hf⟩ := exists_branch_of_inConditional hq.pending (by simpa using hin)
  rw [closeConditional_eq line h.pending]
  refine ⟨(hq.shaped.popWhile _).pop, ?_, (pop_pending _).trans hp⟩
  rw [pop_of_frames hf]
  intro i hi
  rw [innermost_add] at hi
  simp only [List.head?_cons, Option.mem_some_iff] at hi
  rw [← hi]
  rfl

/-- Every line but the brace of a conditional leaves nothing that waits. -/
theorem Sound.apply {s : BodyState} (branchFollows : Bool) (line : Nat) (l : Line)
    (h : s.Sound (l.form.isBranch)) : (s.apply branchFollows line l).Sound branchFollows ∧
      (l.form.isBranch = true → (s.apply branchFollows line l).Quiet) := by
  -- only the brace of a conditional leaves something to wait for, and only a branch may find it
  unfold BodyState.apply
  cases hform : l.form with
  | stitchHeader name =>
    have hq := h.quiet (by simp [hform, LineForm.isBranch])
    exact ⟨(hq.openStitch line name).sound _, by simp [LineForm.isBranch]⟩
  | choice depth head =>
    have hq := h.quiet (by simp [hform, LineForm.isBranch])
    simp only [interrupt_of_pending_none line hq.pending]
    exact ⟨(hq.openChoice line l.text depth head).sound _, by simp [LineForm.isBranch]⟩
  | conditionalOpen =>
    have hq := h.quiet (by simp [hform, LineForm.isBranch])
    simp only [interrupt_of_pending_none line hq.pending]
    refine ⟨?_, by simp [LineForm.isBranch]⟩
    split
    · next hb => exact hq.openConditional line l.text hb
    · exact (hq.appendLine line l).sound _
  | branch guard rest =>
    dsimp only
    split
    · next hin =>
      have hq := h.openBranch line guard hin
      exact ⟨hq.sound _, fun _ => hq⟩
    · next hin =>
      have hq := (Quiet.mk h.shaped h.settled (pending_none_of_not_inConditional hin)).appendLine line l
      exact ⟨hq.sound _, fun _ => hq⟩
  | conditionalClose =>
    have hq := h.quiet (by simp [hform, LineForm.isBranch])
    refine ⟨?_, by simp [LineForm.isBranch]⟩
    dsimp only
    split
    · next hin => exact (hq.closeConditional line hin).sound _
    · rw [interrupt_of_pending_none line hq.pending]
      exact (hq.appendLine line l).sound _
  | _ =>
    have hq := h.quiet (by simp [hform, LineForm.isBranch])
    dsimp only
    rw [interrupt_of_pending_none line hq.pending]
    exact ⟨(hq.appendLine line l).sound _, by simp [LineForm.isBranch]⟩

/-- The lines that are read from a line: itself and, if it opens a branch, its remainder. -/
def linesOf (s : BodyState) (l : Line) : List Line :=
  if l.form.isBranch && !s.inConditional then [l] else l.chain

theorem process_eq (branchFollows : Bool) (line : Nat) (s : BodyState) (l : Line) :
    s.process branchFollows line l = (s.linesOf l).foldl (BodyState.apply branchFollows line) s := by
  unfold process linesOf
  split <;> rfl

section

variable {P : BodyState → List Line → Prop} (branchFollows : Bool) (line : Nat)
  (hnil : ∀ s, s.Sound branchFollows → P s [])
  (hcons : ∀ s l ls, s.Sound l.form.isBranch → P (s.apply branchFollows line l) ls → P s (l :: ls))

include hnil hcons

/-- Induction on the lines read from the remainder of a branch: every one but the last is a branch, so
only the last can leave a conditional that waits. -/
theorem Quiet.chainOf_induction (text : String) {s : BodyState} (h : s.Quiet) :
    P s (Line.chainOf text) := by
  induction text using Line.chainOf.induct generalizing s with
  | case1 text guard hform hlt =>
    rw [Line.chainOf_eq, Line.chain_of_branch hform, if_pos rfl]
    exact hcons _ _ _ (h.sound _) (hnil _ (Sound.apply branchFollows line _ (h.sound _)).1)
  | case2 text guard rest hform hlt hrest ih =>
    rw [Line.chainOf_eq, Line.chain_of_branch hform, if_neg hrest]
    exact hcons _ _ _ (h.sound _)
      (ih ((Sound.apply branchFollows line _ (h.sound _)).2 (by simp [hform, LineForm.isBranch])))
  | case3 text hform =>
    rw [Line.chainOf_eq, Line.chain_of_not_branch fun guard rest => hform guard rest]
    exact hcons _ _ _ (h.sound _) (hnil _ (Sound.apply branchFollows line _ (h.sound _)).1)

/-- Induction on the lines read from a line: its remainder is read behind it. -/
theorem Sound.linesOf_induction {s : BodyState} (l : Line) (h : s.Sound l.form.isBranch) :
    P s (s.linesOf l) := by
  have happly := Sound.apply branchFollows line l h
  have hsingle : P s [l] := hcons _ _ _ h (hnil _ happly.1)
  unfold linesOf
  split
  · exact hsingle
  · by_cases hb : ∃ guard rest, l.form = .branch guard rest
    · obtain ⟨guard, rest, hform⟩ := hb
      rw [Line.chain_of_branch hform]
      split
      · exact hsingle
      · exact hcons _ _ _ h
          (Quiet.chainOf_induction branchFollows line hnil hcons rest (happly.2 (by simp [hform, LineForm.isBranch])))
    · rw [Line.chain_of_not_branch fun guard rest hform => hb ⟨guard, rest, hform⟩]
      exact hsingle

end

/-- What a line does together with its remainder. -/
theorem Sound.process {s : BodyState} {branchFollows : Bool} (line : Nat) (l : Line)
    (h : s.Sound (l.form.isBranch)) : (s.process branchFollows line l).Sound branchFollows := by
  rw [process_eq]
  exact h.linesOf_induction branchFollows line
    (P := fun s ls => (ls.foldl (BodyState.apply branchFollows line) s).Sound branchFollows)
    (fun _ hs => hs) (fun _ _ _ _ hls => hls) l

/-! ### A whole body -/

/-- The points between two lines of a reading that starts in `start`: the state there, the number of
the next line and the lines that are left. -/
inductive Passes (start : BodyState) (line : Nat) (ls : List Line) :
    BodyState → Nat → List Line → Prop
  | start : Passes start line ls start line ls
  | blank {s : BodyState} {n : Nat} {l : Line} {rest : List Line} :
      Passes start line ls s n (l :: rest) → l.form.isBlank = true →
      Passes start line ls s (n + 1) rest
  | line {s : BodyState} {n : Nat} {l : Line} {rest : List Line} :
      Passes start line ls s n (l :: rest) → l.form.isBlank = false →
      Passes start line ls (s.process (branchFirst rest) n l) (n + 1) rest

/-- A reading passes through all of its lines. -/
theorem Passes.readFrom {start s : BodyState} {line n : Nat} {ls rest : List Line}
    (h : Passes start line ls s n rest) :
    Passes start line ls (s.readFrom n rest) (n + rest.length) [] := by
  induction rest generalizing s n with
  | nil => exact h
  | cons l rest ih =>
    rw [List.length_cons, ← Nat.add_assoc, Nat.add_right_comm]
    cases hblank : l.form.isBlank with
    | true =>
      rw [readFrom_cons_of_blank hblank]
      exact ih (h.blank hblank)
    | false =>
      rw [readFrom_cons_of_not_blank hblank]
      exact ih (h.line hblank)

/-- The invariant holds between any two lines. -/
theorem Passes.sound {start s : BodyState} {line n : Nat} {ls rest : List Line}
    (h : Passes start line ls s n rest) (hstart : start.Sound (branchFirst ls)) :
    s.Sound (branchFirst rest) := by
  induction h with
  | start => exact hstart
  | blank _ hblank ih => rwa [branchFirst_cons_of_blank hblank] at ih
  | line _ hblank ih =>
    rw [branchFirst_cons_of_not_blank hblank] at ih
    exact ih.process _ _

/-- When no line is left, no conditional waits for a branch. -/
theorem readFrom_pending {start : BodyState} {ls : List Line} (h : start.Sound (branchFirst ls))
    (line : Nat) : (start.readFrom line ls).pending = none := by
  have hend : (start.readFrom line ls).Sound (branchFirst []) :=
    Passes.start.readFrom.sound h
  by_contra hp
  have hbranch := (hend.pending (Option.isSome_iff_ne_none.mpr hp)).1
  simp [branchFirst] at hbranch

end BodyState

/-- The state before the first line of a body is read. -/
theorem BodyState.start_quiet (supply : Nat) : BodyState.Quiet { supply } :=
  ⟨Item.laid_nil true, by simp [BodyState.Settled, BodyState.innermost], rfl⟩

/-- The invariant holds at every point of the reading of a body. -/
theorem Body.sound_of_passes (supply : Nat) (texts : List String) {s : BodyState} {n : Nat}
    {rest : List Line} (h : BodyState.Passes { supply } (Body.skipped (Line.ofTexts texts))
      ((Line.ofTexts texts).drop (Body.skipped (Line.ofTexts texts))) s n rest) :
    s.Sound (branchFirst rest) :=
  h.sound ((BodyState.start_quiet supply).sound _)

/-- When the last line of a body has been read, no conditional waits for a branch. -/
theorem Body.pending_readFrom (supply : Nat) (ls : List Line) :
    (BodyState.readFrom { supply } (skipped ls) (content ls)).pending = none :=
  BodyState.readFrom_pending ((BodyState.start_quiet supply).sound _) _

/-- In the end every container of a body is finished. -/
theorem Body.frames_lastState (supply : Nat) (ls : List Line) : (lastState supply ls).frames = [] :=
  BodyState.closeAll_frames _ (pending_readFrom supply ls)

/-- The content tree of every body has its shape. -/
theorem Body.wellShapedIn_read (supply : Nat) (texts : List String) :
    Item.WellShapedIn true (Body.read supply texts).1.items := by
  have hend := Body.sound_of_passes supply texts BodyState.Passes.start.readFrom
  have hshaped : (lastState supply (Line.ofTexts texts)).Shaped :=
    hend.shaped.closeAll _ (pending_readFrom supply (Line.ofTexts texts))
  rw [Body.read_items]
  rw [BodyState.Shaped, frames_lastState] at hshaped
  exact hshaped

/-- The content tree of every body has its shape. A conditional that is open and holds no branch yet
is followed by a branch at every point of the reading, so nothing else is ever put into it and it is
never finished without a branch. -/
theorem Body.read_wellShaped (supply : Nat) (texts : List String) :
    Item.WellShapedIn true (Body.read supply texts).1.items ∧
      ∀ s n rest, BodyState.Passes { supply } (Body.skipped (Line.ofTexts texts))
        ((Line.ofTexts texts).drop (Body.skipped (Line.ofTexts texts))) s n rest →
        s.pending.isSome = true → branchFirst rest = true :=
  ⟨Body.wellShapedIn_read supply texts, fun _ _ _ h hp => ((Body.sound_of_passes supply texts h).pending hp).1⟩

end StoryScript
