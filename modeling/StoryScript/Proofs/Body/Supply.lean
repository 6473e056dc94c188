import StoryScript.Proofs.Body.Frames
import StoryScript.Proofs.Story.Labels

/-!
# Reading does not depend on the supply

Nothing that a line does looks at an identity. So two readings of the same lines go through states
that differ in identities alone (`BodyState.Alike`), wherever each of them draws its identities from,
and what they give differs in identities alone (`Body.unlabelledIn_read`).
-/

namespace StoryScript

/-- What two optional values that agree under some reading can be. -/
theorem cases_of_map_eq_map {α β γ : Type} {f : α → γ} {g : β → γ} {a : Option α} {b : Option β}
    (h : a.map f = b.map g) : a = none ∧ b = none ∨ ∃ x y, a = some x ∧ b = some y ∧ f x = g y := by
  cases a with
  | none => exact Or.inl ⟨rfl, Option.map_eq_none_iff.mp h.symm⟩
  | some x =>
    obtain ⟨y, hy, hxy⟩ := Option.map_eq_some_iff.mp h.symm
    exact Or.inr ⟨x, y, rfl, hy, hxy.symm⟩

def OpenMark.unlabelled (m : OpenMark) : OpenMark := { m with id := default }

theorem OpenMark.unlabelled_extend (line : Nat) (m : OpenMark) :
    (m.extend line).unlabelled = m.unlabelled.extend line := rfl

namespace Frame

/-- A frame in which all identities are the same. -/
def unlabelled : Frame → Frame
  | choice m d h c => choice m.unlabelled d h (Item.unlabelledIn c)
  | branch k bs m g c =>
    branch k.unlabelled (Branch.unlabelledIn bs) m.unlabelled g (Item.unlabelledIn c)

variable (f : Frame)

@[simp] theorem isBranch_unlabelled : f.unlabelled.isBranch = f.isBranch := by cases f <;> rfl

@[simp] theorem height_unlabelled : f.unlabelled.height = f.height := by cases f <;> rfl

@[simp] theorem endsAtChoice_unlabelled (depth : Nat) :
    f.unlabelled.endsAtChoice depth = f.endsAtChoice depth := by cases f <;> rfl

theorem unlabelled_add (i : Item) : (f.add i).unlabelled = f.unlabelled.add i.unlabelled := by
  cases f <;> rfl

theorem unlabelled_extend (line : Nat) :
    (f.extend line).unlabelled = f.unlabelled.extend line := by
  cases f <;> rfl

theorem hoist_unlabelled (divert : Option String) (content : List Item) :
    hoist divert (Item.unlabelledIn content) =
      ((hoist divert content).1, Item.unlabelledIn (hoist divert content).2) := by
  rw [Item.unlabelledIn_eq_map, Item.unlabelledIn_eq_map]
  match divert, content with
  | none, [] => rfl
  | none, .leaf m (.divert t) :: rest => simp [hoist, Item.unlabelled, List.map_reverse]
  | none, .leaf m (.text _) :: rest | none, .leaf m (.media _ _ _) :: rest
  | none, .leaf m (.fakeType _) :: rest | none, .leaf m (.wait _) :: rest
  | none, .leaf m (.stitch _) :: rest | none, .leaf m (.flagOperation _ _) :: rest
  | none, .leaf m (.sideStory _) :: rest | none, .leaf m (.transition _ _) :: rest
  | none, .leaf m (.raw _ _) :: rest | none, .choice m h c :: rest
  | none, .conditional m bs :: rest | some _, _ => simp [hoist, Item.unlabelled, List.map_reverse]

theorem closeBranch_unlabelled (m : OpenMark) (g : Guard) (c : List Item) :
    (closeBranch m g c).unlabelled = closeBranch m.unlabelled g (Item.unlabelledIn c) := by
  rw [closeBranch, closeBranch, hoist_unlabelled]
  rfl

theorem unlabelled_close : f.close.unlabelled = f.unlabelled.close := by
  cases f with
  | choice m d h c =>
    rw [unlabelled, close, close, hoist_unlabelled]
    rfl
  | branch k bs m g c =>
    rw [unlabelled, close, close, Item.unlabelled, ← closeBranch_unlabelled,
      Branch.unlabelledIn_eq_map, Branch.unlabelledIn_eq_map, List.map_reverse, List.map_cons]
    rfl

end Frame

namespace BodyState

/-- A state in which all identities are the same and none have been drawn, so that no lines are
recorded under them. -/
def unlabelled (s : BodyState) : BodyState :=
  { s with
    supply := 0
    root := Item.unlabelledIn s.root
    frames := s.frames.map Frame.unlabelled
    pending := s.pending.map OpenMark.unlabelled
    spans := [] }

/-- States that differ in identities alone. -/
def Alike (s t : BodyState) : Prop := s.unlabelled = t.unlabelled

/-! ### What draws no identity -/

theorem unlabelled_report (line : Nat) (cause : IssueCause) (s : BodyState) :
    (s.report line cause).unlabelled = s.unlabelled.report line cause := rfl

theorem unlabelled_extend (line : Nat) (s : BodyState) :
    (s.extend line).unlabelled = s.unlabelled.extend line := by
  have hframes : (s.frames.map (·.extend line)).map Frame.unlabelled =
      (s.frames.map Frame.unlabelled).map (·.extend line) := by
    rw [List.map_map, List.map_map]
    exact List.map_congr_left fun f _ => f.unlabelled_extend line
  have hpending : (s.pending.map (·.extend line)).map OpenMark.unlabelled =
      (s.pending.map OpenMark.unlabelled).map (·.extend line) := by
    cases s.pending <;> rfl
  rw [unlabelled, extend, extend, unlabelled, hframes, hpending]
  rfl

theorem unlabelled_draw (line : Nat) (s : BodyState) :
    (s.draw line).unlabelled = s.unlabelled := rfl

theorem unlabelled_add (i : Item) (s : BodyState) :
    (s.add i).unlabelled = s.unlabelled.add i.unlabelled := by
  unfold add
  cases hframes : s.frames with
  | nil => simp [unlabelled, hframes, Item.unlabelledIn]
  | cons f fs => simp [unlabelled, hframes, Frame.unlabelled_add]

theorem unlabelled_pop (s : BodyState) : s.pop.unlabelled = s.unlabelled.pop := by
  cases hframes : s.frames with
  | nil =>
    rw [pop_of_frames_nil hframes, pop_of_frames_nil (by rw [unlabelled, hframes, List.map_nil])]
  | cons f fs =>
    have hunlabelled : s.unlabelled.frames = f.unlabelled :: fs.map Frame.unlabelled := by
      rw [unlabelled, hframes, List.map_cons]
    rw [pop_of_frames hframes, pop_of_frames hunlabelled, unlabelled_add, Frame.unlabelled_close]
    rfl

theorem unlabelled_popWhile {p : Frame → Bool} (hp : ∀ f : Frame, p f.unlabelled = p f)
    (s : BodyState) : (s.popWhile p).unlabelled = s.unlabelled.popWhile p := by
  have hlength : (s.unlabelled.frames.takeWhile p).length = (s.frames.takeWhile p).length := by
    change ((s.frames.map Frame.unlabelled).takeWhile p).length = _
    rw [List.takeWhile_map, List.length_map]
    congr 2
    exact funext hp
  rw [popWhile_eq_iterate, popWhile_eq_iterate, hlength]
  induction (s.frames.takeWhile p).length with
  | zero => rfl
  | succ n ih => rw [Function.iterate_succ_apply', Function.iterate_succ_apply', unlabelled_pop, ih]

theorem unlabelled_dropPending (s : BodyState) :
    s.dropPending.unlabelled = s.unlabelled.dropPending := by
  unfold dropPending
  cases hpending : s.pending with
  | none => simp [unlabelled, hpending]
  | some m =>
    have hunlabelled : s.unlabelled.pending = some m.unlabelled := by
      rw [unlabelled, hpending, Option.map_some]
    rw [hunlabelled]
    simp only [unlabelled_add]
    simp [unlabelled, Item.unlabelled, Branch.unlabelledIn, OpenMark.toMark, OpenMark.unlabelled,
      Mark.unlabelled]

theorem isSome_pending_unlabelled (s : BodyState) :
    s.unlabelled.pending.isSome = s.pending.isSome := by
  rw [unlabelled, Option.isSome_map]

theorem unlabelled_closeAll (line : Nat) (s : BodyState) :
    (s.closeAll line).unlabelled = s.unlabelled.closeAll line := by
  -- one frame after the other is closed, so the induction is on the frames
  have hfold : ∀ (fs : List Frame) (s : BodyState),
      (fs.foldl (fun s f =>
        (if f.isBranch then s.report line .conditionalUnclosed else s).pop) s).unlabelled =
      (fs.map Frame.unlabelled).foldl (fun s f =>
        (if f.isBranch then s.report line .conditionalUnclosed else s).pop) s.unlabelled := by
    intro fs
    induction fs with
    | nil => exact fun _ => rfl
    | cons f fs ih =>
      intro s
      rw [List.map_cons, List.foldl_cons, List.foldl_cons, ih, unlabelled_pop,
        Frame.isBranch_unlabelled]
      split
      · rw [unlabelled_report]
      · rfl
  unfold closeAll
  rw [isSome_pending_unlabelled]
  split
  · rw [hfold, ← unlabelled_report, ← unlabelled_dropPending]
    rfl
  · rw [hfold]
    rfl

theorem height_unlabelled (s : BodyState) : s.unlabelled.height = s.height := by
  rw [height, height, isSome_pending_unlabelled]
  congr 2
  change (s.frames.map Frame.unlabelled).map Frame.height = s.frames.map Frame.height
  rw [List.map_map]
  exact List.map_congr_left fun f _ => f.height_unlabelled

theorem hasRoom_unlabelled (s : BodyState) : s.unlabelled.hasRoom = s.hasRoom := by
  rw [hasRoom, hasRoom, height_unlabelled]

theorem inConditional_unlabelled (s : BodyState) : s.unlabelled.inConditional = s.inConditional := by
  rw [inConditional, inConditional, isSome_pending_unlabelled]
  congr 1
  change (s.frames.map Frame.unlabelled).any Frame.isBranch = s.frames.any Frame.isBranch
  rw [List.any_map]
  congr 1
  exact funext fun f => f.isBranch_unlabelled

/-! ### What a line does -/

namespace Alike

variable {s t : BodyState}

/-- What can be computed from a state without identities is the same for states that are alike. -/
theorem of_unlabelled {g : BodyState → BodyState}
    (hg : ∀ s, (g s).unlabelled = g s.unlabelled) (h : s.Alike t) : (g s).Alike (g t) := by
  rw [Alike, hg, hg, h]

theorem hasRoom (h : s.Alike t) : s.hasRoom = t.hasRoom := by
  rw [← hasRoom_unlabelled, h, hasRoom_unlabelled]

theorem inConditional (h : s.Alike t) : s.inConditional = t.inConditional := by
  rw [← inConditional_unlabelled, h, inConditional_unlabelled]

theorem isSome_pending (h : s.Alike t) : s.pending.isSome = t.pending.isSome := by
  rw [← isSome_pending_unlabelled, h, isSome_pending_unlabelled]

theorem stitches (h : s.Alike t) : s.stitches = t.stitches := by
  have hstitches : s.unlabelled.stitches = t.unlabelled.stitches := congrArg BodyState.stitches h
  exact hstitches

theorem frames (h : s.Alike t) :
    s.frames.map Frame.unlabelled = t.frames.map Frame.unlabelled :=
  congrArg BodyState.frames (show s.unlabelled = t.unlabelled from h)

theorem pending (h : s.Alike t) : s.pending.map OpenMark.unlabelled = t.pending.map OpenMark.unlabelled :=
  congrArg BodyState.pending (show s.unlabelled = t.unlabelled from h)

theorem clearPending (h : s.Alike t) :
    ({ s with pending := none } : BodyState).Alike { t with pending := none } := by
  have hset : ∀ s : BodyState, ({ s with pending := none } : BodyState).unlabelled =
      { s.unlabelled with pending := none } := fun _ => rfl
  rw [Alike, hset, hset, h]

theorem replaceFrames (h : s.Alike t) {fs gs : List Frame} {x y : SpanTable}
    (hfs : fs.map Frame.unlabelled = gs.map Frame.unlabelled) :
    ({ s with frames := fs, spans := x } : BodyState).Alike { t with frames := gs, spans := y } := by
  have hset : ∀ (s : BodyState) fs x, ({ s with frames := fs, spans := x } : BodyState).unlabelled =
      { s.unlabelled with frames := fs.map Frame.unlabelled } := fun _ _ _ => rfl
  rw [Alike, hset s, hset t, show s.unlabelled = t.unlabelled from h, hfs]

theorem extend (line : Nat) (h : s.Alike t) : (s.extend line).Alike (t.extend line) :=
  h.of_unlabelled (unlabelled_extend line)

theorem report (line : Nat) (cause : IssueCause) (h : s.Alike t) :
    (s.report line cause).Alike (t.report line cause) :=
  h.of_unlabelled (unlabelled_report line cause)

theorem pop (h : s.Alike t) : s.pop.Alike t.pop := h.of_unlabelled unlabelled_pop

theorem popWhile {p : Frame → Bool} (hp : ∀ f : Frame, p f.unlabelled = p f) (h : s.Alike t) :
    (s.popWhile p).Alike (t.popWhile p) :=
  h.of_unlabelled (unlabelled_popWhile hp)

theorem dropPending (h : s.Alike t) : s.dropPending.Alike t.dropPending :=
  h.of_unlabelled unlabelled_dropPending

theorem closeAll (line : Nat) (h : s.Alike t) : (s.closeAll line).Alike (t.closeAll line) :=
  h.of_unlabelled (unlabelled_closeAll line)

theorem append (line : Nat) (leaf : Leaf) (h : s.Alike t) :
    (s.append line leaf).Alike (t.append line leaf) := by
  refine Alike.extend line ?_
  rw [Alike, unlabelled_add, unlabelled_add, unlabelled_draw, unlabelled_draw, h]
  rfl

theorem refuse (line : Nat) (text : String) (h : s.Alike t) :
    (s.refuse line text).Alike (t.refuse line text) :=
  (h.report line _).append line _

theorem openStitch (line : Nat) (name : String) (h : s.Alike t) :
    (s.openStitch line name).Alike (t.openStitch line name) := by
  have hclosed := h.closeAll line
  unfold BodyState.openStitch
  simp only
  rw [hclosed.stitches]
  refine Alike.append line _ ?_
  have hreported : ∀ {s t : BodyState}, s.Alike t →
      ({ s with stitches := name :: s.stitches } : BodyState).Alike
        { t with stitches := name :: t.stitches } := by
    intro s t h
    have hset : ∀ s : BodyState, ({ s with stitches := name :: s.stitches } : BodyState).unlabelled =
        { s.unlabelled with stitches := name :: s.unlabelled.stitches } := fun _ => rfl
    rw [Alike, hset, hset, h]
  split
  · exact hreported (hclosed.report line _)
  · exact hreported hclosed

/-- A new frame has an identity of its own. -/
theorem push {f g : Frame} (line : Nat) (hf : f.unlabelled = g.unlabelled) (h : s.Alike t) :
    ({ s.draw line with frames := f :: s.frames } : BodyState).Alike
      { t.draw line with frames := g :: t.frames } := by
  have hset : ∀ (s : BodyState) (f : Frame),
      ({ s.draw line with frames := f :: s.frames } : BodyState).unlabelled =
        { s.unlabelled with frames := f.unlabelled :: s.unlabelled.frames } := fun _ _ => rfl
  rw [Alike, hset, hset, h, hf]

/-- A branch of conditionals that differ in identities alone. -/
theorem pushBranch {k k' : OpenMark} {bs bs' : List Branch} (line : Nat) (guard : Guard)
    (hk : k.unlabelled = k'.unlabelled) (hbs : Branch.unlabelledIn bs = Branch.unlabelledIn bs')
    (h : s.Alike t) : (s.pushBranch line guard k bs).Alike (t.pushBranch line guard k' bs') := by
  have htouched : ∀ (s : BodyState) x, ({ s with spans := x } : BodyState).unlabelled =
      s.unlabelled := fun _ _ => rfl
  refine Alike.push line ?_ (Alike.extend line ?_)
  · rw [Frame.unlabelled, Frame.unlabelled, OpenMark.unlabelled_extend, OpenMark.unlabelled_extend,
      hk, hbs]
    rfl
  · rw [Alike, htouched s, htouched t, h]

theorem openChoice (line : Nat) (text : String) (depth : Nat) (head : ChoiceHead) (h : s.Alike t) :
    (s.openChoice line text depth head).Alike (t.openChoice line text depth head) := by
  have hpopped := h.popWhile (p := (·.endsAtChoice depth))
    fun f => f.endsAtChoice_unlabelled depth
  unfold BodyState.openChoice
  simp only
  rw [hpopped.hasRoom]
  split
  · refine Alike.push line ?_ (hpopped.extend line)
    rfl
  · exact hpopped.refuse line text

theorem openConditional (line : Nat) (text : String) (h : s.Alike t) :
    (s.openConditional line text).Alike (t.openConditional line text) := by
  unfold BodyState.openConditional
  rw [h.hasRoom]
  split
  · have hextended := h.extend line
    have hset : ∀ (s : BodyState) m,
        ({ s.draw line with pending := some m } : BodyState).unlabelled =
          { s.unlabelled with pending := some m.unlabelled } := fun _ _ => rfl
    rw [Alike, hset, hset, hextended]
    rfl
  · exact h.refuse line text

theorem openBranch (line : Nat) (guard : Guard) (h : s.Alike t) :
    (s.openBranch line guard).Alike (t.openBranch line guard) := by
  unfold BodyState.openBranch
  rcases cases_of_map_eq_map h.pending with ⟨hs, ht⟩ | ⟨m, m', hs, ht, hm⟩
  · -- behind another branch: both states have come to the same frame, up to identities
    have hpopped := h.popWhile (p := fun f => !f.isBranch) fun f => by
      rw [Frame.isBranch_unlabelled]
    have hframes := hpopped.frames
    rw [hs, ht]
    simp only
    generalize s.popWhile (fun f => !f.isBranch) = u at hpopped hframes
    generalize t.popWhile (fun f => !f.isBranch) = v at hpopped hframes
    match hu : u.frames, hv : v.frames with
    | [], [] => exact hpopped
    | .choice .. :: _, .choice .. :: _ => exact hpopped
    | .branch k bs m g c :: fs, .branch k' bs' m' g' c' :: fs' =>
      rw [hu, hv, List.map_cons, List.map_cons, List.cons.injEq] at hframes
      simp only [Frame.unlabelled, Frame.branch.injEq] at hframes
      obtain ⟨⟨hk, hbs, hm, rfl, hc⟩, hfs⟩ := hframes
      refine (hpopped.replaceFrames hfs).pushBranch line guard hk ?_
      rw [Branch.unlabelledIn, Branch.unlabelledIn, Frame.closeBranch_unlabelled,
        Frame.closeBranch_unlabelled, hm, hc, hbs]
    | [], _ :: _ | _ :: _, [] => simp [hu, hv] at hframes
    | .choice .. :: _, .branch .. :: _ | .branch .. :: _, .choice .. :: _ =>
      simp [hu, hv, Frame.unlabelled] at hframes
  · -- the first branch of a conditional
    rw [hs, ht]
    exact h.clearPending.pushBranch line guard hm rfl

theorem closeConditional (line : Nat) (h : s.Alike t) :
    (s.closeConditional line).Alike (t.closeConditional line) := by
  have hextended := h.extend line
  unfold BodyState.closeConditional
  simp only
  rw [hextended.isSome_pending]
  split
  · exact hextended.dropPending
  · refine (hextended.popWhile fun f => ?_).pop
    rw [Frame.isBranch_unlabelled]

theorem interrupt (line : Nat) (h : s.Alike t) : (s.interrupt line).Alike (t.interrupt line) := by
  unfold BodyState.interrupt
  rw [h.isSome_pending]
  split
  · exact (h.report line _).dropPending
  · exact h

theorem appendLine (line : Nat) (l : Line) (h : s.Alike t) :
    (s.appendLine line l).Alike (t.appendLine line l) := by
  unfold BodyState.appendLine
  split
  case h_2 => exact (h.append line _).append line _
  all_goals exact h.append line _

theorem apply (branchFollows : Bool) (line : Nat) (l : Line) (h : s.Alike t) :
    (s.apply branchFollows line l).Alike (t.apply branchFollows line l) := by
  have hinterrupted := h.interrupt line
  unfold BodyState.apply
  split
  · exact h.openStitch line _
  · exact hinterrupted.openChoice line _ _ _
  · split
    · exact hinterrupted.openConditional line _
    · exact hinterrupted.appendLine line l
  · rw [h.inConditional]
    split
    · exact h.openBranch line _
    · exact h.appendLine line l
  · rw [h.inConditional]
    split
    · exact h.closeConditional line
    · exact hinterrupted.appendLine line l
  · exact hinterrupted.appendLine line l

theorem process (branchFollows : Bool) (line : Nat) (l : Line) (h : s.Alike t) :
    (s.process branchFollows line l).Alike (t.process branchFollows line l) := by
  unfold BodyState.process
  rw [h.inConditional]
  split
  · exact h.apply branchFollows line l
  · have hfold : ∀ (xs : List Line) {s t : BodyState}, s.Alike t →
        (xs.foldl (BodyState.apply branchFollows line) s).Alike
          (xs.foldl (BodyState.apply branchFollows line) t) := by
      intro xs
      induction xs with
      | nil => exact fun h => h
      | cons x xs ih => exact fun h => ih (h.apply branchFollows line x)
    exact hfold l.chain h

theorem readFrom (line : Nat) (ls : List Line) (h : s.Alike t) :
    (s.readFrom line ls).Alike (t.readFrom line ls) := by
  induction ls generalizing s t line with
  | nil => exact h
  | cons l ls ih =>
    rw [BodyState.readFrom, BodyState.readFrom]
    refine ih _ ?_
    split
    · exact h
    · exact h.process _ line l

end Alike

end BodyState

/-- Readings that draw their identities from different places end in states that differ in these
alone. -/
theorem Body.alike_lastState (supply supply' : Nat) (ls : List Line) :
    (Body.lastState supply ls).Alike (Body.lastState supply' ls) := by
  have hstart : BodyState.Alike { supply } { supply := supply' } := rfl
  exact (hstart.readFrom _ _).closeAll _

/-- Which identities a reading draws shows in them alone. -/
theorem Body.unlabelledIn_read (supply supply' : Nat) (texts : List String) :
    Item.unlabelledIn (Body.read supply texts).1.items =
      Item.unlabelledIn (Body.read supply' texts).1.items := by
  have hroot := congrArg BodyState.root (Body.alike_lastState supply supply' (Line.ofTexts texts))
  rw [Body.read_items, Body.read_items, Item.unlabelledIn_eq_map, Item.unlabelledIn_eq_map,
    List.map_reverse, List.map_reverse, ← Item.unlabelledIn_eq_map, ← Item.unlabelledIn_eq_map]
  exact congrArg List.reverse hroot

end StoryScript
