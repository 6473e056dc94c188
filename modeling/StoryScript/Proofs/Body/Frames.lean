import StoryScript.Document.Body
import Mathlib.Data.List.TakeWhile
import Mathlib.Logic.Function.Iterate

/-!
# Open containers

How the stack of open containers moves. `BodyState.pop` finishes the innermost frame and puts the
finished item behind the content of the frame below, which keeps its kind, its height and its depth.
So finishing frames for as long as they satisfy a condition can be unfolded one frame at a time
(`BodyState.popWhile_of_pos`, `BodyState.popWhile_of_neg`), and what every `pop` keeps is kept by
`popWhile` and by `closeAll` (`BodyState.popWhile_induction`, `BodyState.closeAll_induction`).

A branch pushes a frame for its conditional, which was pending or is taken up again once the branch before it is
finished. `BodyState.OpensBranch` tells these cases apart, and with a conditional around the line one of them
holds.
-/

namespace StoryScript

/-! ### Lines within a line -/

namespace Line

theorem chain_of_branch {l : Line} {guard : Guard} {rest : String}
    (h : l.form = .branch guard rest) :
    l.chain = if rest = "" then [l] else l :: chainOf rest := by
  simp only [chain, h]

theorem chain_of_not_branch {l : Line} (h : ∀ guard rest, l.form ≠ .branch guard rest) :
    l.chain = [l] := by
  unfold chain
  split
  · next guard rest hform => exact absurd hform (h guard rest)
  · rfl

theorem exists_chain (l : Line) : ∃ ls, l.chain = l :: ls := by
  by_cases hb : ∃ guard rest, l.form = .branch guard rest
  · obtain ⟨guard, rest, hform⟩ := hb
    rw [chain_of_branch hform]
    split
    · exact ⟨[], rfl⟩
    · exact ⟨_, rfl⟩
  · exact ⟨[], chain_of_not_branch fun guard rest hform => hb ⟨guard, rest, hform⟩⟩

/-- A text is read as any line is, its remainder with it. -/
theorem chainOf_eq (text : String) : chainOf text = (ofText text).chain := by
  rw [chainOf]
  split
  · next guard rest hform => rw [chain_of_branch hform]
  · next hform => rw [chain_of_not_branch fun guard rest => hform guard rest]

end Line

/-! ### Frames -/

namespace Frame

/-- What has been read into a frame's container, newest first. -/
def content : Frame → List Item
  | choice _ _ _ c => c
  | branch _ _ _ _ c => c

variable (f : Frame) (i : Item) (line : Nat)

@[simp] theorem content_add : (f.add i).content = i :: f.content := by cases f <;> rfl

@[simp] theorem content_extend : (f.extend line).content = f.content := by cases f <;> rfl

@[simp] theorem openIds_add : (f.add i).openIds = f.openIds := by cases f <;> rfl

@[simp] theorem openIds_extend : (f.extend line).openIds = f.openIds := by cases f <;> rfl

@[simp] theorem isBranch_add : (f.add i).isBranch = f.isBranch := by cases f <;> rfl

@[simp] theorem isBranch_extend : (f.extend line).isBranch = f.isBranch := by cases f <;> rfl

@[simp] theorem height_add : (f.add i).height = f.height := by cases f <;> rfl

@[simp] theorem height_extend : (f.extend line).height = f.height := by cases f <;> rfl

@[simp] theorem endsAtChoice_add (depth : Nat) :
    (f.add i).endsAtChoice depth = f.endsAtChoice depth := by cases f <;> rfl

end Frame

namespace BodyState

/-- The height of a stack of frames. -/
def heightOf (frames : List Frame) : Nat := (frames.map Frame.height).foldr (· + ·) 0

@[simp] theorem heightOf_nil : heightOf [] = 0 := rfl

@[simp] theorem heightOf_cons (f : Frame) (fs : List Frame) :
    heightOf (f :: fs) = f.height + heightOf fs := by
  simp [heightOf]

theorem height_eq (s : BodyState) :
    s.height = heightOf s.frames + if s.pending.isSome then 1 else 0 := rfl

/-! Drawing an identity only moves the supply and records the node. -/

section Draw

variable (line : Nat) (s : BodyState)

@[simp] theorem draw_supply : (s.draw line).supply = s.supply + 1 := rfl

@[simp] theorem draw_root : (s.draw line).root = s.root := rfl

@[simp] theorem draw_frames : (s.draw line).frames = s.frames := rfl

@[simp] theorem draw_pending : (s.draw line).pending = s.pending := rfl

end Draw

@[simp] theorem openIds_add (i : Item) (s : BodyState) : (s.add i).openIds = s.openIds := by
  unfold add openIds
  cases s.frames <;> simp

@[simp] theorem openIds_extend (line : Nat) (s : BodyState) : (s.extend line).openIds = s.openIds := by
  have hpending : (s.pending.map (·.extend line)).map OpenMark.id = s.pending.map OpenMark.id := by
    cases s.pending <;> rfl
  rw [openIds, extend, hpending]
  simp [openIds, List.flatMap_map]

/-- Finishing the innermost frame leaves the frames below it, the nearest one with the finished
item in it. -/
theorem pop_of_frames {s : BodyState} {f : Frame} {fs : List Frame} (h : s.frames = f :: fs) :
    s.pop = { s with frames := fs, spans := s.spans.drop f.dropped? }.add f.close := by
  simp only [pop, h]

theorem pop_of_frames_nil {s : BodyState} (h : s.frames = []) : s.pop = s := by
  simp only [pop, h]

@[simp] theorem pop_pending (s : BodyState) : s.pop.pending = s.pending := by
  unfold pop add
  split
  · rfl
  · split <;> rfl

/-! ### Finishing several frames -/

theorem popWhile_eq_iterate (p : Frame → Bool) (s : BodyState) :
    s.popWhile p = pop^[(s.frames.takeWhile p).length] s :=
  List.foldl_const pop s _

/-- What `pop` keeps is kept however many frames are finished. -/
theorem popWhile_induction {P : BodyState → Prop} (hpop : ∀ s, P s → P s.pop) {s : BodyState}
    (p : Frame → Bool) (h : P s) : P (s.popWhile p) := by
  rw [popWhile_eq_iterate]
  induction (s.frames.takeWhile p).length generalizing s with
  | zero => exact h
  | succ n ih => exact ih (hpop s h)

theorem popWhile_of_nil {p : Frame → Bool} {s : BodyState} (h : s.frames = []) :
    s.popWhile p = s := by
  rw [popWhile_eq_iterate, h]
  rfl

theorem popWhile_of_neg {p : Frame → Bool} {s : BodyState} {f : Frame} {fs : List Frame}
    (h : s.frames = f :: fs) (hf : p f = false) : s.popWhile p = s := by
  rw [popWhile_eq_iterate, h, List.takeWhile_cons_of_neg (by simp [hf])]
  rfl

/-- A condition that does not look at the content of a frame goes on from the frame below. -/
theorem popWhile_of_pos {p : Frame → Bool} (hp : ∀ f i, p (f.add i) = p f) {s : BodyState}
    {f : Frame} {fs : List Frame} (h : s.frames = f :: fs) (hf : p f = true) :
    s.popWhile p = s.pop.popWhile p := by
  have hlen : (s.pop.frames.takeWhile p).length = (fs.takeWhile p).length := by
    rw [pop_of_frames h]
    cases fs with
    | nil => rfl
    | cons g gs => simp only [add, List.takeWhile_cons, hp]; split <;> rfl
  rw [popWhile_eq_iterate, popWhile_eq_iterate, hlen, h, List.takeWhile_cons_of_pos hf,
    List.length_cons, Function.iterate_succ_apply]

/-- What finishing a frame does not change in the frame below can be read off the stack that is
left. -/
theorem map_frames_popWhile {α : Type} {φ : Frame → α} (hφ : ∀ f i, φ (f.add i) = φ f)
    {p : Frame → Bool} (hp : ∀ f i, p (f.add i) = p f) (s : BodyState) :
    (s.popWhile p).frames.map φ = (s.frames.dropWhile p).map φ := by
  suffices h : ∀ (frames : List Frame) (s : BodyState), s.frames.map (fun f => (φ f, p f)) =
      frames.map (fun f => (φ f, p f)) →
      (s.popWhile p).frames.map φ = (frames.dropWhile p).map φ from h _ s rfl
  intro frames
  induction frames with
  | nil =>
    intro s h
    have hs : s.frames = [] := by simpa using h
    simp [popWhile_of_nil hs, hs]
  | cons f fs ih =>
    intro s h
    obtain ⟨g, gs, hs⟩ : ∃ g gs, s.frames = g :: gs := by
      cases hs : s.frames with
      | nil => simp [hs] at h
      | cons g gs => exact ⟨g, gs, rfl⟩
    simp only [hs, List.map_cons, List.cons.injEq, Prod.mk.injEq] at h
    obtain ⟨⟨hφf, hpf⟩, hrest⟩ := h
    cases hpg : p g with
    | false =>
      rw [popWhile_of_neg hs hpg, hs, List.dropWhile_cons_of_neg (by simp [← hpf, hpg])]
      simp only [List.map_cons, hφf, List.cons.injEq, true_and]
      simpa [Function.comp_def] using congrArg (List.map Prod.fst) hrest
    | true =>
      rw [popWhile_of_pos hp hs hpg, List.dropWhile_cons_of_pos (by rw [← hpf, hpg])]
      refine ih _ ?_
      rw [pop_of_frames hs, ← hrest]
      cases gs with
      | nil => rfl
      | cons g' gs => simp [add, hφ, hp]

/-- The height of the stack that is left when frames are finished. -/
theorem heightOf_popWhile {p : Frame → Bool} (hp : ∀ f i, p (f.add i) = p f) (s : BodyState) :
    heightOf (s.popWhile p).frames = heightOf (s.frames.dropWhile p) :=
  congrArg (List.foldr (· + ·) 0) (map_frames_popWhile Frame.height_add hp s)

theorem heightOf_dropWhile_le (p : Frame → Bool) (fs : List Frame) :
    heightOf (fs.dropWhile p) ≤ heightOf fs := by
  induction fs with
  | nil => simp
  | cons f fs ih =>
    rw [List.dropWhile_cons]
    split
    · rw [heightOf_cons]; omega
    · exact Nat.le_refl _

@[simp] theorem heightOf_extend (line : Nat) (fs : List Frame) :
    heightOf (fs.map (·.extend line)) = heightOf fs := by
  simp [heightOf, Function.comp_def]

theorem pending_extend {s : BodyState} (line : Nat) (hp : s.pending = none) :
    (s.extend line).pending = none := by
  simp [extend, hp]

@[simp] theorem inConditional_extend (line : Nat) (s : BodyState) :
    (s.extend line).inConditional = s.inConditional := by
  simp [inConditional, extend, Function.comp_def]

/-- A closing brace finishes the innermost branch and with it the conditional. -/
theorem closeConditional_eq {s : BodyState} (line : Nat) (hp : s.pending = none) :
    s.closeConditional line = ((s.extend line).popWhile (!·.isBranch)).pop := by
  unfold closeConditional
  dsimp only
  rw [if_neg (by simp [pending_extend line hp])]

/-- Inside a conditional, finishing choices ends at a branch. -/
theorem exists_branch_of_inConditional {s : BodyState} (hp : s.pending = none)
    (h : s.inConditional = true) : ∃ k bs m g c fs,
      (s.popWhile (!·.isBranch)).frames = .branch k bs m g c :: fs := by
  have hmap : (s.popWhile (!·.isBranch)).frames.map Frame.isBranch =
      (s.frames.dropWhile (!·.isBranch)).map Frame.isBranch :=
    map_frames_popWhile Frame.isBranch_add (fun f i => by simp) s
  have hany : s.frames.any Frame.isBranch = true := by simpa [inConditional, hp] using h
  cases hd : s.frames.dropWhile (!·.isBranch) with
  | nil =>
    obtain ⟨f, hf, hb⟩ := List.any_eq_true.mp hany
    have hall := List.dropWhile_eq_nil_iff.mp hd f hf
    simp [hb] at hall
  | cons f fs =>
    have hf : f.isBranch = true := by
      have hhead := List.head?_dropWhile_not (!Frame.isBranch ·) s.frames
      simpa [hd] using hhead
    cases hframes : (s.popWhile (!·.isBranch)).frames with
    | nil => simp [hframes, hd] at hmap
    | cons g gs =>
      simp only [hframes, hd, List.map_cons, hf, List.cons.injEq] at hmap
      cases g with
      | choice => simp [Frame.isBranch] at hmap
      | branch k bs m g c => exact ⟨k, bs, m, g, c, gs, rfl⟩

section PushBranch

variable (line : Nat) (guard : Guard) (k : OpenMark) (bs : List Branch) (s : BodyState)

@[simp] theorem pushBranch_supply : (s.pushBranch line guard k bs).supply = s.supply + 1 := rfl

@[simp] theorem pushBranch_root : (s.pushBranch line guard k bs).root = s.root := rfl

@[simp] theorem pushBranch_frames : (s.pushBranch line guard k bs).frames =
    .branch (k.extend line) bs (s.openMark line) guard [] :: s.frames.map (·.extend line) := rfl

@[simp] theorem pushBranch_pending :
    (s.pushBranch line guard k bs).pending = s.pending.map (·.extend line) := rfl

end PushBranch

/-- What a branch makes of a state. It is the first one of the conditional that is pending, or it finishes the
branch before it, or there is no conditional that it could belong to. -/
inductive OpensBranch (line : Nat) (guard : Guard) (s : BodyState) : BodyState → Prop
  | first {k : OpenMark} (hp : s.pending = some k) : OpensBranch line guard s
      (({ s with pending := none } : BodyState).pushBranch line guard k [])
  | next {k m : OpenMark} {bs : List Branch} {g : Guard} {c : List Item} {fs : List Frame}
      (hp : s.pending = none)
      (hframes : (s.popWhile (!·.isBranch)).frames = .branch k bs m g c :: fs) : OpensBranch line guard s
      (({ s.popWhile (!·.isBranch) with
          frames := fs
          spans := (s.popWhile (!·.isBranch)).spans.drop (Frame.taken? none c) } :
        BodyState).pushBranch line guard k (Frame.closeBranch m g c :: bs))
  | stray (hp : s.pending = none) (hout : s.inConditional = false) : OpensBranch line guard s
      (s.popWhile (!·.isBranch))

theorem opensBranch (line : Nat) (guard : Guard) (s : BodyState) :
    OpensBranch line guard s (s.openBranch line guard) := by
  unfold openBranch
  split
  · next hp => exact .first hp
  · next hp =>
    dsimp only
    split
    · next hframes => exact .next hp hframes
    · next hother =>
      refine .stray hp ?_
      by_contra hin
      obtain ⟨k, bs, m, g, c, fs, hframes⟩ := exists_branch_of_inConditional hp (by simpa using hin)
      exact hother _ _ _ _ _ _ hframes

theorem closeAll_frames {s : BodyState} (line : Nat) (hpending : s.pending = none) :
    (s.closeAll line).frames = [] := by
  have hfold : ∀ (fs : List Frame) (s : BodyState), s.frames.length = fs.length → (fs.foldl
      (fun s f => (if f.isBranch then s.report line .conditionalUnclosed else s).pop) s).frames
        = [] := by
    intro fs
    induction fs with
    | nil => exact fun s h => List.eq_nil_of_length_eq_zero h
    | cons f fs ih =>
      intro s h
      refine ih _ ?_
      dsimp only
      have hlen : ∀ t : BodyState, t.frames = s.frames → t.pop.frames.length = fs.length := by
        intro t ht
        rw [← ht] at h
        cases hf : t.frames with
        | nil => simp [hf] at h
        | cons g gs =>
          rw [pop_of_frames hf]
          have hgs : gs.length = fs.length := by simpa [hf] using h
          cases gs <;> simpa [add] using hgs
      split
      · exact hlen _ rfl
      · exact hlen _ rfl
  unfold closeAll
  rw [hpending]
  exact hfold _ _ rfl

/-- What finishing a container keeps, and a report of one that is not closed too, holds when everything is
finished. -/
theorem closeAll_induction {P : BodyState → Prop} (line : Nat) (hpop : ∀ s, P s → P s.pop)
    (hreport : ∀ s, P s → P (s.report line .conditionalUnclosed)) {s : BodyState}
    (hpending : s.pending = none) (h : P s) : P (s.closeAll line) := by
  have hfold : ∀ (fs : List Frame) (s : BodyState), P s → P (fs.foldl
      (fun s f => (if f.isBranch then s.report line .conditionalUnclosed else s).pop) s) := by
    intro fs
    induction fs with
    | nil => exact fun _ hs => hs
    | cons f fs ih =>
      intro s hs
      refine ih _ (hpop _ ?_)
      split
      · exact hreport s hs
      · exact hs
  unfold closeAll
  rw [hpending]
  exact hfold _ _ h

/-! ### From line to line -/

theorem branchFirst_cons_of_blank {l : Line} {ls : List Line} (h : l.form.isBlank = true) :
    branchFirst (l :: ls) = branchFirst ls := by
  simp [branchFirst, h]

theorem branchFirst_cons_of_not_blank {l : Line} {ls : List Line} (h : l.form.isBlank = false) :
    branchFirst (l :: ls) = l.form.isBranch := by
  simp [branchFirst, h]

theorem readFrom_cons_of_blank {s : BodyState} {line : Nat} {l : Line} {ls : List Line}
    (h : l.form.isBlank = true) : s.readFrom line (l :: ls) = s.readFrom (line + 1) ls := by
  rw [readFrom, if_pos h]

theorem readFrom_cons_of_not_blank {s : BodyState} {line : Nat} {l : Line} {ls : List Line}
    (h : l.form.isBlank = false) :
    s.readFrom line (l :: ls) = (s.process (branchFirst ls) line l).readFrom (line + 1) ls := by
  rw [readFrom, if_neg (by simp [h])]

end BodyState

namespace Body

/-- How many lines stand before the content: the position annotation and the blank lines in front of
it. -/
def skipped (ls : List Line) : Nat := ((leadingPosition? ls).map Prod.snd).getD 0

/-- The lines of a body behind its position annotation. -/
def content (ls : List Line) : List Line := ls.drop (skipped ls)

/-- No more lines are skipped than there are. -/
theorem skipped_le (ls : List Line) : skipped ls ≤ ls.length := by
  have hle : ∀ {ls : List Line} {p : Position} {n : Nat}, leadingPosition? ls = some (p, n) →
      n ≤ ls.length := by
    intro ls
    induction ls with
    | nil => simp [leadingPosition?]
    | cons l ls ih =>
      intro p n h
      rw [leadingPosition?] at h
      split at h
      · obtain ⟨⟨q, m⟩, hm, heq⟩ := Option.map_eq_some_iff.mp h
        obtain ⟨-, rfl⟩ := Prod.mk.inj heq
        exact Nat.succ_le_succ (ih hm)
      · obtain ⟨-, rfl⟩ := Prod.mk.inj (Option.some.inj h)
        exact Nat.succ_le_succ (Nat.zero_le _)
      · simp at h
  unfold skipped
  cases hskipped : leadingPosition? ls with
  | none => exact Nat.zero_le _
  | some x => exact hle hskipped

/-- The state when the last line of a body has been read. -/
def lastState (supply : Nat) (ls : List Line) : BodyState :=
  (BodyState.readFrom { supply } (skipped ls) (ls.drop (skipped ls))).closeAll (ls.length - 1)

theorem read_eq (supply : Nat) (texts : List String) :
    read supply texts =
      (⟨(lastState supply (Line.ofTexts texts)).root.reverse,
        (lastState supply (Line.ofTexts texts)).issues.reverse,
        (leadingPosition? (Line.ofTexts texts)).map Prod.fst,
        (lastState supply (Line.ofTexts texts)).spans⟩,
        (lastState supply (Line.ofTexts texts)).supply) := by
  unfold read lastState skipped
  dsimp only
  rcases leadingPosition? (Line.ofTexts texts) with - | ⟨p, n⟩
  · rfl
  · rfl

theorem read_items (supply : Nat) (texts : List String) :
    (read supply texts).1.items = (lastState supply (Line.ofTexts texts)).root.reverse := by
  rw [read_eq]

end Body

end StoryScript
