import StoryScript.Proofs.Body.Frames
import StoryScript.Proofs.Story.Reworded

/-!
# Reading lines in other words

What a line does to the containers that are open does not depend on where its divert leads, nor on the
text of a line that is kept as it stands. So lines in other words are read as the tree of the lines in
other words (`Body.read_reword`), from the same identities, on the same lines and with the same issues.

A remainder behind a branch is read as a line of its own, so lines correspond when their chains do
(`Line.Reworded`).
-/

namespace StoryScript

variable (w : Rewording)

/-! ### Lines -/

/-- A form in other words. -/
def LineForm.reword : LineForm → LineForm
  | divert t => divert (w.target t)
  | choice depth head => choice depth (head.reword w)
  | text content d => text content (d.map w.target)
  | branch guard rest => branch guard (w.raw rest)
  | inclusion path => inclusion (w.raw path)
  | form => form

namespace LineForm

variable (f : LineForm)

@[simp] theorem isBlank_reword : (f.reword w).isBlank = f.isBlank := by cases f <;> rfl

@[simp] theorem isBranch_reword : (f.reword w).isBranch = f.isBranch := by cases f <;> rfl

end LineForm

namespace Line

/-- A line in other words. -/
def reword (l : Line) : Line := ⟨w.raw l.text, l.form.reword w⟩

@[simp] theorem text_reword (l : Line) : (l.reword w).text = w.raw l.text := rfl

@[simp] theorem form_reword (l : Line) : (l.reword w).form = l.form.reword w := rfl

/-- A line that is another in other words, with what is read from its remainder. -/
def Reworded (l m : Line) : Prop := m.chain = l.chain.map (reword w)

variable {w}

theorem Reworded.eq {l m : Line} (h : l.Reworded w m) : m = l.reword w := by
  obtain ⟨ls, hl⟩ := l.exists_chain
  obtain ⟨ms, hm⟩ := m.exists_chain
  rw [Reworded, hl, hm, List.map_cons, List.cons.injEq] at h
  exact h.1

end Line

/-! ### Frames -/

namespace Frame

/-- A frame in other words. -/
def reword : Frame → Frame
  | choice m d h c => choice m d (h.reword w) (Item.rewordIn w c)
  | branch k bs m g c => branch k (Branch.rewordIn w bs) m g (Item.rewordIn w c)

variable (f : Frame)

@[simp] theorem isBranch_reword : (f.reword w).isBranch = f.isBranch := by cases f <;> rfl

@[simp] theorem height_reword : (f.reword w).height = f.height := by cases f <;> rfl

@[simp] theorem endsAtChoice_reword (depth : Nat) :
    (f.reword w).endsAtChoice depth = f.endsAtChoice depth := by cases f <;> rfl

theorem reword_add (i : Item) : (f.add i).reword w = (f.reword w).add (i.reword w) := by
  cases f <;> rfl

theorem reword_extend (line : Nat) : (f.extend line).reword w = (f.reword w).extend line := by
  cases f <;> rfl

/-- A container takes over the same divert, which leads elsewhere. -/
theorem hoist_reword (divert : Option String) (content : List Item) :
    hoist (divert.map w.target) (Item.rewordIn w content) =
      ((hoist divert content).1.map w.target, Item.rewordIn w (hoist divert content).2) := by
  cases divert with
  | some t => simp [hoist]
  | none =>
    cases content with
    | nil => rfl
    | cons i rest =>
      rw [Option.map_none, Item.rewordIn]
      cases i with
      | choice m h c => simp [hoist, Item.reword, Item.rewordIn_eq_map]
      | conditional m bs => simp [hoist, Item.reword, Item.rewordIn_eq_map]
      | leaf m l => cases l <;> simp [hoist, Item.reword, Leaf.reword, Item.rewordIn_eq_map]

theorem taken?_reword (divert : Option String) (content : List Item) :
    taken? (divert.map w.target) (Item.rewordIn w content) = taken? divert content := by
  cases divert with
  | some t => rfl
  | none =>
    cases content with
    | nil => rfl
    | cons i rest =>
      cases i with
      | choice m h c => rfl
      | conditional m bs => rfl
      | leaf m l => cases l <;> rfl

theorem dropped?_reword : (f.reword w).dropped? = f.dropped? := by
  cases f with
  | choice m d h c => exact taken?_reword w h.divert c
  | branch k bs m g c => exact taken?_reword w none c

theorem openIds_reword : (f.reword w).openIds = f.openIds := by cases f <;> rfl

theorem closeBranch_reword (m : OpenMark) (g : Guard) (c : List Item) :
    closeBranch m g (Item.rewordIn w c) = (closeBranch m g c).reword w := by
  have hhoist := hoist_reword w none c
  rw [Option.map_none] at hhoist
  rw [closeBranch, closeBranch, hhoist]
  rfl

theorem reword_close : f.close.reword w = (f.reword w).close := by
  cases f with
  | choice m d h c =>
    rw [reword, close, close, ChoiceHead.reword, hoist_reword]
    rfl
  | branch k bs m g c =>
    rw [reword, close, close, Item.reword, closeBranch_reword, ← Branch.rewordIn, Branch.rewordIn_reverse]

end Frame

/-! ### States -/

namespace BodyState

/-- A state in other words. -/
def reword (s : BodyState) : BodyState :=
  { s with root := Item.rewordIn w s.root, frames := s.frames.map (Frame.reword w) }

variable (s : BodyState)

@[simp] theorem pending_reword : (s.reword w).pending = s.pending := rfl

@[simp] theorem stitches_reword : (s.reword w).stitches = s.stitches := rfl

@[simp] theorem supply_reword : (s.reword w).supply = s.supply := rfl

@[simp] theorem issues_reword : (s.reword w).issues = s.issues := rfl

@[simp] theorem hasRoom_reword : (s.reword w).hasRoom = s.hasRoom := by
  have hheights : (s.frames.map (Frame.reword w)).map Frame.height = s.frames.map Frame.height := by
    rw [List.map_map]
    exact List.map_congr_left fun f _ => f.height_reword w
  rw [hasRoom, hasRoom, height, height, pending_reword, reword, hheights]

@[simp] theorem inConditional_reword : (s.reword w).inConditional = s.inConditional := by
  have hany : (s.frames.map (Frame.reword w)).any Frame.isBranch = s.frames.any Frame.isBranch := by
    rw [List.any_map]
    exact congrArg _ (funext fun f => f.isBranch_reword w)
  rw [inConditional, inConditional, pending_reword, reword, hany]

@[simp] theorem openIds_reword : (s.reword w).openIds = s.openIds := by
  have hids : (s.frames.map (Frame.reword w)).flatMap Frame.openIds =
      s.frames.flatMap Frame.openIds := by
    rw [List.flatMap_map]
    exact List.flatMap_congr fun f _ => f.openIds_reword w
  rw [openIds, openIds, pending_reword, reword, hids]

theorem reword_report (line : Nat) (cause : IssueCause) :
    (s.report line cause).reword w = (s.reword w).report line cause := rfl

theorem reword_extend (line : Nat) : (s.extend line).reword w = (s.reword w).extend line := by
  have hframes : (s.frames.map (·.extend line)).map (Frame.reword w) =
      (s.frames.map (Frame.reword w)).map (·.extend line) := by
    rw [List.map_map, List.map_map]
    exact List.map_congr_left fun f _ => f.reword_extend w line
  rw [extend, extend, openIds_reword, reword, hframes]
  rfl

theorem reword_add (i : Item) : (s.add i).reword w = (s.reword w).add (i.reword w) := by
  unfold add
  cases hframes : s.frames with
  | nil => simp [reword, hframes, Item.rewordIn]
  | cons f fs => simp [reword, hframes, Frame.reword_add]

theorem reword_append (line : Nat) (l : Leaf) :
    (s.append line l).reword w = (s.reword w).append line (l.reword w) := by
  rw [append, append, reword_extend, reword_add]
  rfl

theorem reword_pop : s.pop.reword w = (s.reword w).pop := by
  cases hframes : s.frames with
  | nil => rw [pop_of_frames_nil hframes, pop_of_frames_nil (by rw [reword, hframes, List.map_nil])]
  | cons f fs =>
    have hreworded : (s.reword w).frames = f.reword w :: fs.map (Frame.reword w) := by
      rw [reword, hframes, List.map_cons]
    rw [pop_of_frames hframes, pop_of_frames hreworded, reword_add, Frame.reword_close,
      Frame.dropped?_reword]
    rfl

theorem reword_popWhile {p : Frame → Bool} (hp : ∀ f : Frame, p (f.reword w) = p f) :
    (s.popWhile p).reword w = (s.reword w).popWhile p := by
  have hlength : ((s.reword w).frames.takeWhile p).length = (s.frames.takeWhile p).length := by
    have hcomp : p ∘ Frame.reword w = p := funext hp
    rw [reword, List.takeWhile_map, List.length_map, hcomp]
  rw [popWhile_eq_iterate, popWhile_eq_iterate, hlength]
  generalize (s.frames.takeWhile p).length = n
  induction n with
  | zero => rfl
  | succ n ih => rw [Function.iterate_succ_apply', Function.iterate_succ_apply', reword_pop, ih]

theorem reword_dropPending : s.dropPending.reword w = (s.reword w).dropPending := by
  unfold dropPending
  rw [pending_reword]
  cases s.pending with
  | none => rfl
  | some m =>
    simp only [reword_add]
    rfl

theorem reword_closeAll (line : Nat) : (s.closeAll line).reword w = (s.reword w).closeAll line := by
  have hfold : ∀ (fs : List Frame) (s : BodyState),
      (fs.foldl (fun s f =>
        (if f.isBranch then s.report line .conditionalUnclosed else s).pop) s).reword w =
      (fs.map (Frame.reword w)).foldl (fun s f =>
        (if f.isBranch then s.report line .conditionalUnclosed else s).pop) (s.reword w) := by
    intro fs
    induction fs with
    | nil => exact fun _ => rfl
    | cons f fs ih =>
      intro s
      rw [List.map_cons, List.foldl_cons, List.foldl_cons, ih, reword_pop, Frame.isBranch_reword]
      split
      · rw [reword_report]
      · rfl
  unfold closeAll
  rw [pending_reword]
  split
  · rw [hfold, ← reword_report, ← reword_dropPending]
    rfl
  · rw [hfold]
    rfl

/-! ### What a line does -/

theorem reword_refuse (line : Nat) (text : String) :
    (s.refuse line text).reword w = (s.reword w).refuse line (w.raw text) := by
  rw [refuse, refuse, reword_append, reword_report]
  rfl

theorem reword_openStitch (line : Nat) (name : String) :
    (s.openStitch line name).reword w = (s.reword w).openStitch line name := by
  unfold openStitch
  simp only
  rw [← reword_closeAll, stitches_reword, reword_append]
  split <;> rfl

theorem reword_openChoice (line : Nat) (text : String) (depth : Nat) (head : ChoiceHead) :
    (s.openChoice line text depth head).reword w =
      (s.reword w).openChoice line (w.raw text) depth (head.reword w) := by
  unfold openChoice
  simp only
  rw [← reword_popWhile w s fun f => f.endsAtChoice_reword w depth, hasRoom_reword]
  split
  · rw [← reword_extend]
    rfl
  · exact reword_refuse w _ line text

theorem reword_openConditional (line : Nat) (text : String) :
    (s.openConditional line text).reword w = (s.reword w).openConditional line (w.raw text) := by
  unfold openConditional
  rw [hasRoom_reword]
  split
  · simp only
    rw [← reword_extend]
    rfl
  · exact reword_refuse w _ line text

theorem reword_pushBranch (line : Nat) (guard : Guard) (k : OpenMark) (bs : List Branch) :
    (s.pushBranch line guard k bs).reword w =
      (s.reword w).pushBranch line guard k (Branch.rewordIn w bs) := by
  have hextend := reword_extend w { s with spans := s.spans.touch line [k.id] } line
  unfold pushBranch
  simp only
  rw [show ({ s.reword w with spans := (s.reword w).spans.touch line [k.id] } : BodyState).extend line =
    (({ s with spans := s.spans.touch line [k.id] } : BodyState).extend line).reword w from
      hextend.symm]
  rfl

theorem reword_openBranch (line : Nat) (guard : Guard) :
    (s.openBranch line guard).reword w = (s.reword w).openBranch line guard := by
  unfold openBranch
  rw [pending_reword]
  cases s.pending with
  | some m => exact reword_pushBranch w { s with pending := none } line guard m []
  | none =>
    have hpopped := reword_popWhile w s (p := fun f => !f.isBranch) fun f => by
      rw [Frame.isBranch_reword]
    simp only
    rw [← hpopped]
    generalize s.popWhile (fun f => !f.isBranch) = u
    match hu : u.frames with
    | [] => simp [reword, hu]
    | .choice m d h c :: fs => simp [reword, hu, Frame.reword]
    | .branch k bs m g c :: fs =>
      have hframes : (u.reword w).frames = Frame.branch k (Branch.rewordIn w bs) m g
          (Item.rewordIn w c) :: fs.map (Frame.reword w) := by
        rw [reword, hu, List.map_cons, Frame.reword]
      have hhoisted := Frame.taken?_reword w none c
      rw [Option.map_none] at hhoisted
      rw [hframes]
      simp only
      rw [Frame.closeBranch_reword, hhoisted]
      exact reword_pushBranch w
        { u with frames := fs, spans := u.spans.drop (Frame.taken? none c) } line guard k _

theorem reword_closeConditional (line : Nat) :
    (s.closeConditional line).reword w = (s.reword w).closeConditional line := by
  unfold closeConditional
  simp only
  rw [← reword_extend, pending_reword]
  split
  · exact reword_dropPending w _
  · rw [reword_pop, reword_popWhile]
    exact fun f => by rw [Frame.isBranch_reword]

theorem reword_interrupt (line : Nat) :
    (s.interrupt line).reword w = (s.reword w).interrupt line := by
  unfold interrupt
  rw [pending_reword]
  split
  · rw [reword_dropPending, reword_report]
  · rfl

theorem reword_appendLine (line : Nat) (l : Line) :
    (s.appendLine line l).reword w = (s.reword w).appendLine line (l.reword w) := by
  unfold appendLine
  rw [Line.reword]
  cases l.form with
  | text content divert =>
    cases divert with
    | none => exact reword_append w s line _
    | some t =>
      simp only [LineForm.reword, Option.map_some, reword_append]
      rfl
  | _ => exact reword_append w s line _

theorem reword_apply (branchFollows : Bool) (line : Nat) (l : Line) :
    (s.apply branchFollows line l).reword w =
      (s.reword w).apply branchFollows line (l.reword w) := by
  unfold apply
  cases hform : l.form with
  | stitchHeader name => simp only [Line.reword, hform, LineForm.reword, reword_openStitch]
  | choice depth head =>
    simp only [Line.reword, hform, LineForm.reword, reword_openChoice, reword_interrupt]
  | conditionalOpen =>
    have happend := reword_appendLine w (s.interrupt line) line l
    simp only [Line.reword, hform, LineForm.reword, reword_interrupt] at happend ⊢
    split
    · rw [reword_openConditional, reword_interrupt]
    · exact happend
  | branch guard rest =>
    have happend := reword_appendLine w s line l
    simp only [Line.reword, hform, LineForm.reword, inConditional_reword] at happend ⊢
    split
    · exact reword_openBranch w s line guard
    · exact happend
  | conditionalClose =>
    have happend := reword_appendLine w (s.interrupt line) line l
    simp only [Line.reword, hform, LineForm.reword, inConditional_reword, reword_interrupt] at happend ⊢
    split
    · exact reword_closeConditional w s line
    · exact happend
  | _ =>
    have happend := reword_appendLine w (s.interrupt line) line l
    simp only [Line.reword, hform, LineForm.reword, reword_interrupt] at happend ⊢
    exact happend

variable {w}

theorem reword_process (branchFollows : Bool) (line : Nat) {l m : Line} (h : l.Reworded w m) :
    (s.process branchFollows line l).reword w = (s.reword w).process branchFollows line m := by
  have hfold : ∀ (ls : List Line) (s : BodyState),
      (ls.foldl (apply branchFollows line) s).reword w =
        (ls.map (Line.reword w)).foldl (apply branchFollows line) (s.reword w) := by
    intro ls
    induction ls with
    | nil => exact fun _ => rfl
    | cons l ls ih =>
      intro s
      rw [List.foldl_cons, List.map_cons, List.foldl_cons, ih, reword_apply]
  unfold process
  rw [h.eq, inConditional_reword, show (l.reword w).form.isBranch = l.form.isBranch from
    l.form.isBranch_reword w]
  split
  · exact reword_apply w s branchFollows line l
  · rw [hfold, ← h, h.eq]

end BodyState

/-! ### Bodies -/

variable {w} {ls ms : List Line}

theorem branchFirst_reword (h : List.Forall₂ (Line.Reworded w) ls ms) :
    branchFirst ms = branchFirst ls := by
  induction h with
  | nil => rfl
  | @cons l m ls ms hlm _ ih =>
    have hblank : m.form.isBlank = l.form.isBlank := by
      rw [hlm.eq]
      exact l.form.isBlank_reword w
    unfold branchFirst at ih ⊢
    rw [List.find?_cons, List.find?_cons, hblank]
    cases l.form.isBlank with
    | true => exact ih
    | false =>
      simp only [Bool.not_false]
      rw [hlm.eq]
      exact l.form.isBranch_reword w

theorem BodyState.reword_readFrom (s : BodyState) (line : Nat)
    (h : List.Forall₂ (Line.Reworded w) ls ms) :
    (s.readFrom line ls).reword w = (s.reword w).readFrom line ms := by
  induction h generalizing s line with
  | nil => rfl
  | @cons l m ls ms hlm hrest ih =>
    have hblank : m.form.isBlank = l.form.isBlank := by
      rw [hlm.eq]
      exact l.form.isBlank_reword w
    rw [readFrom, readFrom, ih, hblank, branchFirst_reword hrest]
    split
    · rfl
    · rw [reword_process s _ line hlm]

theorem leadingPosition?_reword (h : List.Forall₂ (Line.Reworded w) ls ms) :
    leadingPosition? ms = leadingPosition? ls := by
  induction h with
  | nil => rfl
  | @cons l m ls ms hlm _ ih =>
    unfold leadingPosition?
    rw [hlm.eq, Line.reword, ih]
    cases l.form <;> rfl

/-- Lines in other words are read as the same tree in other words. -/
theorem Body.read_reword {texts texts' : List String}
    (h : List.Forall₂ (Line.Reworded w) (Line.ofTexts texts) (Line.ofTexts texts')) (supply : Nat) :
    (Body.read supply texts').1.items = Item.rewordIn w (Body.read supply texts).1.items ∧
      (Body.read supply texts').2 = (Body.read supply texts).2 := by
  have hlast : lastState supply (Line.ofTexts texts') =
      (lastState supply (Line.ofTexts texts)).reword w := by
    have hread := BodyState.reword_readFrom ({ supply } : BodyState) (skipped (Line.ofTexts texts))
      (List.forall₂_drop (skipped (Line.ofTexts texts)) h)
    rw [lastState, lastState, skipped, leadingPosition?_reword h, ← skipped, BodyState.reword_closeAll,
      hread, h.length_eq]
    rfl
  rw [read_eq, read_eq, hlast]
  exact ⟨(Item.rewordIn_reverse w _).symm, rfl⟩

end StoryScript
